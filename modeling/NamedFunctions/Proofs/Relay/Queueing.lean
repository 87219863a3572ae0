import NamedFunctions.Proofs.Relay.Sending

/-!
# What is put on queues

Packets come to the ends of queues, one at a time. What is sent is there at the end of its queue if there
was room, a pending Interest that is sent on is there as it was when it became pending, and a tick takes
nothing away.
-/

namespace NamedFunctions

/-- The packets in the queue of the face with a number, the first of them first. -/
def FaceTable.queue (table : FaceTable) (id : FaceId) : List Packet :=
  ((table.get? id).map (·.queue)).getD []

/-- The queue of a number is that of its face. -/
theorem FaceTable.queue_of_get? {table : FaceTable} {id : FaceId} {face : Face}
    (h : table.get? id = some face) : table.queue id = face.queue := by
  rw [queue, h]
  rfl

/-- Whether data that is in delivery comes onto the queue of the face with a number: the face is there, has
not had it, and has room. -/
def FaceTable.takes (table : FaceTable) (id : FaceId) : Bool :=
  (table.get? id).any fun face => !face.flags.served && !decide face.IsFull

/-- A face that is used has the tick of its use noted. -/
theorem FaceTable.get?_touch (table : FaceTable) (id : FaceId) (now : Nat) (x : FaceId) :
    (table.touch id now).get? x =
      if x = id then (table.get? id).map fun face => { face with lastUsed := now }
      else table.get? x := by
  have hid (face : Face) (h : face.id = id) : { face with lastUsed := now }.id = id := h
  rw [touch, get?_modify hid]

/-- A face that is used keeps its queue. -/
theorem FaceTable.queue_touch (table : FaceTable) (id : FaceId) (now : Nat) (x : FaceId) :
    (table.touch id now).queue x = table.queue x := by
  rw [queue, get?_touch, queue]
  split
  · next h =>
    rw [h, Option.map_map]
    rfl
  · rfl

namespace FaceTable

variable (table : FaceTable)

/-- Faces come with empty queues. -/
theorem queue_add (interface : Nat) (peer : Peer) (flags : FaceFlags) (now : Nat) (x : FaceId) :
    (table.add interface peer flags now).2.queue x =
      if x = ⟨table.nextId⟩ then [] else table.queue x := by
  rw [queue, get?_add, queue]
  split <;> rfl

/-- Faces keep their queues when one is added, unless it is given their number. -/
theorem queue_add_cases (interface : Nat) (peer : Peer) (flags : FaceFlags) (now : Nat) (x : FaceId) :
    (table.add interface peer flags now).2.queue x = table.queue x ∨
      table.Gives (table.add interface peer flags now).2 x ∧
        (table.add interface peer flags now).2.queue x = [] := by
  rw [gives_add, queue_add]
  split
  · next h => exact .inr ⟨h, rfl⟩
  · exact .inl rfl

/-- Looking for a face leaves all queues but that of a new one, which is empty. -/
theorem queue_getOrCreate (interface : Nat) (peer : Peer) (now : Nat) (x : FaceId) :
    (table.getOrCreate interface peer now).2.queue x = table.queue x ∨
      table.Gives (table.getOrCreate interface peer now).2 x ∧
        (table.getOrCreate interface peer now).2.queue x = [] := by
  unfold getOrCreate
  split
  · exact .inl rfl
  · exact table.queue_add_cases interface peer {} now x

/-- Creating a face leaves all queues but that of a new one, which is empty. -/
theorem queue_create (interface : Nat) (peer : Peer) (flags : FaceFlags) (now : Nat) (x : FaceId) :
    (table.create interface peer flags now).2.queue x = table.queue x ∨
      table.Gives (table.create interface peer flags now).2 x ∧
        (table.create interface peer flags now).2.queue x = [] := by
  unfold create
  split
  · next id _ =>
    left
    rw [queue, get?_setFlags, Option.map_map, queue]
    congr 2
    funext face
    rw [Function.comp_apply]
    split <;> rfl
  · exact table.queue_add_cases interface peer flags now x

/-- Packets that pacing releases leave what came after them. -/
theorem queue_popReady_suffix (now : Nat) (x : FaceId) :
    (table.popReady now).2.queue x <:+ table.queue x := by
  rw [queue, get?_popReady, Option.map_map, queue]
  cases table.get? x with
  | none => exact List.suffix_refl _
  | some face => exact (face.queue_popReady now).1

end FaceTable

namespace Face

/-- Data that is offered comes to the end of a queue that has room, once. -/
theorem queue_receive (content : Content) (now : Nat) (face : Face) :
    (face.receive content now).queue =
      face.queue ++ if face.flags.served = true ∨ face.IsFull then [] else [.content content] := by
  unfold receive
  by_cases hs : face.flags.served = true
  · simp [hs]
  · rw [if_neg hs, queue_enqueue]
    simp only [or_iff_right hs]
    rfl

end Face

namespace Relay

/-- A packet that is queued is at the end of the queue of its face. Nothing else changes on queues. -/
theorem queue_send (r : Relay) (id : FaceId) (packet : Packet) (x : FaceId) :
    (r.send id packet).2.faces.queue x =
      r.faces.queue x ++ if (r.send id packet).1 = true ∧ x = id then [packet] else [] := by
  cases hf : r.faces.get? id with
  | none =>
    have hmissing : (r.send id packet).1 = false := by simp only [send, hf]
    rw [faces_send_of_missing hf, hmissing]
    simp
  | some face =>
    have hqueued : (r.send id packet).1 = ({ face with lastUsed := r.clock }.enqueue packet).1 := by
      simp only [send, hf]
    rw [hqueued, FaceTable.queue, get?_faces_send hf]
    by_cases hx : x = id
    · rw [if_pos hx, hx, FaceTable.queue_of_get? hf, Option.map_some, Option.getD_some]
      unfold Face.enqueue
      split
      · simp
      · simp
    · rw [if_neg hx, if_neg fun h => hx h.2, List.append_nil]
      rfl

/-- Sending leaves the nonces. -/
theorem nonces_send (r : Relay) (id : FaceId) (packet : Packet) :
    (r.send id packet).2.nonces = r.nonces := by
  unfold send
  split <;> rfl

/-- Sending an Interest on leaves the nonces. -/
theorem nonces_propagate (r : Relay) (id : PendingId) : (r.propagate id).2.nonces = r.nonces := by
  obtain ⟨faces, stats, heq, -⟩ := r.propagate_eq id
  rw [heq]

/-- Sending an Interest on leaves the pending Interests. -/
theorem pending_propagate (r : Relay) (id : PendingId) : (r.propagate id).2.pending = r.pending := by
  obtain ⟨faces, stats, heq, -⟩ := r.propagate_eq id
  rw [heq]

/-- What sending a pending Interest on comes to: it has no route, or its route leads back to a face that
waits for it, or it is queued on the face of its route, or there is no room for it there. -/
theorem propagate_cases (r : Relay) (id : PendingId) :
    r.propagate id = (none, r) ∨
      ∃ e route, r.pending.get? id = some e ∧ r.routes.lookup e.interest.name = some route ∧
        ((r.send route.face (.interest e.interest)).1 = true ∧
            r.propagate id =
              (some route.face,
                (r.send route.face (.interest e.interest)).2.count fun s =>
                  { s with interestsForwarded := s.interestsForwarded + 1 }) ∨
          (r.send route.face (.interest e.interest)).1 = false ∧
            r.propagate id = (none, (r.send route.face (.interest e.interest)).2)) := by
  unfold propagate
  split
  · exact .inl rfl
  · next e he =>
    split
    · exact .inl rfl
    · next route hroute =>
      dsimp only
      split
      · exact .inl rfl
      · right
        refine ⟨e, route, he, hroute, ?_⟩
        rcases r.send route.face (.interest e.interest) with ⟨_ | _, r'⟩
        · exact .inr ⟨rfl, rfl⟩
        · exact .inl ⟨rfl, rfl⟩

/-- A pending Interest that is sent on is at the end of the queue of the face that its route leads
through. Nothing else changes on queues. -/
theorem queue_propagate (r : Relay) (id : PendingId) (x : FaceId) :
    (r.propagate id).2.faces.queue x =
      r.faces.queue x ++
        if (r.propagate id).1 = some x then
          (r.pending.get? id).toList.map fun e => .interest e.interest
        else [] := by
  rcases r.propagate_cases id with heq | ⟨e, route, he, -, ⟨hsent, heq⟩ | ⟨hsent, heq⟩⟩
  · rw [heq]
    simp
  · have hqueue := r.queue_send route.face (.interest e.interest) x
    rw [hsent] at hqueue
    rw [heq, he]
    refine hqueue.trans ?_
    simp [eq_comm]
  · have hqueue := r.queue_send route.face (.interest e.interest) x
    rw [hsent] at hqueue
    rw [heq]
    refine hqueue.trans ?_
    simp

/-- A delivery puts its data once at the end of the queue of each face that waits, has not had it and has
room. Nothing else changes on queues. -/
theorem queue_serve (r : Relay) (content : Content) (entries : List PendingEntry) (id : FaceId) :
    (r.serve content entries).2.faces.queue id =
      r.faces.queue id ++
        if (∃ e ∈ entries, id ∈ e.faces) ∧ r.faces.takes id = true then [.content content] else [] := by
  unfold FaceTable.queue FaceTable.takes
  rw [get?_faces_serve]
  cases hf : r.faces.get? id with
  | none => simp
  | some face =>
    split
    · next hasked =>
      have hqueue := face.queue_receive content r.clock
      simp only [Option.map_some, Option.getD_some, hqueue, hasked, true_and]
      split
      · next h => rcases h with h | h <;> simp [h]
      · next h =>
        rw [not_or] at h
        simp [h.1, h.2]
    · next hasked => simp [hasked]

/-- What a tick does about a pending Interest takes nothing from the queues. -/
theorem queue_sweepPending (sweep : Sweep) (id : PendingId) (x : FaceId) :
    sweep.2.faces.queue x <+: (sweepPending sweep id).2.faces.queue x := by
  obtain ⟨report, r⟩ := sweep
  unfold sweepPending
  dsimp only
  split
  · exact List.prefix_refl _
  · split
    · exact List.prefix_refl _
    · have hsent := queue_propagate
        { r with pending := r.pending.modify id fun e => { e with retries := e.retries + 1 } } id x
      split
      · next heq =>
        rw [heq] at hsent
        exact ⟨_, hsent.symm⟩
      · next heq =>
        rw [heq] at hsent
        exact ⟨_, hsent.symm⟩

private theorem queue_sweeps (ids : List PendingId) (sweep : Sweep) (x : FaceId) :
    sweep.2.faces.queue x <+: (ids.foldl sweepPending sweep).2.faces.queue x := by
  induction ids generalizing sweep with
  | nil => exact List.prefix_refl _
  | cons id ids ih => exact (queue_sweepPending sweep id x).trans (ih _)

/-- An entry that is gone is not swept. -/
theorem snd_sweepPending_of_missing {sweep : Sweep} {id : PendingId}
    (hnone : sweep.2.pending.get? id = none) : (sweepPending sweep id).2 = sweep.2 := by
  obtain ⟨report, r⟩ := sweep
  unfold sweepPending
  dsimp only at hnone ⊢
  rw [hnone]

/-- A pending Interest that has run out goes away with what belongs to it. -/
theorem snd_sweepPending_of_hasRunOut {sweep : Sweep} {id : PendingId} {e : PendingEntry}
    (he : sweep.2.pending.get? id = some e) (hout : sweep.2.hasRunOut e = true) :
    (sweepPending sweep id).2 =
      ({ sweep.2 with pending := sweep.2.pending.erase id }.forget e).2 := by
  obtain ⟨report, r⟩ := sweep
  unfold sweepPending
  dsimp only at he hout ⊢
  rw [he]
  dsimp only
  rw [if_pos hout]

/-- A pending Interest that has not run out is sent again. -/
theorem snd_sweepPending {sweep : Sweep} {id : PendingId} {e : PendingEntry}
    (he : sweep.2.pending.get? id = some e) (hout : ¬ sweep.2.hasRunOut e = true) :
    (sweepPending sweep id).2 =
      (propagate
        { sweep.2 with
          pending := sweep.2.pending.modify id fun e => { e with retries := e.retries + 1 } } id).2 := by
  obtain ⟨report, r⟩ := sweep
  unfold sweepPending
  dsimp only at he hout ⊢
  rw [he]
  dsimp only
  rw [if_neg hout]
  split
  · next heq => rw [heq]
  · next heq => rw [heq]

/-- A pending Interest that a tick sends again is on the queue of its face when the tick is over. -/
theorem Sends.mem_queue_tick {r s : Relay} {id : PendingId} (h : Sends r .tick s id) {face : FaceId}
    (hqueued : (s.propagate id).1 = some face) {e : PendingEntry} (he : s.pending.get? id = some e) :
    .interest e.interest ∈ r.tick.2.faces.queue face := by
  cases h with
  | @retried before after _ e' hids he' hout =>
    have hsent := queue_propagate
      { (before.foldl sweepPending r.aged).2 with
        pending := (before.foldl sweepPending r.aged).2.pending.modify id fun e =>
          { e with retries := e.retries + 1 } } id face
    rw [if_pos hqueued, he, ← snd_sweepPending he' hout] at hsent
    have hmem : .interest e.interest ∈
        (sweepPending (before.foldl sweepPending r.aged) id).2.faces.queue face := by
      rw [hsent]
      exact List.mem_append_right _ List.mem_cons_self
    have hrest := (queue_sweeps after (sweepPending (before.foldl sweepPending r.aged) id) face).subset
      hmem
    change _ ∈ (r.aged.2.pending.ids.foldl sweepPending r.aged).2.faces.queue face
    rw [hids, List.foldl_append]
    exact hrest

end Relay

end NamedFunctions
