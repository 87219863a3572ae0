import NamedFunctions.Relay.Delivery

/-!
# What is queued on faces

A table of faces is seen here through its look-up: what an operation does to the face of each number.
Interests may come onto a queue without changing the data in it, and one delivery puts its data onto
the queue of a face once, however often the face asked for it.
-/

namespace NamedFunctions

/-- The data in a packet, unless it is an Interest. -/
def Packet.content? : Packet → Option Content
  | interest _ => none
  | content c => some c

namespace Face

/-- The data in the queue of a face, the first of it first. -/
def contents (face : Face) : List Content := face.queue.filterMap Packet.content?

/-- Whether the queue of a face holds as many packets as it can. -/
def IsFull (face : Face) : Prop := face.capacity ≤ face.queue.length

instance (face : Face) : Decidable face.IsFull := inferInstanceAs (Decidable (_ ≤ _))

/-- What makes a difference to a delivery: the data in the queue and the flags. -/
def standing (face : Face) : List Content × FaceFlags := (face.contents, face.flags)

/-- The face once it was offered data, unless it has the data already. -/
def receive (content : Content) (now : Nat) (face : Face) : Face :=
  if face.flags.served then face
  else
    ({ face with flags := { face.flags with served := true }, lastUsed := now }.enqueue
      (.content content)).2

/-- Queueing leaves the number of a face. -/
@[simp] theorem id_enqueue (face : Face) (packet : Packet) :
    (face.enqueue packet).2.id = face.id := by
  unfold enqueue
  split <;> rfl

/-- Queueing leaves the flags of a face. -/
@[simp] theorem flags_enqueue (face : Face) (packet : Packet) :
    (face.enqueue packet).2.flags = face.flags := by
  unfold enqueue
  split <;> rfl

/-- A packet comes to the end of a queue that has room for it. -/
theorem queue_enqueue (face : Face) (packet : Packet) :
    (face.enqueue packet).2.queue =
      face.queue ++ if face.IsFull then [] else [packet] := by
  unfold enqueue IsFull
  split
  · next h => simp [h]
  · next h => simp [h]

/-- A packet is queued exactly if there is room. -/
theorem fst_enqueue (face : Face) (packet : Packet) :
    (face.enqueue packet).1 = !decide face.IsFull := by
  unfold enqueue
  split
  · next hfull => simp [IsFull, hfull]
  · next hroom => simp [IsFull, hroom]

/-- An Interest in a queue changes nothing about the data there. -/
theorem contents_enqueue_interest (face : Face) (interest : Interest) :
    (face.enqueue (.interest interest)).2.contents = face.contents := by
  rw [contents, queue_enqueue, List.filterMap_append]
  split <;> simp [contents, Packet.content?]

/-- Data is queued behind the other data if there is room. -/
theorem contents_enqueue_content (face : Face) (content : Content) :
    (face.enqueue (.content content)).2.contents =
      face.contents ++ if face.IsFull then [] else [content] := by
  rw [contents, queue_enqueue, List.filterMap_append]
  split <;> simp [contents, Packet.content?]

/-- A face releases nothing, or the first packet of its queue. -/
theorem popReady_cases (face : Face) (now : Nat) :
    face.popReady now = (none, face) ∨
      ∃ packet queue, face.queue = packet :: queue ∧ face.pacer.ready now = true ∧
        face.popReady now = (some ⟨face.id, face.interface, face.peer, packet⟩,
          { face with queue, pacer := face.pacer.sent now }) := by
  unfold popReady
  split
  · exact .inl rfl
  · next packet queue hqueue =>
    split
    · next hready => exact .inr ⟨packet, queue, hqueue, hready, rfl⟩
    · exact .inl rfl

/-- A face that is given data is marked. -/
theorem served_receive (content : Content) (now : Nat) (face : Face) :
    (face.receive content now).flags.served = true := by
  unfold receive
  split
  · next h => exact h
  · rw [flags_enqueue]

/-- Data that is offered again makes no difference. -/
theorem receive_receive (content : Content) (now : Nat) (face : Face) :
    (face.receive content now).receive content now = face.receive content now := by
  rw [receive, ite_eq_left_iff]
  intro h
  exact absurd (served_receive content now face) h

/-- A face that has not had the data gets it, if there is room. -/
theorem contents_receive (content : Content) (now : Nat) (face : Face) :
    (face.receive content now).contents =
      face.contents ++ if face.flags.served = true ∨ face.IsFull then [] else [content] := by
  unfold receive
  by_cases hs : face.flags.served = true
  · simp [hs]
  · rw [if_neg hs, contents_enqueue_content]
    simp only [or_iff_right hs]
    rfl

end Face

namespace FaceTable

/-- The data in the queue of the face with a number. -/
def contents (table : FaceTable) (id : FaceId) : List Content :=
  ((table.get? id).map Face.contents).getD []

/-- Whether the face with a number is not marked as one that has the data in delivery. -/
def UnmarkedAt (table : FaceTable) (id : FaceId) : Prop :=
  ∀ face, table.get? id = some face → face.flags.served = false

/-- Whether no face is marked as one that has the data in delivery. -/
def Unmarked (table : FaceTable) : Prop := ∀ id, table.UnmarkedAt id

/-- Whether a table is as another one, but for Interests that were queued and for ticks of use. -/
def Quiet (table table' : FaceTable) : Prop :=
  ∀ id, (table'.get? id).map Face.standing = (table.get? id).map Face.standing

/-- A table contains the numbers under which a face is found. -/
theorem contains_eq_isSome (table : FaceTable) (id : FaceId) :
    table.contains id = (table.get? id).isSome := by
  rw [contains, get?, List.isSome_find?]

/-- A face that is found has the number. -/
theorem id_of_get? {table : FaceTable} {id : FaceId} {face : Face}
    (h : table.get? id = some face) : face.id = id := by
  simpa using List.find?_some h

/-- Only the face with the number is changed. -/
theorem get?_modify {id : FaceId} {change : Face → Face}
    (hid : ∀ face, face.id = id → (change face).id = id) (table : FaceTable) (x : FaceId) :
    (table.modify id change).get? x =
      if x = id then (table.get? id).map change else table.get? x := by
  have hkey : ((·.id == x) ∘ fun face : Face => if face.id = id then change face else face) =
      (·.id == x) := by
    funext face
    by_cases hf : face.id = id
    · simp [hf, hid face hf]
    · simp [hf]
  rw [modify, get?, List.find?_map, hkey]
  change (table.get? x).map _ = _
  cases hx : table.get? x with
  | none =>
    split
    · next h => rw [← h, hx]; rfl
    · rfl
  | some face =>
    split
    · next h => simp [id_of_get? hx, ← h, hx]
    · next h => simp [id_of_get? hx, h]

/-- A change of one face, seen at any of them. -/
theorem get?_modify_eq_map {id : FaceId} {change : Face → Face}
    (hid : ∀ face, face.id = id → (change face).id = id) (table : FaceTable) (x : FaceId) :
    (table.modify id change).get? x =
      (table.get? x).map fun face => if x = id then change face else face := by
  rw [get?_modify hid]
  split
  · next h => rw [h]
  · simp

/-- The face with a number takes the place of the one that is there. -/
theorem get?_modify_const {table : FaceTable} {id : FaceId} {face face' : Face}
    (h : table.get? id = some face) (hid : face'.id = id) (x : FaceId) :
    (table.modify id fun _ => face').get? x = if x = id then some face' else table.get? x := by
  rw [get?_modify (fun _ _ => hid), h]
  rfl

/-- No face is found under a number that was erased, and the others are. -/
theorem get?_erase (table : FaceTable) (id x : FaceId) :
    (table.erase id).get? x = if x = id then none else table.get? x := by
  rw [erase, get?, List.find?_filter]
  split
  · next h =>
    rw [List.find?_eq_none]
    intro face _
    simp [h]
  · next h =>
    rw [get?]
    congr 1
    funext face
    by_cases hf : face.id = x
    · simp [hf, h]
    · simp [hf]

/-- A table contains all that it contained but what was erased. -/
theorem contains_erase (table : FaceTable) (id x : FaceId) :
    (table.erase id).contains x = (table.contains x && x != id) := by
  rw [contains_eq_isSome, get?_erase, contains_eq_isSome]
  by_cases h : x = id
  · simp [h]
  · simp [h]

/-- The marks are taken from all faces, and nothing else. -/
theorem get?_clearServed (table : FaceTable) (id : FaceId) :
    table.clearServed.get? id =
      (table.get? id).map fun face => { face with flags := { face.flags with served := false } } := by
  rw [clearServed, get?, get?, List.find?_map]
  rfl

namespace Quiet

variable {table table' table'' : FaceTable}

/-- Nothing has happened to a table that stays. -/
@[refl] protected theorem refl (table : FaceTable) : table.Quiet table := fun _ => rfl

/-- The data on the queues stays. -/
theorem contents_eq (h : table.Quiet table') (id : FaceId) :
    table'.contents id = table.contents id := by
  have := congrArg (fun standing => (standing.map Prod.fst).getD []) (h id)
  simpa [contents, Face.standing, Function.comp_def] using this

/-- The same faces are there. -/
theorem contains_eq (h : table.Quiet table') (id : FaceId) :
    table'.contains id = table.contains id := by
  have := congrArg Option.isSome (h id)
  simpa [contains_eq_isSome] using this

/-- A face that is not marked stays so. -/
theorem unmarkedAt (h : table.Quiet table') {id : FaceId} (hm : table.UnmarkedAt id) :
    table'.UnmarkedAt id := by
  intro face' hf
  have := h id
  rw [hf] at this
  obtain ⟨face, hg, hs⟩ := Option.map_eq_some_iff.mp this.symm
  have hflags : face.flags = face'.flags := congrArg Prod.snd hs
  rw [← hflags]
  exact hm face hg

end Quiet

/-- A change of a face that leaves the data and the flags alone changes nothing of note. -/
theorem quiet_modify_const {table : FaceTable} {id : FaceId} {face face' : Face}
    (h : table.get? id = some face) (hid : face'.id = id)
    (hs : face'.standing = face.standing) : table.Quiet (table.modify id fun _ => face') := by
  intro x
  rw [get?_modify_const h hid]
  split
  · next hx => rw [hx, h, Option.map_some, Option.map_some, hs]
  · rfl

/-- Noting that a face was used is quiet. -/
theorem quiet_touch (table : FaceTable) (id : FaceId) (now : Nat) :
    table.Quiet (table.touch id now) := by
  intro x
  have hid (face : Face) (h : face.id = id) : { face with lastUsed := now }.id = id := h
  rw [touch, get?_modify hid]
  split
  · next hx =>
    rw [hx, Option.map_map]
    rfl
  · rfl

/-- Whether a table has all faces of another one, with no data on their queues but what is left of
the data there. -/
structure Eased (table table' : FaceTable) : Prop where
  contents : ∀ id, table'.contents id <:+ table.contents id
  contains : ∀ id, table.contains id = true → table'.contains id = true

/-- Faces that are changed one by one, with some of the first data gone from their queues. -/
private theorem eased_of_get? {table table' : FaceTable} {change : FaceId → Face → Face}
    (hsuffix : ∀ id face, (change id face).contents <:+ face.contents)
    (hget : ∀ id, table'.get? id = (table.get? id).map (change id)) : table.Eased table' := by
  constructor
  · intro id
    rw [FaceTable.contents, FaceTable.contents, hget, Option.map_map]
    cases table.get? id with
    | none => exact List.suffix_refl _
    | some face => exact hsuffix id face
  · intro id h
    rw [contains_eq_isSome] at h ⊢
    rw [hget, Option.isSome_map]
    exact h

/-- A face that is put into a table is found there, and the others are as they were. -/
theorem get?_put (table : FaceTable) (face : Face) (x : FaceId) :
    (table.put face).get? x = if x = face.id then some face else table.get? x := by
  have hall (p : Face → Bool) (hp : ∀ f, f.id = x → p f = true) :
      (table.faces.filter p).find? (·.id == x) = table.get? x := by
    rw [List.find?_filter, get?]
    congr 1
    funext f
    by_cases hf : f.id = x
    · simp [hf, hp f hf]
    · simp [hf]
  have hnone (p : Face → Bool) (hp : ∀ f, f.id = x → p f = false) :
      (table.faces.filter p).find? (·.id == x) = none := by
    refine List.find?_eq_none.mpr fun f hf heq => ?_
    have hkept := (List.mem_filter.mp hf).2
    rw [hp f (eq_of_beq heq)] at hkept
    cases hkept
  rw [put, get?, List.find?_append, List.find?_cons]
  by_cases hx : x = face.id
  · rw [hnone _ fun f hf => by simp [hf, hx], hx, beq_self_eq_true, Option.none_or, if_pos rfl]
  · rw [beq_eq_false_iff_ne.mpr (Ne.symm hx), if_neg hx]
    -- A face with the number stands on one side of the new one.
    by_cases hbefore : x.val < face.id.val
    · rw [hall _ fun f hf => by simpa [hf] using hbefore,
        hnone _ fun f hf => by simpa [hf] using UInt32.le_of_lt hbefore, Option.or_none]
    · have hne : face.id.val ≠ x.val := fun h => hx (congrArg FaceId.mk h.symm)
      have hafter := UInt32.lt_of_le_of_ne (UInt32.not_lt.mp hbefore) hne
      rw [hnone _ fun f hf => by simpa [hf] using UInt32.le_of_lt hafter,
        hall _ fun f hf => by simpa [hf] using hafter, Option.none_or]

/-- The faces are those that were there, and the one that is put. -/
theorem mem_put {table : FaceTable} {face f : Face} (h : f ∈ (table.put face).faces) :
    f ∈ table.faces ∨ f = face := by
  rcases List.mem_append.mp h with hbefore | hafter
  · exact .inl (List.mem_filter.mp hbefore).1
  · exact (List.mem_cons.mp hafter).symm.imp_left fun h => (List.mem_filter.mp h).1

/-- What holds of all faces, and of the one that is added, holds of all faces then. -/
theorem forall_add {table : FaceTable} {p : Face → Prop} (hold : ∀ face ∈ table.faces, p face)
    {interface : Nat} {peer : Peer} {flags : FaceFlags} {now : Nat}
    (hnew : p (table.newFace interface peer flags now)) :
    ∀ face ∈ (table.add interface peer flags now).2.faces, p face := by
  intro face hface
  rcases mem_put hface with hface | rfl
  · exact hold face hface
  · exact hnew

/-- A face that is added has its number from then on, and the others are as they were. -/
theorem get?_add (table : FaceTable) (interface : Nat) (peer : Peer) (flags : FaceFlags) (now : Nat)
    (id : FaceId) :
    (table.add interface peer flags now).2.get? id =
      if id = ⟨table.nextId⟩ then some (table.newFace interface peer flags now)
      else table.get? id :=
  table.get?_put (table.newFace interface peer flags now) id

private theorem eased_add (table : FaceTable) (interface : Nat) (peer : Peer) (flags : FaceFlags)
    (now : Nat) : table.Eased (table.add interface peer flags now).2 := by
  constructor
  · intro id
    rw [FaceTable.contents, FaceTable.contents, get?_add]
    split
    · exact List.nil_suffix
    · exact List.suffix_refl _
  · intro id h
    rw [contains_eq_isSome] at h ⊢
    rw [get?_add]
    split
    · rfl
    · exact h

private theorem unmarked_add {table : FaceTable} (hm : table.Unmarked) (interface : Nat) (peer : Peer)
    {flags : FaceFlags} (hflags : flags.served = false) (now : Nat) :
    (table.add interface peer flags now).2.Unmarked := by
  intro id face hf
  rw [get?_add] at hf
  split at hf
  · cases hf
    exact hflags
  · exact hm id face hf

/-- Each face gives up a packet if it is ready. -/
theorem get?_popReady (table : FaceTable) (now : Nat) (id : FaceId) :
    (table.popReady now).2.get? id = (table.get? id).map fun face => (face.popReady now).2 := by
  have hkey (face : Face) : (face.popReady now).2.id = face.id := by
    rcases face.popReady_cases now with heq | ⟨_, _, -, -, heq⟩
    · rw [heq]
    · rw [heq]
  rw [popReady, get?, List.map_map, List.find?_map, get?]
  congr 2
  funext face
  simp [hkey]

end FaceTable

/-- Pacing releases the first packet of a queue, if any. -/
theorem Face.queue_popReady (face : Face) (now : Nat) :
    (face.popReady now).2.queue <:+ face.queue ∧ (face.popReady now).2.flags = face.flags := by
  rcases face.popReady_cases now with heq | ⟨packet, queue, hqueue, -, heq⟩
  · rw [heq]
    exact ⟨List.suffix_refl _, rfl⟩
  · rw [heq]
    exact ⟨hqueue ▸ List.suffix_cons packet queue, rfl⟩

namespace FaceTable

/-- Packets that pacing releases leave what came after them. -/
theorem eased_popReady (table : FaceTable) (now : Nat) : table.Eased (table.popReady now).2 :=
  eased_of_get? (fun _ face => (face.queue_popReady now).1.filterMap _) (table.get?_popReady now)

/-- Taking packets marks no face. -/
theorem unmarked_popReady {table : FaceTable} (hm : table.Unmarked) (now : Nat) :
    (table.popReady now).2.Unmarked := by
  intro id face hf
  rw [get?_popReady] at hf
  obtain ⟨face', hf', rfl⟩ := Option.map_eq_some_iff.mp hf
  rw [(face'.queue_popReady now).2]
  exact hm id face' hf'

/-- Looking for a face leaves all but a new one. -/
theorem eased_getOrCreate (table : FaceTable) (interface : Nat) (peer : Peer) (now : Nat) :
    table.Eased (table.getOrCreate interface peer now).2 := by
  unfold getOrCreate
  split
  · exact ⟨fun _ => List.suffix_refl _, fun _ h => h⟩
  · exact table.eased_add interface peer {} now

/-- Looking for a face marks none. -/
theorem unmarked_getOrCreate {table : FaceTable} (hm : table.Unmarked) (interface : Nat)
    (peer : Peer) (now : Nat) : (table.getOrCreate interface peer now).2.Unmarked := by
  unfold getOrCreate
  split
  · exact hm
  · exact unmarked_add hm interface peer rfl now

/-- Flags are set for one face. -/
theorem get?_setFlags (table : FaceTable) (id : FaceId) (flags : FaceFlags) (x : FaceId) :
    (table.modify id fun face => { face with flags }).get? x =
      (table.get? x).map fun face => if x = id then { face with flags } else face := by
  have hid (face : Face) (h : face.id = id) : { face with flags }.id = id := h
  exact get?_modify_eq_map hid table x

/-- Creating a face leaves the queues of all others. -/
theorem eased_create (table : FaceTable) (interface : Nat) (peer : Peer) (flags : FaceFlags)
    (now : Nat) : table.Eased (table.create interface peer flags now).2 := by
  unfold create
  split
  · next id _ =>
    refine eased_of_get? (fun x face => ?_) (table.get?_setFlags id flags)
    split <;> exact List.suffix_refl _
  · exact table.eased_add interface peer flags now

/-- Creating a face without the mark marks none. -/
theorem unmarked_create {table : FaceTable} (hm : table.Unmarked) (interface : Nat) (peer : Peer)
    (flags : FaceFlags) (hflags : flags.served = false) (now : Nat) :
    (table.create interface peer flags now).2.Unmarked := by
  unfold create
  split
  · next id _ =>
    intro x face hf
    rw [get?_setFlags] at hf
    obtain ⟨face', hf', rfl⟩ := Option.map_eq_some_iff.mp hf
    split
    · exact hflags
    · exact hm x face' hf'
  · exact unmarked_add hm interface peer hflags now

end FaceTable

end NamedFunctions
