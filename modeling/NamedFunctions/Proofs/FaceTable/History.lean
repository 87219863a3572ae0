import Mathlib.Data.List.Chain
import Mathlib.Data.List.Nodup
import NamedFunctions.Proofs.FaceTable.Layout

/-!
# What becomes of queued packets

The packets that a face has released, and after them the packets in its queue, are those that were queued on
it, in the order in which they were, whatever is done to the table in between. They are released one at a
time, with the gap between them that pacing asks for, whatever the instants are at which it is asked. A face
lives from when it is added until it is removed, or until its number is given to another one; that one starts
with an empty queue.
-/

namespace NamedFunctions

namespace Face

/-- Whether a face for `capacity` packets, which it sends `interval` apart, is what it is after some packets
were queued on it and some released, at the instants that are told with them. -/
structure Follows (face : Face) (capacity interval : Nat) (accepted : List Packet)
    (released : List (Nat × Packet)) : Prop where
  capacity_eq : face.capacity = capacity
  interval_eq : face.pacer.interval = interval
  length_le : face.queue.length ≤ capacity
  accepted_eq : accepted = released.map (·.2) ++ face.queue
  spaced : released.IsChain fun earlier later => interval ≤ later.1 - earlier.1
  /-- Where there is a gap to keep, the pacer counts from the last release. -/
  nextSlot : ∀ last ∈ released.getLast?, interval = 0 ∨ face.pacer.nextSlot = some (last.1 + interval)

/-- Whether packets were released in the order in which they were queued, at least `interval` apart. -/
structure Orderly (interval : Nat) (accepted : List Packet) (released : List (Nat × Packet)) : Prop where
  order : released.map (·.2) <+: accepted
  spaced : released.IsChain fun earlier later => interval ≤ later.1 - earlier.1

/-- The packet that a face releases at an instant, with that instant. -/
def release? (face : Face) (now : Nat) : Option (Nat × Packet) :=
  (face.popReady now).1.map fun outbound => (now, outbound.packet)

namespace Follows

variable {face : Face} {capacity interval : Nat} {accepted : List Packet} {released : List (Nat × Packet)}

private theorem orderly (h : face.Follows capacity interval accepted released) :
    Orderly interval accepted released :=
  ⟨⟨face.queue, h.accepted_eq.symm⟩, h.spaced⟩

/-- What is neither in the queue nor about pacing makes no difference. -/
theorem congr (h : face.Follows capacity interval accepted released) {face' : Face}
    (hqueue : face'.queue = face.queue) (hcapacity : face'.capacity = face.capacity)
    (hpacer : face'.pacer = face.pacer) : face'.Follows capacity interval accepted released :=
  ⟨hcapacity ▸ h.capacity_eq, hpacer ▸ h.interval_eq, hqueue ▸ h.length_le, hqueue ▸ h.accepted_eq, h.spaced,
    hpacer ▸ h.nextSlot⟩

/-- A packet that is queued comes after all others. -/
theorem enqueue (h : face.Follows capacity interval accepted released) (packet : Packet) :
    (face.enqueue packet).2.Follows capacity interval
      (accepted ++ if (face.enqueue packet).1 = true then [packet] else []) released := by
  unfold Face.enqueue
  split
  · simpa using h
  · next hroom =>
    refine ⟨h.capacity_eq, h.interval_eq, ?_, ?_, h.spaced, h.nextSlot⟩
    · rw [h.capacity_eq] at hroom
      rw [List.length_append]
      exact Nat.lt_of_not_le hroom
    · rw [if_pos rfl, h.accepted_eq, List.append_assoc]

/-- A packet that is released is the first of those that were queued after the ones released before, and it
keeps the gap to the last of these. -/
theorem popReady (h : face.Follows capacity interval accepted released) (now : Nat) :
    (face.popReady now).2.Follows capacity interval accepted
      (released ++ (face.release? now).toList) := by
  unfold release?
  rcases face.popReady_cases now with heq | ⟨packet, queue, hqueue, hready, heq⟩
  · rw [heq]
    simpa using h
  · rw [heq]
    -- The pacer knows of the last release alone, and that is the one the next has to keep apart from.
    have hgap : ∀ last ∈ released.getLast?, interval ≤ now - last.1 := by
      intro last hlast
      rcases h.nextSlot last hlast with hzero | hslot
      · exact hzero ▸ Nat.zero_le _
      · rw [Pacer.ready, hslot] at hready
        have hdue : last.1 + interval ≤ now := by simpa using hready
        omega
    have hlength := h.length_le
    rw [hqueue] at hlength
    refine ⟨h.capacity_eq, ?_, Nat.le_of_succ_le hlength, ?_, ?_, ?_⟩
    · rw [← h.interval_eq]
      unfold Pacer.sent
      split <;> rfl
    · rw [h.accepted_eq, hqueue]
      simp
    · refine List.isChain_append.mpr ⟨h.spaced, .singleton _, ?_⟩
      intro last hlast next hnext
      obtain rfl : (now, packet) = next := by simpa using hnext
      exact hgap last hlast
    · intro last hlast
      obtain rfl : (now, packet) = last := by simpa using hlast
      by_cases hzero : interval = 0
      · exact .inl hzero
      · right
        rw [Pacer.sent, h.interval_eq, if_neg hzero]

end Follows

end Face

namespace FaceTable

/-- What is asked of a table of faces. -/
inductive Command where
  | getOrCreate (interface : Nat) (peer : Peer) (now : Nat)
  | create (interface : Nat) (peer : Peer) (flags : FaceFlags) (now : Nat)
  | enqueue (id : FaceId) (packet : Packet)
  | popReady (now : Nat)
  | erase (id : FaceId)
  | touch (id : FaceId) (now : Nat)
  | markServed (id : FaceId)
  | clearServed
deriving Repr

/-- What happens to faces and packets. -/
inductive Event where
  /-- A face is added and given a number. -/
  | created (id : FaceId)
  /-- A packet is queued on a face that has room for it. -/
  | queued (id : FaceId) (packet : Packet)
  /-- A packet is released at an instant. -/
  | released (now : Nat) (outbound : Outbound)
deriving Repr

/-- What a command makes happen, and the table after it. -/
def perform (table : FaceTable) : Command → List Event × FaceTable
  | .getOrCreate interface peer now =>
    let (id, table') := table.getOrCreate interface peer now
    (if table.find? interface peer = none then [.created id] else [], table')
  | .create interface peer flags now =>
    let (id, table') := table.create interface peer flags now
    (if table.find? interface peer = none then [.created id] else [], table')
  | .enqueue id packet =>
    let (queued, table) := table.enqueue id packet
    (if queued = some true then [.queued id packet] else [], table)
  | .popReady now =>
    let (outbound, table) := table.popReady now
    (outbound.map (.released now), table)
  | .erase id => ([], table.erase id)
  | .touch id now => ([], table.touch id now)
  | .markServed id => ([], table.markServed id)
  | .clearServed => ([], table.clearServed)

/-- What some commands make happen, the first of it first, and the table after them. -/
def performAll (table : FaceTable) : List Command → List Event × FaceTable
  | [] => ([], table)
  | c :: commands =>
    ((table.perform c).1 ++ ((table.perform c).2.performAll commands).1,
      ((table.perform c).2.performAll commands).2)

/-- Whether a face is given a number with an event. -/
def Event.Creates (id : FaceId) : Event → Prop
  | .created id' => id' = id
  | _ => False

instance (id : FaceId) : (event : Event) → Decidable (event.Creates id)
  | .created _ => inferInstanceAs (Decidable (_ = _))
  | .queued _ _ => inferInstanceAs (Decidable False)
  | .released _ _ => inferInstanceAs (Decidable False)

/-- What has happened since a number was given last. -/
def lifetime (events : List Event) (id : FaceId) : List Event :=
  events.foldl (fun past event => if event.Creates id then [] else past ++ [event]) []

/-- The packet that an event puts on the queue of a face. -/
def Event.accepted? (id : FaceId) : Event → Option Packet
  | .queued id' packet => if id' = id then some packet else none
  | _ => none

/-- The packet that an event takes off the queue of a face, with the instant. -/
def Event.released? (id : FaceId) : Event → Option (Nat × Packet)
  | .released now outbound => if outbound.face = id then some (now, outbound.packet) else none
  | _ => none

/-- The packets that were queued on a face since it was given its number. -/
def accepted (events : List Event) (id : FaceId) : List Packet :=
  (lifetime events id).filterMap (Event.accepted? id)

/-- The packets that a face has released since it was given its number, with the instants. -/
def released (events : List Event) (id : FaceId) : List (Nat × Packet) :=
  (lifetime events id).filterMap (Event.released? id)

private theorem lifetime_append {events' : List Event} {id : FaceId}
    (h : ∀ event ∈ events', ¬ event.Creates id)
    (events : List Event) : lifetime (events ++ events') id = lifetime events id ++ events' := by
  rw [lifetime, List.foldl_append, ← lifetime]
  generalize lifetime events id = past
  induction events' generalizing past with
  | nil => rw [List.foldl_nil, List.append_nil]
  | cons event events' ih =>
    obtain ⟨hevent, hevents⟩ := List.forall_mem_cons.mp h
    rw [List.foldl_cons, if_neg hevent, ih hevents, List.append_assoc, List.singleton_append]

/-- With its number a face starts anew. -/
theorem lifetime_created (events : List Event) (id : FaceId) :
    lifetime (events ++ [.created id]) id = [] := by
  rw [lifetime, List.foldl_append, List.foldl_cons, if_pos (show Event.Creates id (.created id) from rfl),
    List.foldl_nil]

/-- Where no number is given, what happens comes on top of what has happened. -/
theorem accepted_append {events' : List Event} {id : FaceId} (h : ∀ event ∈ events', ¬ event.Creates id)
    (events : List Event) :
    accepted (events ++ events') id =
      accepted events id ++ events'.filterMap (Event.accepted? id) := by
  rw [accepted, lifetime_append h, List.filterMap_append, accepted]

private theorem released_append {events' : List Event} {id : FaceId}
    (h : ∀ event ∈ events', ¬ event.Creates id) (events : List Event) :
    released (events ++ events') id =
      released events id ++ events'.filterMap (Event.released? id) := by
  rw [released, lifetime_append h, List.filterMap_append, released]

variable {table table' : FaceTable} {capacity interval : Nat} {events : List Event}

private theorem get?_enqueue {id : FaceId} {face : Face} (h : table.get? id = some face) (packet : Packet)
    (x : FaceId) :
    (table.enqueue id packet).2.get? x =
      (table.get? x).map fun other => if x = id then (face.enqueue packet).2 else other := by
  have hid : (face.enqueue packet).2.id = id := (face.id_enqueue packet).trans (id_of_get? h)
  rw [enqueue, h]
  exact get?_modify_eq_map (fun _ _ => hid) table x

private theorem layout_enqueue (id : FaceId) (packet : Packet) :
    (table.enqueue id packet).2.layout = table.layout := by
  unfold enqueue
  split
  · rfl
  · next face hface =>
    have hplace : ((face.enqueue packet).2.interface, (face.enqueue packet).2.peer) =
        (face.interface, face.peer) := by
      unfold Face.enqueue
      split <;> rfl
    exact layout_modify_const hface ((face.id_enqueue packet).trans (id_of_get? hface)) hplace

private theorem settings_enqueue (table : FaceTable) (id : FaceId) (packet : Packet) :
    (table.enqueue id packet).2.queueCapacity = table.queueCapacity ∧
      (table.enqueue id packet).2.interval = table.interval := by
  unfold enqueue
  split <;> exact ⟨rfl, rfl⟩

private theorem events_enqueue (id : FaceId) (packet : Packet) :
    (table.perform (.enqueue id packet)).1 =
      if (table.enqueue id packet).1 = some true then [.queued id packet] else [] := rfl

private theorem not_creates_enqueue (id : FaceId) (packet : Packet) (x : FaceId) :
    ∀ event ∈ (table.perform (.enqueue id packet)).1, ¬ event.Creates x := by
  intro event hevent
  rw [events_enqueue] at hevent
  split at hevent
  · rw [List.mem_singleton.mp hevent]
    exact fun hcreates => hcreates
  · exact absurd hevent List.not_mem_nil

/-- A packet that is queued is queued on one face. -/
theorem accepted?_enqueue (id : FaceId) (packet : Packet) (x : FaceId) :
    (table.perform (.enqueue id packet)).1.filterMap (Event.accepted? x) =
      if x = id ∧ (table.enqueue id packet).1 = some true then [packet] else [] := by
  rw [events_enqueue]
  by_cases hqueued : (table.enqueue id packet).1 = some true
  · by_cases hx : x = id
    · simp [Event.accepted?, hqueued, hx]
    · simp [Event.accepted?, hqueued, hx, Ne.symm hx]
  · rw [if_neg hqueued, if_neg fun h => hqueued h.2]
    rfl

private theorem released?_enqueue (id : FaceId) (packet : Packet) (x : FaceId) :
    (table.perform (.enqueue id packet)).1.filterMap (Event.released? x) = [] := by
  rw [events_enqueue]
  split <;> rfl

/-- A full queue is left as it is, and the table with it. -/
theorem enqueue_of_full (hnodup : table.ids.Nodup) {id : FaceId} {face : Face}
    (h : table.get? id = some face) (hfull : face.capacity ≤ face.queue.length) (packet : Packet) :
    table.enqueue id packet = (some false, table) := by
  have hsame : table.modify id (fun _ => face) = table := by
    have hfaces : (table.faces.map fun f => if f.id = id then face else f) = table.faces := by
      refine (List.map_congr_left fun f hf => ?_).trans (List.map_id' _)
      split
      · next hid =>
        have hget := get?_eq_some_of_mem hnodup hf
        rw [hid, h] at hget
        exact Option.some.inj hget
      · rfl
    rw [modify, hfaces]
  rw [enqueue, h]
  dsimp only
  rw [Face.enqueue, if_pos hfull, hsame]

private theorem fst_enqueue {id : FaceId} {face : Face} (h : table.get? id = some face) (packet : Packet) :
    (table.enqueue id packet).1 = some (face.enqueue packet).1 := by
  rw [enqueue, h]

/-- Of the faces of a table one has a given number at most. -/
theorem filterMap_face {α : Type} {faces : List Face} (h : (faces.map (·.id)).Nodup) (id : FaceId)
    (f : Face → Option α) :
    (faces.filterMap fun face => if face.id = id then f face else none) =
      ((faces.find? (·.id == id)).bind f).toList := by
  induction faces with
  | nil => rfl
  | cons face faces ih =>
    rw [List.map_cons, List.nodup_cons] at h
    rw [List.filterMap_cons, List.find?_cons]
    by_cases hid : face.id = id
    · have hothers : (faces.filterMap fun face => if face.id = id then f face else none) = [] := by
        refine List.filterMap_eq_nil_iff.mpr fun other hother => if_neg fun heq => h.1 ?_
        exact hid.trans heq.symm ▸ List.mem_map_of_mem hother
      rw [if_pos hid, beq_iff_eq.mpr hid, hothers]
      cases hface : f face <;> simp [hface]
    · rw [if_neg hid, beq_eq_false_iff_ne.mpr hid]
      exact ih h.2

/-- A face releases what it would release by itself. -/
theorem released?_popReady (h : table.ids.Nodup) (now : Nat) (id : FaceId) :
    (table.perform (.popReady now)).1.filterMap (Event.released? id) =
      ((table.get? id).bind (·.release? now)).toList := by
  have hevent (face : Face) :
      ((face.popReady now).1.map (Event.released now)).bind (Event.released? id) =
        if face.id = id then face.release? now else none := by
    rw [Face.release?]
    rcases face.popReady_cases now with heq | ⟨packet, queue, -, -, heq⟩
    · rw [heq]
      simp
    · rw [heq]
      rfl
  rw [get?, ← filterMap_face h, perform, popReady]
  dsimp only
  rw [List.filterMap_map, List.filterMap_map, List.filterMap_filterMap]
  refine List.filterMap_congr fun face _ => ?_
  rw [← hevent, Option.bind_map]
  rfl

/-- Whether some events have led to a table: the queues of its faces are what they have left there. -/
structure Follows (table : FaceTable) (capacity interval : Nat) (events : List Event) : Prop where
  capacity_eq : table.queueCapacity = capacity
  interval_eq : table.interval = interval
  wellFormed : table.WellFormed
  living : ∀ id face, table.get? id = some face →
    face.Follows capacity interval (accepted events id) (released events id)
  /-- This holds of faces that are gone, too. -/
  orderly : ∀ id, Face.Orderly interval (accepted events id) (released events id)

namespace Follows

private theorem empty (capacity interval : Nat) :
    Follows { queueCapacity := capacity, interval } capacity interval [] := by
  refine ⟨rfl, rfl, .empty capacity interval, ?_, fun _ => ⟨List.nil_prefix, .nil⟩⟩
  intro id face hface
  cases hface

/-- If no face comes or goes, what is done to each of them has to agree with what happens to it. -/
theorem change (h : table.Follows capacity interval events) {change : FaceId → Face → Face}
    (hget : ∀ id, table'.get? id = (table.get? id).map (change id))
    (hlayout : table'.layout = table.layout) (hcapacity : table'.queueCapacity = table.queueCapacity)
    (hinterval : table'.interval = table.interval) {events' : List Event}
    (hnone : ∀ id, ∀ event ∈ events', ¬ event.Creates id)
    (habsent : ∀ id, table.get? id = none →
      events'.filterMap (Event.accepted? id) = [] ∧ events'.filterMap (Event.released? id) = [])
    (hface : ∀ id face, table.get? id = some face →
      face.Follows capacity interval (accepted events id) (released events id) →
      (change id face).Follows capacity interval
        (accepted events id ++ events'.filterMap (Event.accepted? id))
        (released events id ++ events'.filterMap (Event.released? id))) :
    table'.Follows capacity interval (events ++ events') := by
  refine ⟨hcapacity.trans h.capacity_eq, hinterval.trans h.interval_eq, h.wellFormed.of_layout hlayout,
    fun id face hface' => ?_, fun id => ?_⟩
  · rw [hget] at hface'
    obtain ⟨face, hthere, rfl⟩ := Option.map_eq_some_iff.mp hface'
    rw [accepted_append (hnone id), released_append (hnone id)]
    exact hface id face hthere (h.living id face hthere)
  · rw [accepted_append (hnone id), released_append (hnone id)]
    cases hthere : table.get? id with
    | none =>
      obtain ⟨haccepted, hreleased⟩ := habsent id hthere
      rw [haccepted, hreleased, List.append_nil, List.append_nil]
      exact h.orderly id
    | some face => exact (hface id face hthere (h.living id face hthere)).orderly

/-- Where nothing happens to packets it is enough that faces keep their queues and pacers. -/
theorem change_idle (h : table.Follows capacity interval events) {change : FaceId → Face → Face}
    (hget : ∀ id, table'.get? id = (table.get? id).map (change id))
    (hlayout : table'.layout = table.layout) (hcapacity : table'.queueCapacity = table.queueCapacity)
    (hinterval : table'.interval = table.interval)
    (hkeep : ∀ id face, (change id face).queue = face.queue ∧ (change id face).capacity = face.capacity ∧
      (change id face).pacer = face.pacer) :
    table'.Follows capacity interval (events ++ []) := by
  refine h.change hget hlayout hcapacity hinterval (fun _ => List.forall_mem_nil _) (fun _ _ => ⟨rfl, rfl⟩)
    fun id face _ hfollows => ?_
  obtain ⟨hqueue, hheld, hpacer⟩ := hkeep id face
  simpa using hfollows.congr hqueue hheld hpacer

/-- A face comes with an empty queue, and nothing has happened to it. -/
theorem add (h : table.Follows capacity interval events) {interface : Nat} {peer : Peer}
    (hfind : table.find? interface peer = none) (flags : FaceFlags) (now : Nat) :
    (table.add interface peer flags now).2.Follows capacity interval
      (events ++ [.created ⟨table.nextId⟩]) := by
  have hnew : accepted (events ++ [.created ⟨table.nextId⟩]) ⟨table.nextId⟩ = [] ∧
      released (events ++ [.created ⟨table.nextId⟩]) ⟨table.nextId⟩ = [] := by
    rw [accepted, released, lifetime_created]
    exact ⟨rfl, rfl⟩
  have hothers {id : FaceId} (hid : id ≠ ⟨table.nextId⟩) :
      accepted (events ++ [.created ⟨table.nextId⟩]) id = accepted events id ∧
        released (events ++ [.created ⟨table.nextId⟩]) id = released events id := by
    have hnone : ∀ event ∈ [Event.created ⟨table.nextId⟩], ¬ event.Creates id :=
      List.forall_mem_singleton.mpr (Ne.symm hid)
    rw [accepted_append hnone, released_append hnone]
    exact ⟨List.append_nil _, List.append_nil _⟩
  refine ⟨h.capacity_eq, h.interval_eq, h.wellFormed.add hfind flags now, fun id face hface => ?_,
    fun id => ?_⟩
  · rw [get?_add] at hface
    split at hface
    · next hid =>
      obtain rfl := Option.some.inj hface
      rw [hid, hnew.1, hnew.2]
      exact ⟨h.capacity_eq, h.interval_eq, Nat.zero_le _, rfl, .nil, fun _ hlast => by cases hlast⟩
    · next hid =>
      rw [(hothers hid).1, (hothers hid).2]
      exact h.living id face hface
  · by_cases hid : id = ⟨table.nextId⟩
    · rw [hid, hnew.1, hnew.2]
      exact ⟨List.nil_prefix, .nil⟩
    · rw [(hothers hid).1, (hothers hid).2]
      exact h.orderly id

private theorem getOrCreate (h : table.Follows capacity interval events) (interface : Nat) (peer : Peer)
    (now : Nat) :
    (table.perform (.getOrCreate interface peer now)).2.Follows capacity interval
      (events ++ (table.perform (.getOrCreate interface peer now)).1) := by
  cases hfind : table.find? interface peer with
  | some id =>
    have hthere : table.perform (.getOrCreate interface peer now) = ([], table) := by
      simp [FaceTable.perform, FaceTable.getOrCreate, hfind]
    rw [hthere, List.append_nil]
    exact h
  | none =>
    have hadded : table.perform (.getOrCreate interface peer now) =
        ([.created ⟨table.nextId⟩], (table.add interface peer {} now).2) := by
      simp [FaceTable.perform, FaceTable.getOrCreate, hfind, FaceTable.add]
    rw [hadded]
    exact h.add hfind {} now

private theorem create (h : table.Follows capacity interval events) (interface : Nat) (peer : Peer)
    (flags : FaceFlags) (now : Nat) :
    (table.perform (.create interface peer flags now)).2.Follows capacity interval
      (events ++ (table.perform (.create interface peer flags now)).1) := by
  cases hfind : table.find? interface peer with
  | some id =>
    have hthere : table.perform (.create interface peer flags now) =
        ([], table.modify id fun face => { face with flags }) := by
      simp [FaceTable.perform, FaceTable.create, hfind]
    rw [hthere]
    refine h.change_idle (table.get?_setFlags id flags) (layout_setFlags id flags) rfl rfl ?_
    intro x face
    split <;> exact ⟨rfl, rfl, rfl⟩
  | none =>
    have hadded : table.perform (.create interface peer flags now) =
        ([.created ⟨table.nextId⟩], (table.add interface peer flags now).2) := by
      simp [FaceTable.perform, FaceTable.create, hfind, FaceTable.add]
    rw [hadded]
    exact h.add hfind flags now

private theorem enqueue (h : table.Follows capacity interval events) (id : FaceId) (packet : Packet) :
    (table.perform (.enqueue id packet)).2.Follows capacity interval
      (events ++ (table.perform (.enqueue id packet)).1) := by
  cases hface : table.get? id with
  | none =>
    have hmissing : table.perform (.enqueue id packet) = ([], table) := by
      rw [perform, FaceTable.enqueue, hface]
      rfl
    rw [hmissing, List.append_nil]
    exact h
  | some face =>
    obtain ⟨hcapacity, hinterval⟩ := table.settings_enqueue id packet
    refine h.change (get?_enqueue hface packet) (layout_enqueue id packet) hcapacity hinterval
      (not_creates_enqueue id packet) ?_ ?_
    · intro x hx
      refine ⟨(accepted?_enqueue id packet x).trans (if_neg fun hqueued => ?_),
        released?_enqueue id packet x⟩
      rw [hqueued.1, hface] at hx
      cases hx
    · intro x other hx hfollows
      rw [accepted?_enqueue, released?_enqueue, fst_enqueue hface, List.append_nil]
      by_cases hid : x = id
      · rw [hid, hface] at hx
        obtain rfl := Option.some.inj hx
        simpa [hid] using hfollows.enqueue packet
      · rw [if_neg hid, if_neg fun hqueued => hid hqueued.1, List.append_nil]
        exact hfollows

private theorem popReady (h : table.Follows capacity interval events) (now : Nat) :
    (table.perform (.popReady now)).2.Follows capacity interval
      (events ++ (table.perform (.popReady now)).1) := by
  have haccepted (id : FaceId) :
      (table.perform (.popReady now)).1.filterMap (Event.accepted? id) = [] := by
    rw [FaceTable.perform, List.filterMap_map]
    exact List.filterMap_eq_nil_iff.mpr fun _ _ => rfl
  have hreleased := released?_popReady h.wellFormed.nodup now
  refine h.change (table.get?_popReady now) (layout_popReady now) rfl rfl ?_ ?_ ?_
  · intro id event hevent
    obtain ⟨outbound, -, rfl⟩ := List.mem_map.mp hevent
    exact fun hcreates => hcreates
  · intro id hid
    refine ⟨haccepted id, ?_⟩
    rw [hreleased, hid]
    rfl
  · intro id face hface hfollows
    rw [haccepted, hreleased, hface, List.append_nil]
    exact hfollows.popReady now

private theorem erase (h : table.Follows capacity interval events) (id : FaceId) :
    (table.erase id).Follows capacity interval (events ++ []) := by
  rw [List.append_nil]
  refine ⟨h.capacity_eq, h.interval_eq, h.wellFormed.erase id, fun x face hface => ?_, h.orderly⟩
  rw [get?_erase] at hface
  obtain ⟨-, hface⟩ := Option.ite_none_left_eq_some.mp hface
  exact h.living x face hface

/-- Whatever is asked of a table, what it leads to agrees with what happens. -/
theorem perform (h : table.Follows capacity interval events) (c : Command) :
    (table.perform c).2.Follows capacity interval (events ++ (table.perform c).1) := by
  cases c with
  | getOrCreate interface peer now => exact h.getOrCreate interface peer now
  | create interface peer flags now => exact h.create interface peer flags now
  | enqueue id packet => exact h.enqueue id packet
  | popReady now => exact h.popReady now
  | erase id => exact h.erase id
  | touch id now =>
    have hid (face : Face) (hface : face.id = id) : { face with lastUsed := now }.id = id := hface
    refine h.change_idle (get?_modify_eq_map hid table) (layout_touch id now) rfl rfl ?_
    intro x face
    split <;> exact ⟨rfl, rfl, rfl⟩
  | markServed id =>
    have hid (face : Face) (hface : face.id = id) :
        { face with flags := { face.flags with served := true } }.id = id := hface
    refine h.change_idle (get?_modify_eq_map hid table) (layout_markServed id) rfl rfl ?_
    intro x face
    split <;> exact ⟨rfl, rfl, rfl⟩
  | clearServed =>
    exact h.change_idle table.get?_clearServed layout_clearServed rfl rfl fun _ _ => ⟨rfl, rfl, rfl⟩

/-- From one command to a run: events are added at the end, so they are generalized with the table. -/
theorem performAll (h : table.Follows capacity interval events) (commands : List Command) :
    (table.performAll commands).2.Follows capacity interval
      (events ++ (table.performAll commands).1) := by
  induction commands generalizing table events with
  | nil =>
    rw [FaceTable.performAll, List.append_nil]
    exact h
  | cons c commands ih =>
    rw [FaceTable.performAll, ← List.append_assoc]
    exact ih (h.perform c)

end Follows

/-- Whatever is asked of a table that was empty, the packets that a face has released since it was added, in
the order of their release, and then those in its queue are the packets that were queued on it since. This
holds at each moment of the life of each face, also of one that is given the number of another. No queue holds
more than it may: a packet is queued if there is room, and refused, with the table left as it is, if the queue
is full. Two releases of a face that follow each other are `interval` apart at least, whatever the instants
are at which packets are asked for. -/
theorem queues_of_performAll (queueCapacity interval : Nat) (commands : List Command) :
    let events := (performAll { queueCapacity, interval } commands).1
    let table := (performAll { queueCapacity, interval } commands).2
    (∀ id face, table.get? id = some face →
      accepted events id = (released events id).map (·.2) ++ face.queue ∧
      face.queue.length ≤ queueCapacity ∧
      ∀ packet,
        ((table.enqueue id packet).1 = some true ↔ face.queue.length < queueCapacity) ∧
        (table.enqueue id packet = (some false, table) ↔ face.queue.length = queueCapacity)) ∧
    ∀ id, (released events id).map (·.2) <+: accepted events id ∧
      (released events id).IsChain fun earlier later => interval ≤ later.1 - earlier.1 := by
  intro events table
  have h : table.Follows queueCapacity interval events :=
    (Follows.empty queueCapacity interval).performAll commands
  refine ⟨fun id face hface => ?_, fun id => ⟨(h.orderly id).order, (h.orderly id).spaced⟩⟩
  have hfollows := h.living id face hface
  have hcapacity := hfollows.capacity_eq
  have hlength := hfollows.length_le
  refine ⟨hfollows.accepted_eq, hlength, fun packet => ?_⟩
  have hqueued : (table.enqueue id packet).1 = some true ↔ face.queue.length < queueCapacity := by
    rw [fst_enqueue hface, Option.some.injEq, face.fst_enqueue, Bool.not_eq_true', decide_eq_false_iff_not,
      Face.IsFull, hcapacity, Nat.not_le]
  refine ⟨hqueued, fun hrefused => ?_, fun hfull => ?_⟩
  · have hnot : ¬ face.queue.length < queueCapacity := by
      rw [← hqueued, hrefused]
      simp
    exact Nat.le_antisymm hlength (Nat.le_of_not_lt hnot)
  · exact enqueue_of_full h.wellFormed.nodup hface (by rw [hcapacity, hfull]) packet

end FaceTable

end NamedFunctions
