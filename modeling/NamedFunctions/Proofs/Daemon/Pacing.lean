import NamedFunctions.Proofs.Daemon.Transmission

/-!
# Pacing

When packets are sent, all go that pacing allows, at the faces and then at the sockets. What is left has
to wait for a slot that is later, and the daemon wakes up at the first of these: before it nothing can be
sent, and then something is. None of this depends on which packets can be encoded, or on what becomes of
the datagrams that are sent.
-/

namespace NamedFunctions

namespace Pacer

variable {pacer : Pacer} {now slot : Nat}

private theorem exists_slot_of_not_ready (h : pacer.ready now = false) :
    ∃ slot, pacer.nextSlot = some slot ∧ now < slot := by
  unfold ready at h
  cases hslot : pacer.nextSlot with
  | none =>
    rw [hslot] at h
    cases h
  | some slot =>
    rw [hslot] at h
    exact ⟨slot, rfl, by simpa using h⟩

private theorem ready_of_nextSlot (h : pacer.nextSlot = some slot) :
    pacer.ready now = decide (slot ≤ now) := by
  rw [ready, h]
  rfl

end Pacer

namespace Face

private theorem popReady_of_empty {face : Face} (h : face.queue = []) (now : Nat) :
    face.popReady now = (none, face) := by
  rw [popReady, h]

/-- Pacing holds back what is queued. -/
theorem popReady_of_not_ready {face : Face} {now : Nat} (h : face.pacer.ready now = false) :
    face.popReady now = (none, face) := by
  unfold popReady
  split
  · rfl
  · rw [if_neg (by simp [h])]

/-- If nothing is released, nothing is queued or pacing holds it back. -/
theorem of_popReady_eq_none {face : Face} {now : Nat} (h : (face.popReady now).1 = none) :
    face.queue = [] ∨ face.pacer.ready now = false := by
  unfold popReady at h
  split at h
  · next hqueue => exact .inl hqueue
  · split at h
    · cases h
    · next hready => exact .inr (by simpa using hready)

end Face

namespace Relay

variable {r : Relay} {now : Nat}

/-- Nothing is released if pacing holds back all that is queued. -/
theorem drainReady_of_held
    (h : ∀ face ∈ r.faces.faces, face.queue ≠ [] → face.pacer.ready now = false) :
    r.drainReady now = ([], r) := by
  have hpopped : r.faces.faces.map (·.popReady now) = r.faces.faces.map fun face => (none, face) := by
    apply List.map_congr_left
    intro face hface
    by_cases hqueue : face.queue = []
    · exact Face.popReady_of_empty hqueue now
    · exact Face.popReady_of_not_ready (h face hface hqueue)
  unfold drainReady FaceTable.popReady
  rw [hpopped]
  simp [Function.comp_def]

private theorem drainAll_of_held
    (h : ∀ face ∈ r.faces.faces, face.queue ≠ [] → face.pacer.ready now = false) :
    r.drainAll now = ([], r) := by
  have hround := drainReady_of_held h
  rw [drainAll]
  split
  · next heq =>
    rw [hround] at heq
    cases heq
    rfl
  · next heq =>
    rw [hround] at heq
    cases heq

/-- If a round releases nothing, pacing holds back all that is queued. -/
theorem held_of_drainReady (h : (r.drainReady now).1 = []) :
    ∀ face ∈ r.faces.faces, face.queue ≠ [] → face.pacer.ready now = false := by
  intro face hface hqueue
  have hreleased : (r.faces.faces.map (·.popReady now)).filterMap (·.1) = [] := h
  have hnone : (face.popReady now).1 = none :=
    List.filterMap_eq_nil_iff.mp hreleased _ (List.mem_map_of_mem hface)
  rcases Face.of_popReady_eq_none hnone with hempty | hheld
  · exact absurd hempty hqueue
  · exact hheld

/-- The rounds come to an end: a round that releases nothing is the last, each other one takes a packet at
least, and all that is taken was queued. -/
theorem drainReady_drainAll (r : Relay) (now : Nat) :
    ((r.drainAll now).2.drainReady now).1 = [] ∧
      (r.drainAll now).1.length ≤ (r.drainAll now).1.flatten.length ∧
      (r.drainAll now).2.faces.queued + (r.drainAll now).1.flatten.length = r.faces.queued := by
  fun_induction drainAll r now with
  | case1 r r' heq =>
    have hsame : r' = r := by
      have hheld := drainReady_of_held (held_of_drainReady (congrArg Prod.fst heq))
      rw [hheld] at heq
      exact (congrArg Prod.snd heq).symm
    refine ⟨?_, Nat.le_refl _, by rw [hsame]; rfl⟩
    rw [hsame]
    exact congrArg Prod.fst heq
  | case2 r outbound round r' heq _ rounds r'' heq' ih =>
    rw [heq'] at ih
    obtain ⟨hlast, hrounds, hqueued⟩ := ih
    have hround := r.queued_drainReady now
    rw [heq] at hround
    dsimp only at hrounds hqueued hround ⊢
    rw [List.length_cons] at hround
    rw [List.flatten_cons, List.length_append, List.length_cons, List.length_cons]
    refine ⟨hlast, by omega, by omega⟩

/-- A packet is released if pacing allows one. -/
theorem queued_drainAll_lt {face : Face} (hface : face ∈ r.faces.faces) (hqueue : face.queue ≠ [])
    (hready : face.pacer.ready now = true) :
    (r.drainAll now).2.faces.queued < r.faces.queued := by
  have hround : (r.drainReady now).1 ≠ [] := by
    intro hnone
    have hheld := held_of_drainReady hnone face hface hqueue
    rw [hready] at hheld
    cases hheld
  have hqueued := r.queued_drainReady now
  rw [drainAll]
  split
  · next heq =>
    rw [heq] at hround
    exact absurd rfl hround
  · next r' heq =>
    rw [heq] at hqueued
    have hrest := (drainReady_drainAll r' now).2.2
    simp only [List.length_cons] at hqueued
    dsimp only
    omega

end Relay

namespace Interface

/-- A socket keeps what pacing holds back. -/
theorem ready_of_release {now : Nat} {pacer : Pacer} {backlog : List Datagram}
    (h : (release now pacer backlog).2.2 ≠ []) : (release now pacer backlog).2.1.ready now = false := by
  induction backlog generalizing pacer with
  | nil => exact absurd rfl h
  | cons datagram backlog ih =>
    unfold release at h ⊢
    split at h
    · next hready =>
      rw [if_pos hready]
      exact ih h
    · next hready =>
      rw [if_neg hready]
      simpa using hready

private theorem flush_of_held {interface : Interface} {now : Nat}
    (h : interface.backlog ≠ [] → interface.pacer.ready now = false) :
    interface.flush now = ([], interface) := by
  unfold flush
  cases hbacklog : interface.backlog with
  | nil =>
    rw [release, ← hbacklog]
  | cons datagram backlog =>
    rw [release, if_neg (by simp [h (by simp [hbacklog])]), ← hbacklog]

/-- The first datagram is sent once pacing allows it. -/
theorem mem_flush {interface : Interface} {now : Nat} {datagram : Datagram} {backlog : List Datagram}
    (hbacklog : interface.backlog = datagram :: backlog) (hready : interface.pacer.ready now = true) :
    datagram ∈ (interface.flush now).1 := by
  unfold flush
  rw [hbacklog, release, if_pos hready]
  exact List.mem_cons_self

end Interface

namespace Daemon

section Encoding

variable (encode : Packet → Except WireError Bytes)

/-- Let the datagram of a packet wait on the socket of its face, if it can be encoded. -/
def queueEncoded (interfaces : List Interface) (o : Outbound) : List Interface :=
  match encode o.packet with
  | .error _ => interfaces
  | .ok bytes => interfaces.modify o.interface (·.queue ⟨o.peer, bytes⟩)

/-- Move the packets that pacing releases from the faces to the sockets. -/
def collectEncoded (d : Daemon) (now : Nat) : Daemon :=
  { d with
    relay := (d.relay.drainAll now).2
    interfaces := (d.relay.drainAll now).1.flatten.foldl (queueEncoded encode) d.interfaces }

/-- Send what pacing allows at an instant. -/
def transmitEncoded (d : Daemon) (now : Nat) : List Transmission × Daemon :=
  ((flushAll now (d.collectEncoded encode now).interfaces).1,
    { d.collectEncoded encode now with
      interfaces := (flushAll now (d.collectEncoded encode now).interfaces).2 })

end Encoding

/-- What a daemon sends is what its format encodes. -/
theorem transmit_eq (d : Daemon) (now : Nat) :
    d.transmit now = d.transmitEncoded d.format.encode now := rfl

variable {d : Daemon} {now : Nat} {encode : Packet → Except WireError Bytes}

private theorem mem_flushAll {interfaces : List Interface} {interface : Interface}
    (h : interface ∈ (flushAll now interfaces).2) :
    ∃ before ∈ interfaces, interface = (before.flush now).2 := by
  obtain ⟨i, hi⟩ := List.mem_iff_getElem?.mp h
  rw [getElem?_flushAll] at hi
  obtain ⟨before, hbefore, rfl⟩ := Option.map_eq_some_iff.mp hi
  exact ⟨before, List.mem_of_getElem? hbefore, rfl⟩

private theorem flushAll_of_held {interfaces : List Interface}
    (h : ∀ interface ∈ interfaces, interface.backlog ≠ [] → interface.pacer.ready now = false) :
    flushAll now interfaces = ([], interfaces) := by
  induction interfaces with
  | nil => rfl
  | cons interface rest ih =>
    obtain ⟨hfirst, hrest⟩ := List.forall_mem_cons.mp h
    unfold flushAll
    rw [Interface.flush_of_held hfirst, ih hrest]
    rfl

/-- What a socket sends is among all that is sent. -/
theorem mem_sent_flushAll {interfaces : List Interface} {interface : Interface}
    (h : interface ∈ interfaces) {datagram : Datagram} (hsent : datagram ∈ (interface.flush now).1) :
    ⟨interface.index, datagram⟩ ∈ (flushAll now interfaces).1 := by
  induction interfaces with
  | nil => exact absurd h List.not_mem_nil
  | cons head rest ih =>
    rcases List.mem_cons.mp h with rfl | h
    · exact List.mem_append_left _ (List.mem_map_of_mem hsent)
    · exact List.mem_append_right _ (ih h)

/-- Packets that are handed to a socket come after the datagrams that it has. -/
theorem exists_foldl_queueEncoded (encode : Packet → Except WireError Bytes) (os : List Outbound)
    {interfaces : List Interface} {interface : Interface} (h : interface ∈ interfaces) :
    ∃ handed, { interface with backlog := interface.backlog ++ handed } ∈
      os.foldl (queueEncoded encode) interfaces := by
  induction os generalizing interfaces interface with
  | nil => exact ⟨[], by simpa using h⟩
  | cons o os ih =>
    have hqueued : ∃ handed, { interface with backlog := interface.backlog ++ handed } ∈
        queueEncoded encode interfaces o := by
      unfold queueEncoded
      split
      · exact ⟨[], by simpa using h⟩
      · next bytes _ =>
        obtain ⟨i, hi⟩ := List.mem_iff_getElem?.mp h
        have hmodified := List.getElem?_modify (·.queue ⟨o.peer, bytes⟩) o.interface interfaces i
        rw [hi] at hmodified
        by_cases hsame : o.interface = i
        · refine ⟨[⟨o.peer, bytes⟩], List.mem_of_getElem? (hmodified.trans ?_)⟩
          simp [hsame, Interface.queue]
        · refine ⟨[], List.mem_of_getElem? (hmodified.trans ?_)⟩
          simp [hsame]
    obtain ⟨handed, hmem⟩ := hqueued
    obtain ⟨handed', hmem'⟩ := ih hmem
    refine ⟨handed ++ handed', ?_⟩
    rw [← List.append_assoc]
    exact hmem'

/-- Whether something is queued at a face or at a socket. -/
def HasPending (d : Daemon) : Prop :=
  d.relay.faces.hasPending = true ∨ ∃ interface ∈ d.interfaces, interface.hasBacklog = true

/-- Whether pacing holds back all that is queued. -/
structure Held (d : Daemon) (now : Nat) : Prop where
  faces : ∀ face ∈ d.relay.faces.faces, face.queue ≠ [] → face.pacer.ready now = false
  interfaces : ∀ interface ∈ d.interfaces, interface.backlog ≠ [] →
    interface.pacer.ready now = false

/-- The pacers that something queued waits for. -/
def holding (d : Daemon) : List Pacer :=
  (d.interfaces.filter (·.hasBacklog)).map (·.pacer) ++
    (d.relay.faces.faces.filter fun face => !face.queue.isEmpty).map (·.pacer)

private theorem mem_holding {pacer : Pacer} :
    pacer ∈ d.holding ↔
      (∃ interface ∈ d.interfaces, interface.backlog ≠ [] ∧ interface.pacer = pacer) ∨
        ∃ face ∈ d.relay.faces.faces, face.queue ≠ [] ∧ face.pacer = pacer := by
  simp only [holding, List.mem_append, List.mem_map, List.mem_filter, Interface.hasBacklog,
    Bool.not_eq_true', List.isEmpty_eq_false_iff, and_assoc]

private theorem hasPending_iff : d.HasPending ↔ ∃ pacer, pacer ∈ d.holding := by
  have hfaces : d.relay.faces.hasPending = true ↔
      ∃ face ∈ d.relay.faces.faces, face.queue ≠ [] := by
    simp [FaceTable.hasPending]
  have hinterfaces : (∃ interface ∈ d.interfaces, interface.hasBacklog = true) ↔
      ∃ interface ∈ d.interfaces, interface.backlog ≠ [] := by
    simp [Interface.hasBacklog]
  rw [HasPending, hfaces, hinterfaces]
  constructor
  · rintro (⟨face, hface, hqueue⟩ | ⟨interface, hinterface, hbacklog⟩)
    · exact ⟨_, mem_holding.mpr (.inr ⟨face, hface, hqueue, rfl⟩)⟩
    · exact ⟨_, mem_holding.mpr (.inl ⟨interface, hinterface, hbacklog, rfl⟩)⟩
  · rintro ⟨pacer, hpacer⟩
    rcases mem_holding.mp hpacer with ⟨interface, hinterface, hbacklog, -⟩ | ⟨face, hface, hqueue, -⟩
    · exact .inr ⟨interface, hinterface, hbacklog⟩
    · exact .inl ⟨face, hface, hqueue⟩

private theorem held_iff : d.Held now ↔ ∀ pacer ∈ d.holding, pacer.ready now = false := by
  constructor
  · intro h pacer hpacer
    rcases mem_holding.mp hpacer with ⟨interface, hinterface, hbacklog, rfl⟩ | ⟨face, hface, hqueue, rfl⟩
    · exact h.interfaces interface hinterface hbacklog
    · exact h.faces face hface hqueue
  · intro h
    constructor
    · intro face hface hqueue
      exact h _ (mem_holding.mpr (.inr ⟨face, hface, hqueue, rfl⟩))
    · intro interface hinterface hbacklog
      exact h _ (mem_holding.mpr (.inl ⟨interface, hinterface, hbacklog, rfl⟩))

/-- The least of some numbers may stand for them. -/
private theorem min?_append_min? (xs ys : List Nat) :
    (xs ++ ys.min?.toList).min? = (xs ++ ys).min? := by
  cases hys : ys.min? with
  | none =>
    rw [List.min?_eq_none_iff.mp hys]
    rfl
  | some y =>
    obtain ⟨hy, hleast⟩ := List.min?_eq_some_iff.mp hys
    cases hall : (xs ++ ys).min? with
    | none =>
      rw [List.min?_eq_none_iff, List.append_eq_nil_iff] at hall
      rw [hall.2] at hy
      exact absurd hy List.not_mem_nil
    | some z =>
      obtain ⟨hz, hle⟩ := List.min?_eq_some_iff.mp hall
      refine List.min?_eq_some_iff.mpr ⟨?_, ?_⟩
      · rcases List.mem_append.mp hz with hz | hz
        · exact List.mem_append_left _ hz
        · have hsame : z = y := Nat.le_antisymm (hle y (List.mem_append_right _ hy)) (hleast z hz)
          rw [hsame]
          exact List.mem_append_right _ (List.mem_singleton_self y)
      · intro x hx
        rcases List.mem_append.mp hx with hx | hx
        · exact hle x (List.mem_append_left _ hx)
        · rw [List.mem_singleton.mp hx]
          exact hle y (List.mem_append_right _ hy)

/-- The daemon wakes up at the first slot that something queued waits for. -/
theorem nextWakeup_eq (d : Daemon) : d.nextWakeup = (d.holding.filterMap (·.nextSlot)).min? := by
  have hinterfaces : d.interfaces.filterMap (·.nextSlot) =
      ((d.interfaces.filter (·.hasBacklog)).map (·.pacer)).filterMap (·.nextSlot) := by
    rw [List.filterMap_map, List.filterMap_filter]
    rfl
  have hfaces : (d.relay.faces.faces.filter fun face => !face.queue.isEmpty).filterMap
        (·.pacer.nextSlot) =
      ((d.relay.faces.faces.filter fun face => !face.queue.isEmpty).map (·.pacer)).filterMap
        (·.nextSlot) := by
    rw [List.filterMap_map]
    rfl
  rw [nextWakeup, FaceTable.nextDeadline, min?_append_min?, hinterfaces, hfaces, holding,
    List.filterMap_append]

private theorem nextWakeup_eq_some_iff {w : Nat} :
    d.nextWakeup = some w ↔
      (∃ pacer ∈ d.holding, pacer.nextSlot = some w) ∧
        ∀ pacer ∈ d.holding, ∀ slot, pacer.nextSlot = some slot → w ≤ slot := by
  rw [nextWakeup_eq, List.min?_eq_some_iff, List.mem_filterMap]
  apply and_congr_right
  intro _
  constructor
  · intro h pacer hpacer slot hslot
    exact h slot (List.mem_filterMap.mpr ⟨pacer, hpacer, hslot⟩)
  · intro h slot hslot
    obtain ⟨pacer, hpacer, heq⟩ := List.mem_filterMap.mp hslot
    exact h pacer hpacer slot heq

/-- If pacing holds something back, the daemon wakes up later. -/
theorem Held.exists_nextWakeup (h : d.Held now) (hpending : d.HasPending) :
    ∃ w, d.nextWakeup = some w ∧ now < w := by
  obtain ⟨pacer, hpacer⟩ := hasPending_iff.mp hpending
  obtain ⟨slot, hslot, -⟩ := Pacer.exists_slot_of_not_ready (held_iff.mp h pacer hpacer)
  cases hwakeup : d.nextWakeup with
  | none =>
    rw [nextWakeup_eq, List.min?_eq_none_iff, List.filterMap_eq_nil_iff] at hwakeup
    rw [hwakeup pacer hpacer] at hslot
    cases hslot
  | some w =>
    obtain ⟨⟨first, hfirst, hw⟩, -⟩ := nextWakeup_eq_some_iff.mp hwakeup
    obtain ⟨slot', hslot', hlater⟩ := Pacer.exists_slot_of_not_ready (held_iff.mp h first hfirst)
    rw [hw] at hslot'
    cases hslot'
    exact ⟨w, rfl, hlater⟩

/-- Pacing goes on holding back what is queued until the daemon wakes up. -/
theorem Held.of_lt (h : d.Held now) {w t : Nat} (hwakeup : d.nextWakeup = some w) (ht : t < w) :
    d.Held t := by
  obtain ⟨-, hleast⟩ := nextWakeup_eq_some_iff.mp hwakeup
  refine held_iff.mpr fun pacer hpacer => ?_
  obtain ⟨slot, hslot, -⟩ := Pacer.exists_slot_of_not_ready (held_iff.mp h pacer hpacer)
  have hle := hleast pacer hpacer slot hslot
  rw [Pacer.ready_of_nextSlot hslot]
  exact decide_eq_false (by omega)

/-- Nothing is sent while pacing holds back all that is queued. -/
theorem Held.transmitEncoded (h : d.Held now) (encode : Packet → Except WireError Bytes) :
    d.relay.drainAll now = ([], d.relay) ∧ d.transmitEncoded encode now = ([], d) := by
  have hdrained := Relay.drainAll_of_held h.faces
  refine ⟨hdrained, ?_⟩
  unfold Daemon.transmitEncoded collectEncoded
  rw [hdrained]
  dsimp only [List.flatten_nil, List.foldl_nil]
  rw [flushAll_of_held h.interfaces]

/-- When packets are sent, all go that pacing allows. -/
theorem held_transmitEncoded (encode : Packet → Except WireError Bytes) (d : Daemon) (now : Nat) :
    (d.transmitEncoded encode now).2.Held now := by
  constructor
  · exact Relay.held_of_drainReady (d.relay.drainReady_drainAll now).1
  · intro interface hinterface hbacklog
    obtain ⟨before, -, rfl⟩ := mem_flushAll hinterface
    exact Interface.ready_of_release hbacklog

/-- Something is sent, or goes from a face to a socket, once the slot has come that it waits for. -/
theorem released_of_slot {w : Nat} {pacer : Pacer} (hpacer : pacer ∈ d.holding)
    (hslot : pacer.nextSlot = some w) (encode : Packet → Except WireError Bytes) :
    (d.transmitEncoded encode w).2.relay.faces.queued < d.relay.faces.queued ∨
      ∃ interface ∈ d.interfaces, ∃ datagram, interface.backlog.head? = some datagram ∧
        ⟨interface.index, datagram⟩ ∈ (d.transmitEncoded encode w).1 := by
  have hready : pacer.ready w = true := by
    rw [Pacer.ready_of_nextSlot hslot]
    exact decide_eq_true (Nat.le_refl w)
  rcases mem_holding.mp hpacer with ⟨interface, hinterface, hbacklog, rfl⟩ | ⟨face, hface, hqueue, rfl⟩
  · right
    obtain ⟨datagram, backlog, hsplit⟩ := List.exists_cons_of_ne_nil hbacklog
    refine ⟨interface, hinterface, datagram, by rw [hsplit]; rfl, ?_⟩
    obtain ⟨handed, hhanded⟩ :=
      exists_foldl_queueEncoded encode (d.relay.drainAll w).1.flatten hinterface
    have hfirst : interface.backlog ++ handed = datagram :: (backlog ++ handed) := by
      rw [hsplit, List.cons_append]
    exact mem_sent_flushAll hhanded (Interface.mem_flush hfirst hready)
  · left
    have hless := Relay.queued_drainAll_lt hface hqueue hready
    exact hless

/-- Whether a daemon that has sent packets at an instant wakes up in time for what is left. -/
structure Wakes (d : Daemon) (now : Nat) : Prop where
  /-- Nothing is released before it wakes up, and a packet leaves a face or a socket then. -/
  pending : d.HasPending → ∃ w, d.nextWakeup = some w ∧ now < w ∧
    ∀ encode : Packet → Except WireError Bytes,
      (∀ t, now ≤ t → t < w →
        d.relay.drainAll t = ([], d.relay) ∧ d.transmitEncoded encode t = ([], d)) ∧
      ((d.transmitEncoded encode w).2.relay.faces.queued < d.relay.faces.queued ∨
        ∃ interface ∈ d.interfaces, ∃ datagram, interface.backlog.head? = some datagram ∧
          ⟨interface.index, datagram⟩ ∈ (d.transmitEncoded encode w).1)
  nothing : ¬ d.HasPending → d.nextWakeup = none

private theorem Held.wakes (h : d.Held now) : d.Wakes now := by
  constructor
  · intro hpending
    obtain ⟨w, hwakeup, hlater⟩ := h.exists_nextWakeup hpending
    obtain ⟨⟨pacer, hpacer, hslot⟩, -⟩ := nextWakeup_eq_some_iff.mp hwakeup
    refine ⟨w, hwakeup, hlater, fun encode => ⟨fun t _ ht => ?_, ?_⟩⟩
    · exact (h.of_lt hwakeup ht).transmitEncoded encode
    · exact released_of_slot hpacer hslot encode
  · intro hnothing
    cases hwakeup : d.nextWakeup with
    | none => rfl
    | some w =>
      obtain ⟨⟨pacer, hpacer, -⟩, -⟩ := nextWakeup_eq_some_iff.mp hwakeup
      exact absurd (hasPending_iff.mpr ⟨pacer, hpacer⟩) hnothing

/-- In whatever state faces and sockets are when packets are sent, the rounds in which faces release them
come to an end, and the daemon wakes up in time for what is left, whichever packets can be encoded. -/
theorem wakes_transmit (d : Daemon) (now : Nat) :
    ((d.relay.drainAll now).2.drainReady now).1 = [] ∧
      (d.relay.drainAll now).1.length ≤ d.relay.faces.queued ∧
      d.transmit now = d.transmitEncoded d.format.encode now ∧
      ∀ encode : Packet → Except WireError Bytes, (d.transmitEncoded encode now).2.Wakes now := by
  obtain ⟨hlast, hrounds, hqueued⟩ := d.relay.drainReady_drainAll now
  refine ⟨hlast, by omega, d.transmit_eq now, fun encode => ?_⟩
  exact (held_transmitEncoded encode d now).wakes

end Daemon

end NamedFunctions
