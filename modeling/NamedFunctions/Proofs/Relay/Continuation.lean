import Mathlib.Data.List.Pairwise
import Mathlib.Logic.ExistsUnique
import NamedFunctions.Proofs.Relay.Upkeep

/-!
# Suspended computations and their requests

Every suspended computation waits in exactly one pending Interest, which asks for the data that the
computation needs, and pending Interests know of no other computations. While data is handed out this
holds up to the computations on the agenda: they are suspended, but wait nowhere any more.
-/

open scoped List

namespace NamedFunctions

/-- A nonce makes no difference to what an Interest asks for. -/
theorem Interest.asksSame_withNonce (interest : Interest) (nonce : UInt32) :
    (interest.withNonce nonce).asksSame interest = true := by
  simp [asksSame, withNonce, Name.agrees]

/-- Whether a pending Interest asks for the data that a computation needs. -/
def PendingEntry.Supplies (e : PendingEntry) (c : Computation) : Prop :=
  ∃ name, c.awaiting = some name ∧ e.interest.asksSame (.ofName name) = true

namespace Relay

/-- Suspended computations are those on the agenda and those that wait in pending Interests, each once,
and it is the Interests that they need. -/
structure Linked (r : Relay) (agenda : List ComputationId) : Prop where
  wellFormed : r.pending.WellFormed
  nodup : r.computations.ids.Nodup
  below : ∀ id ∈ r.computations.ids, id.val < r.computations.nextId
  matched : (agenda ++ r.pending.waiting).Perm r.computations.ids
  supplied : ∀ e ∈ r.pending.entries, ∀ c ∈ r.computations.suspended, c.id ∈ e.computations →
    e.Supplies c

namespace Linked

variable {r r' : Relay} {agenda agenda' : List ComputationId}

/-- A computation that waits somewhere is suspended. -/
theorem mem_ids (h : Linked r agenda) {e : PendingEntry} (he : e ∈ r.pending.entries)
    {id : ComputationId} (hid : id ∈ e.computations) : id ∈ r.computations.ids :=
  h.matched.subset (List.mem_append_right agenda (PendingTable.mem_waiting.mpr ⟨e, he, hid⟩))

/-- A relay is linked if nothing waits in it. -/
theorem empty (hpending : r.pending = {}) (hsuspended : r.computations.suspended = []) :
    Linked r [] := by
  have hids : r.computations.ids = [] := by rw [ComputationTable.ids, hsuspended, List.map_nil]
  constructor
  · exact hpending ▸ .empty
  · exact hids ▸ List.nodup_nil
  · exact fun id hid => absurd (hids ▸ hid) List.not_mem_nil
  · rw [hids, hpending]
    exact .nil
  · rw [hpending]
    exact fun _ h => absurd h List.not_mem_nil

/-- Pending Interests may change as long as the same computations wait for the same data, or are on the
agenda instead. -/
theorem rework (h : Linked r agenda) (hcomputations : r'.computations = r.computations)
    (hwellFormed : r'.pending.WellFormed)
    (hmatched : (agenda' ++ r'.pending.waiting).Perm (agenda ++ r.pending.waiting))
    (hentries : ∀ e' ∈ r'.pending.entries, ∀ id ∈ e'.computations,
      ∃ e ∈ r.pending.entries, id ∈ e.computations ∧ e.interest = e'.interest) :
    Linked r' agenda' := by
  refine ⟨hwellFormed, hcomputations ▸ h.nodup, hcomputations ▸ h.below, ?_, ?_⟩
  · rw [hcomputations]
    exact hmatched.trans h.matched
  · intro e' he' c hc hid
    rw [hcomputations] at hc
    obtain ⟨e, he, hide, hinterest⟩ := hentries e' he' c.id hid
    obtain ⟨name, hawaiting, hsame⟩ := h.supplied e he c hc hide
    exact ⟨name, hawaiting, hinterest ▸ hsame⟩

/-- What touches neither pending Interests nor computations keeps them linked. -/
theorem aside (h : Linked r agenda) (hpending : r'.pending = r.pending)
    (hcomputations : r'.computations = r.computations) : Linked r' agenda := by
  refine h.rework hcomputations (hpending ▸ h.wellFormed) (hpending ▸ .refl _) ?_
  intro e he id hid
  exact ⟨e, hpending ▸ he, hid, rfl⟩

/-- Computations may be discarded as long as they no longer wait anywhere. -/
theorem discard (h : Linked r agenda) {gone : List ComputationId}
    (hsuspended : r'.computations.suspended = r.computations.suspended.filter (·.id ∉ gone))
    (hnext : r.computations.nextId ≤ r'.computations.nextId)
    (hwellFormed : r'.pending.WellFormed)
    (hmatched : (agenda ++ r.pending.waiting).Perm (gone ++ (agenda' ++ r'.pending.waiting)))
    (hentries : r'.pending.entries ⊆ r.pending.entries) : Linked r' agenda' := by
  have hids : r'.computations.ids = r.computations.ids.filter (· ∉ gone) := by
    rw [ComputationTable.ids, hsuspended, ComputationTable.ids, List.filter_map]
    rfl
  have hperm : (gone ++ (agenda' ++ r'.pending.waiting)).Perm r.computations.ids :=
    hmatched.symm.trans h.matched
  have hdisjoint := (List.nodup_append.mp (hperm.nodup_iff.mpr h.nodup)).2.2
  refine ⟨hwellFormed, ?_, ?_, ?_, ?_⟩
  · rw [hids]
    exact h.nodup.filter _
  · intro id hid
    rw [hids] at hid
    exact Nat.lt_of_lt_of_le (h.below id (List.mem_of_mem_filter hid)) hnext
  · have hgone : gone.filter (· ∉ gone) = [] := by
      apply List.filter_eq_nil_iff.mpr
      intro id hid
      simpa using hid
    have hkept : (agenda' ++ r'.pending.waiting).filter (· ∉ gone) =
        agenda' ++ r'.pending.waiting := by
      apply List.filter_eq_self.mpr
      intro id hid
      have : id ∉ gone := fun hmem => hdisjoint id hmem id hid rfl
      simpa using this
    have := hperm.filter (· ∉ gone)
    rw [List.filter_append, hgone, hkept, List.nil_append] at this
    rw [hids]
    exact this
  · intro e he c hc hid
    rw [hsuspended] at hc
    exact h.supplied e (hentries he) c (List.mem_of_mem_filter hc) hid

/-- A computation may be suspended as long as it comes to wait for the data that it needs. -/
theorem suspend (h : Linked r agenda) {c : Computation} (hnew : c.id ∉ r.computations.ids)
    (hbelow : c.id.val < r.computations.nextId)
    (hcomputations : r'.computations = r.computations.insert c)
    (hwellFormed : r'.pending.WellFormed)
    (hwaiting : r'.pending.waiting.Perm (c.id :: r.pending.waiting))
    (hentries : ∀ e' ∈ r'.pending.entries, ∀ id ∈ e'.computations, id = c.id ∧ e'.Supplies c ∨
      ∃ e ∈ r.pending.entries, id ∈ e.computations ∧ e.interest = e'.interest) :
    Linked r' agenda := by
  have hids : r'.computations.ids.Perm (c.id :: r.computations.ids) := by
    rw [hcomputations]
    exact ComputationTable.ids_insert hnew
  refine ⟨hwellFormed, ?_, ?_, ?_, ?_⟩
  · rw [hids.nodup_iff]
    exact List.nodup_cons.mpr ⟨hnew, h.nodup⟩
  · intro id hid
    rw [hcomputations]
    rcases List.mem_cons.mp (hids.subset hid) with rfl | hid
    · exact hbelow
    · exact h.below id hid
  · calc agenda ++ r'.pending.waiting
      _ ~ agenda ++ c.id :: r.pending.waiting := hwaiting.append_left agenda
      _ ~ c.id :: (agenda ++ r.pending.waiting) := List.perm_middle
      _ ~ c.id :: r.computations.ids := h.matched.cons c.id
      _ ~ r'.computations.ids := hids.symm
  · intro e' he' c' hc' hid
    rw [hcomputations] at hc'
    have hmem := (ComputationTable.suspended_insert hnew).subset hc'
    rcases hentries e' he' c'.id hid with ⟨heq, hsupplies⟩ | ⟨e, he, hide, hinterest⟩
    · rcases List.mem_cons.mp hmem with rfl | hold
      · exact hsupplies
      · exact absurd (heq ▸ ComputationTable.mem_ids.mpr ⟨c', hold, rfl⟩) hnew
    · have hold := h.mem_ids he hide
      rcases List.mem_cons.mp hmem with rfl | hmem
      · exact absurd hold hnew
      · obtain ⟨name, hawaiting, hsame⟩ := h.supplied e he c' hmem hide
        exact ⟨name, hawaiting, hinterest ▸ hsame⟩

/-- The first computation on the agenda may be taken out of the table. -/
theorem take {id : ComputationId} (h : Linked r (id :: agenda)) :
    Linked { r with computations := r.computations.erase id } agenda := by
  have hsuspended : r.computations.suspended.filter (·.id != id) =
      r.computations.suspended.filter (·.id ∉ [id]) := by
    apply List.filter_congr
    intro c _
    by_cases hc : c.id = id
    · simp [hc]
    · simp [hc]
  exact h.discard hsuspended (Nat.le_refl _) h.wellFormed (.refl _) fun _ he => he

/-- The next number may be given out. -/
theorem create (h : Linked r agenda) :
    Linked
      { r with computations := { r.computations with nextId := r.computations.nextId + 1 } }
      agenda := by
  have hsuspended : r.computations.suspended = r.computations.suspended.filter (·.id ∉ []) := by
    simp
  exact h.discard hsuspended (Nat.le_succ _) h.wellFormed (.refl _) fun _ he => he

/-- A pending Interest may be taken back at once. -/
theorem withdraw (h : Linked r agenda) (interest : Interest) (requester : Requester) :
    Linked
      { r with
        pending := (r.pending.insert interest requester r.clock).2.erase
          (r.pending.insert interest requester r.clock).1 } agenda := by
  have hentries := h.wellFormed.entries_erase_insert interest requester r.clock
  refine h.rework rfl ((h.wellFormed.insert interest requester r.clock).filter _) ?_ ?_
  · rw [PendingTable.waiting, hentries]
    rfl
  · intro e he id hid
    rw [hentries] at he
    exact ⟨e, he, hid, rfl⟩

/-- A computation that is not suspended may be taken further. -/
theorem carried (h : Linked r agenda) {id : ComputationId} {outcome : Except RelayError Settled}
    (hnew : id ∉ r.computations.ids) (hbelow : id.val < r.computations.nextId)
    (hcarried : Carried r id outcome r') : Linked r' agenda := by
  cases hcarried with
  | stopped store stats => exact h.aside rfl rfl
  | @joined store stats c name entry hid hawaiting hsame =>
    subst hid
    obtain ⟨e, he, rfl, hesame⟩ := PendingTable.mem_of_findSame hsame
    have hnot : c.id ∉ r.pending.waiting := fun hmem =>
      hnew (h.matched.subset (List.mem_append_right agenda hmem))
    refine h.suspend hnew hbelow rfl (h.wellFormed.modify e.id fun _ => rfl)
      (PendingTable.waiting_addRequester_computation h.wellFormed he hnot r.clock) ?_
    intro e' he' id hid
    obtain ⟨e₀, he₀, rfl⟩ := List.mem_map.mp he'
    split at hid
    · next heq =>
      obtain rfl := h.wellFormed.eq_of_id he₀ he heq
      rw [if_pos heq]
      rcases PendingEntry.hasRequester_join.mp (PendingEntry.hasRequester_computation.mpr hid) with
        hnow | hbefore
      · cases hnow
        exact .inl ⟨rfl, name, hawaiting, hesame⟩
      · exact .inr ⟨e₀, he₀, PendingEntry.hasRequester_computation.mp hbefore, rfl⟩
    · next hne =>
      rw [if_neg hne]
      exact .inr ⟨e₀, he₀, hid, rfl⟩
  | @issued store stats source nonces faces c name nonce hid hawaiting hnone =>
    subst hid
    refine h.suspend hnew hbelow rfl (h.wellFormed.insert _ (.computation c.id) r.clock) ?_ ?_
    · rw [PendingTable.waiting_insert_computation]
      exact List.perm_append_singleton c.id r.pending.waiting
    · intro e' he' id hid
      rcases List.mem_append.mp he' with he' | he'
      · exact .inr ⟨e', he', hid, rfl⟩
      · obtain rfl := List.mem_singleton.mp he'
        obtain rfl := List.mem_singleton.mp hid
        exact .inl ⟨rfl, name, hawaiting, Interest.asksSame_withNonce (.ofName name) nonce⟩
  | stranded error store stats source nonces faces interest =>
    exact (h.withdraw interest (.computation id)).aside rfl rfl

/-- Those who wait for some data are noted in the order of their requests, each once. -/
theorem waiting_serve (h : Linked r agenda) (content : Content) :
    (r.serve content (r.pending.takeAnswered content).1).1.2 =
        (r.pending.takeAnswered content).1.flatMap (·.computations) ∧
      ((r.pending.takeAnswered content).1.flatMap (·.computations)).Nodup := by
  have hnodup := (List.nodup_append.mp (h.matched.nodup_iff.mpr h.nodup)).2.1
  rw [(r.pending.waiting_takeAnswered content).nodup_iff] at hnodup
  have hanswered := (List.nodup_append.mp hnodup).1
  exact ⟨r.waiting_serve content hanswered, hanswered⟩

/-- Data that is delivered puts those on the agenda that wait for it. -/
theorem deliver (h : Linked r agenda) (content : Content) :
    Linked
      { r with
        pending := (r.pending.takeAnswered content).2
        faces := (r.serve content (r.pending.takeAnswered content).1).2.faces }
      ((r.serve content (r.pending.takeAnswered content).1).1.2 ++ agenda) := by
  have hwaiting := r.pending.waiting_takeAnswered content
  rw [(h.waiting_serve content).1]
  refine h.rework rfl (h.wellFormed.filter _) ?_ ?_
  · rw [List.append_assoc]
    calc _ ++ (agenda ++ _)
      _ ~ agenda ++ (_ ++ _) := List.perm_append_comm_assoc _ _ _
      _ ~ agenda ++ r.pending.waiting := hwaiting.symm.append_left agenda
  · intro e he id hid
    exact ⟨e, List.mem_of_mem_filter he, hid, rfl⟩

/-- A pending Interest may be changed in other ways than by computations. -/
theorem modify (h : Linked r agenda) (entry : PendingId) {change : PendingEntry → PendingEntry}
    (hid : ∀ e, (change e).id = e.id) (hcomputations : ∀ e, (change e).computations = e.computations)
    (hinterest : ∀ e, (change e).interest = e.interest) :
    Linked { r with pending := r.pending.modify entry change } agenda := by
  refine h.rework rfl (h.wellFormed.modify entry hid) ?_ ?_
  · rw [PendingTable.waiting_modify _ _ hcomputations]
  · intro e' he' id hmem
    obtain ⟨e, he, rfl⟩ := List.mem_map.mp he'
    refine ⟨e, he, ?_, ?_⟩
    · split at hmem
      · rwa [hcomputations] at hmem
      · exact hmem
    · split
      · rw [hinterest]
      · rfl

/-- Each step keeps computations and requests together. -/
theorem step {events : List Event} (h : Linked r agenda)
    (hstep : Step r agenda events r' agenda') : Linked r' agenda' := by
  cases hstep with
  | aside hpending hcomputations => exact h.aside hpending hcomputations
  | @ask _ source interest =>
    refine h.rework rfl (h.wellFormed.insert interest (.face source) r.clock) ?_ ?_
    · rw [PendingTable.waiting_insert_face]
    · intro e he id hid
      rcases List.mem_append.mp he with he | he
      · exact ⟨e, he, hid, rfl⟩
      · obtain rfl := List.mem_singleton.mp he
        exact absurd hid List.not_mem_nil
  | @join _ source entry nonce =>
    exact h.modify entry (fun _ => rfl) (fun e => e.computations_join_face source nonce r.clock)
      fun _ => rfl
  | withdraw source interest => exact h.withdraw interest (.face source)
  | answer source interest content =>
    exact h.aside (pending_send r source _) (computations_send r source _)
  | deliver content => exact h.deliver content
  | @resume _ _ id c _ payload hc hcarried =>
    have hid := ComputationTable.exists_get?_iff.mp ⟨c, hc⟩
    have hnew : id ∉ (r.computations.erase id).ids := by
      rw [ComputationTable.ids_erase]
      simp
    exact h.take.carried hnew (h.below id hid) hcarried
  | @miss _ id payload hnone =>
    have hid := h.matched.subset List.mem_cons_self
    obtain ⟨c, hc⟩ := ComputationTable.exists_get?_iff.mpr hid
    rw [hnone] at hc
    cases hc
  | begin hcarried =>
    have hnew : (⟨r.computations.nextId⟩ : ComputationId) ∉ r.computations.ids :=
      fun hmem => Nat.lt_irrefl _ (h.below _ hmem)
    exact h.create.carried hnew (Nat.lt_succ_self _) hcarried

/-- A computation that is resumed in a step is suspended before. -/
theorem contains_of_step {events : List Event} (h : Linked r agenda)
    (hstep : Step r agenda events r' agenda') {s : Relay} {id : ComputationId} {payload : Bytes}
    (hmem : .resume s id payload ∈ events) : s.computations.contains id = true := by
  have hfirst {id : ComputationId} {rest : List ComputationId} (h : Linked r (id :: rest)) :
      r.computations.contains id = true := by
    obtain ⟨c, hc⟩ := ComputationTable.exists_get?_iff.mpr (h.matched.subset List.mem_cons_self)
    rw [ComputationTable.contains, hc]
    rfl
  cases hstep with
  | resume payload =>
    cases List.mem_singleton.mp hmem
    exact hfirst h
  | miss payload =>
    cases List.mem_singleton.mp hmem
    exact hfirst h
  | answer => cases List.mem_singleton.mp hmem
  | deliver => cases List.mem_singleton.mp hmem
  | _ => exact absurd hmem List.not_mem_nil

/-- Each course keeps computations and requests together, and finds the computations that it resumes. -/
theorem course {events : List Event} (h : Linked r agenda)
    (hcourse : Course r agenda events r' agenda') :
    Linked r' agenda' ∧
      ∀ s id payload, .resume s id payload ∈ events → s.computations.contains id = true := by
  induction hcourse with
  | refl => exact ⟨h, fun _ _ _ hmem => absurd hmem List.not_mem_nil⟩
  | step first _ ih =>
    obtain ⟨h', hrest⟩ := ih (h.step first)
    refine ⟨h', fun s id payload hmem => ?_⟩
    rcases List.mem_append.mp hmem with hmem | hmem
    · exact h.contains_of_step first hmem
    · exact hrest s id payload hmem

/-- Removing a face keeps pending Interests and computations linked. -/
theorem removeFace (h : Linked r agenda) (id : FaceId) : Linked (r.removeFace id).2 agenda := by
  refine removeFace_induction (motive := fun s => Linked s agenda) r id (fun _ => h) ?_
  intro routes nonces
  refine h.rework rfl (h.wellFormed.dropRequester (.face id)) ?_ ?_
  · rw [PendingTable.waiting_dropRequester_face]
  · intro e' he' x hx
    obtain ⟨e, he, rfl, -⟩ := PendingTable.mem_dropRequester.mp he'
    rw [PendingEntry.computations_leave_face] at hx
    exact ⟨e, he, hx, rfl⟩

/-- Sweeping an entry keeps pending Interests and computations linked. -/
theorem swept (h : Linked r agenda) {id : PendingId} (hswept : Swept r id r') :
    Linked r' agenda := by
  cases hswept with
  | missing => exact h
  | @expired e he _ nonces =>
    obtain ⟨hmem, rfl⟩ := PendingTable.mem_of_get? he
    refine h.discard rfl (Nat.le_refl _) (h.wellFormed.filter _) ?_ List.filter_sublist.subset
    calc agenda ++ r.pending.waiting
      _ ~ agenda ++ (e.computations ++ (r.pending.erase e.id).waiting) :=
        (PendingTable.waiting_erase h.wellFormed hmem).append_left agenda
      _ ~ e.computations ++ (agenda ++ (r.pending.erase e.id).waiting) :=
        List.perm_append_comm_assoc _ _ _
  | retried =>
    have hagain : Linked
        { r with pending := r.pending.modify id fun e => { e with retries := e.retries + 1 } }
        agenda := h.modify id (fun _ => rfl) (fun _ => rfl) fun _ => rfl
    exact hagain.aside rfl rfl

/-- Whatever an operation does, pending Interests and computations stay linked. -/
theorem effect (h : Linked r []) {op : Operation} (heffect : Effect r op r') : Linked r' [] := by
  cases heffect with
  | course hcourse => exact (h.course hcourse).1
  | faces => exact h.aside rfl rfl
  | removal id => exact h.removeFace id
  | tick =>
    exact tick_induction (motive := fun s => Linked s []) r (h.aside rfl rfl)
      (fun _ id hs => hs.removeFace id) (fun _ _ _ hs hswept => hs.swept hswept)
      fun _ _ _ hs => hs.aside rfl rfl

end Linked

/-- Whatever operations bring a relay about, it is linked. -/
theorem linked_of_reachable {kind : Operation → Prop} {r : Relay} (hr : ReachableBy kind r) :
    Linked r [] := by
  refine hr.invariant (motive := fun r => Linked r []) ?_ fun _ _ _ h _ heffect => h.effect heffect
  intro r hpending _ hsuspended
  exact .empty hpending hsuspended

/-- In every reachable relay, suspended computations and the requests of computations are in one-to-one
correspondence: each computation waits in exactly one pending Interest, once, and each request of a
computation is that of a suspended one, which needs the data that the Interest asks for. Whatever
happens next, each computation that is resumed is found. -/
theorem continuations_of_reachable {r : Relay} (hr : r.Reachable) :
    r.computations.ids.Nodup ∧ r.pending.waiting.Perm r.computations.ids ∧
      (∀ c ∈ r.computations.suspended,
        ∃! e, e ∈ r.pending.entries ∧ e.hasRequester (.computation c.id) = true) ∧
      (∀ e ∈ r.pending.entries, ∀ id, e.hasRequester (.computation id) = true →
        ∃ c name, r.computations.get? id = some c ∧ c.awaiting = some name ∧
          e.interest.asksSame (.ofName name) = true) ∧
      ∀ op s id payload, .resume s id payload ∈ r.journal op → s.computations.contains id = true := by
  have h := linked_of_reachable hr
  refine ⟨h.nodup, h.matched, ?_, ?_, ?_⟩
  · intro c hc
    have hwaiting := h.matched.symm.subset (ComputationTable.mem_ids.mpr ⟨c, hc, rfl⟩)
    obtain ⟨e, he, hid⟩ := PendingTable.mem_waiting.mp hwaiting
    refine ⟨e, ⟨he, PendingEntry.hasRequester_computation.mpr hid⟩, ?_⟩
    rintro e' ⟨he', hid'⟩
    by_contra hne
    have hdisjoint := (List.nodup_flatMap.mp (h.matched.nodup_iff.mpr h.nodup)).2
    have : Std.Symm (Function.onFun List.Disjoint PendingEntry.computations) :=
      ⟨fun _ _ h _ hx hy => h hy hx⟩
    exact hdisjoint.forall he' he hne (PendingEntry.hasRequester_computation.mp hid') hid
  · intro e he id hid
    have hmem := PendingEntry.hasRequester_computation.mp hid
    obtain ⟨c, hc⟩ := ComputationTable.exists_get?_iff.mpr (h.mem_ids he hmem)
    obtain ⟨hsuspended, rfl⟩ := ComputationTable.mem_of_get? hc
    obtain ⟨name, hawaiting, hsame⟩ := h.supplied e he c hsuspended hmem
    exact ⟨c, name, hc, hawaiting, hsame⟩
  · intro op s id payload hmem
    have heffect := r.effect op
    generalize r.perform op = r' at heffect
    cases heffect with
    | course hcourse => exact (h.course hcourse).2 s id payload hmem
    | faces hjournal =>
      rw [hjournal] at hmem
      exact absurd hmem List.not_mem_nil
    | removal _ hjournal =>
      rw [hjournal] at hmem
      exact absurd hmem List.not_mem_nil
    | tick => exact absurd hmem List.not_mem_nil

/-- A relay is asked to reduce an expression that needs data from elsewhere. The computation waits in
the Interest for this data, and nowhere else. -/
theorem continuations_of_reachable_asking :
    ∃ r₀ r : Relay, Relay.new {} (.ofSeed 0) = .ok r₀ ∧
      r = r₀.performAll
        [.faceForPeer 0 (.unix "a"), .faceForPeer 1 (.unix "b"),
          .addRoute (.ofComponents [[0x61]]) ⟨2⟩ .ndn2013,
          .handleInterest ⟨1⟩ (.ofName (.ofComponents [[0x2F, 0x61], Name.expressionMarker]))] ∧
      r.computations.ids = [⟨0⟩] ∧
      ∃! e, e ∈ r.pending.entries ∧ e.hasRequester (.computation ⟨0⟩) = true := by
  have hwaits (r : Relay) (hr : r.Reachable) (hids : r.computations.ids = [⟨0⟩]) :
      ∃! e, e ∈ r.pending.entries ∧ e.hasRequester (.computation ⟨0⟩) = true := by
    obtain ⟨c, hc, hid⟩ := ComputationTable.mem_ids.mp (hids ▸ List.mem_cons_self)
    rw [← hid]
    exact (continuations_of_reachable hr).2.2.1 c hc
  have hnew : Relay.new {} (.ofSeed 0) = .ok _ := rfl
  refine ⟨_, _, hnew, rfl, ?_, hwaits _ (.performAll (.new hnew) fun _ _ => trivial) ?_⟩
  · decide +kernel
  · decide +kernel

end Relay

end NamedFunctions
