import NamedFunctions.Proofs.Relay.Consistency
import NamedFunctions.Proofs.Relay.Continuation
import NamedFunctions.Proofs.Relay.Provenance

/-!
# Completed computations

A computation completes when the expression in an Interest is reduced at once, or when data resumes it.
Its result is published at that moment. All who then wait with the same Interest get it, unless the
selectors refuse the result: it has the name of the Interest, and no publisher.
-/

namespace NamedFunctions

namespace PendingTable

/-- Whether there was a pending Interest with a number, and is none any more. -/
structure Past (table : PendingTable) (id : PendingId) : Prop where
  below : id.val < table.nextId
  gone : ∀ e ∈ table.entries, e.id ≠ id

namespace Past

variable {table : PendingTable} {id : PendingId}

private theorem insert (h : table.Past id) (interest : Interest) (requester : Requester) (now : Nat) :
    (table.insert interest requester now).2.Past id := by
  refine ⟨Nat.lt_succ_of_lt h.below, fun e he hid => ?_⟩
  rcases List.mem_append.mp he with he | he
  · exact h.gone e he hid
  · rw [List.mem_singleton.mp he] at hid
    have hbelow := h.below
    rw [← hid] at hbelow
    exact Nat.lt_irrefl _ hbelow

private theorem modify (h : table.Past id) (entry : PendingId) {change : PendingEntry → PendingEntry}
    (hid : ∀ e, (change e).id = e.id) : (table.modify entry change).Past id := by
  refine ⟨h.below, fun e' he' => ?_⟩
  obtain ⟨e, he, rfl⟩ := List.mem_map.mp he'
  split
  · rw [hid]
    exact h.gone e he
  · exact h.gone e he

private theorem filter (h : table.Past id) (keep : PendingEntry → Bool) :
    Past { table with entries := table.entries.filter keep } id :=
  ⟨h.below, fun e he => h.gone e (List.mem_of_mem_filter he)⟩

/-- An entry that is gone is not found. -/
theorem get?_eq_none (h : table.Past id) : table.get? id = none := by
  rw [PendingTable.get?, List.find?_eq_none]
  intro e he
  simpa using h.gone e he

end Past

/-- A pending Interest that is answered is over. -/
theorem WellFormed.past_takeAnswered {table : PendingTable} (h : table.WellFormed) {e : PendingEntry}
    (he : e ∈ table.entries) {content : Content} (hsatisfied : e.interest.satisfiedBy content false = true) :
    (table.takeAnswered content).2.Past e.id := by
  refine ⟨h.id_lt he, fun e' he' hid => ?_⟩
  obtain ⟨hmem, hother⟩ := List.mem_filter.mp he'
  rw [h.eq_of_id hmem he hid] at hother
  simp [hsatisfied] at hother

end PendingTable

namespace Relay

/-- Whether some events end with computations being resumed in turn, and lead to what that leads to. -/
def EndsIn (events : List Event) (r' s : Relay) (agenda : List (ComputationId × Bytes)) : Prop :=
  s.cascade agenda <:+ events ∧ r' = s.wake agenda

private theorem EndsIn.cons {events : List Event} {r' s : Relay} {agenda : List (ComputationId × Bytes)}
    (h : EndsIn events r' s agenda) (event : Event) : EndsIn (event :: events) r' s agenda :=
  ⟨h.1.trans (List.suffix_cons _ _), h.2⟩

/-- Each resumption in a cascade is the first of those that are left. -/
theorem endsIn_cascade {r s : Relay} {agenda : List (ComputationId × Bytes)} {id : ComputationId}
    {payload : Bytes} (h : .resume s id payload ∈ r.cascade agenda) :
    ∃ rest, EndsIn (r.cascade agenda) (r.wake agenda) s ((id, payload) :: rest) := by
  fun_induction wake r agenda with
  | case1 r =>
    rw [cascade] at h
    exact absurd h List.not_mem_nil
  | case2 r x data rest r' heq _ ih =>
    rw [cascade_of_none rest heq] at h ⊢
    rcases List.mem_cons.mp h with hhead | htail
    · cases hhead
      exact ⟨rest, ⟨[], cascade_of_none rest heq⟩, (wake_of_none rest heq).symm⟩
    · obtain ⟨rest', hrest⟩ := ih htail
      exact ⟨rest', hrest.cons _⟩
  | case3 r x data rest origin result r' heq _ ih =>
    rw [cascade_of_some rest heq] at h ⊢
    rcases List.mem_cons.mp h with hhead | htail
    · cases hhead
      exact ⟨rest, ⟨[], cascade_of_some rest heq⟩, (wake_of_some rest heq).symm⟩
    · obtain ⟨rest', hrest⟩ := ih (List.mem_of_ne_of_mem (by simp) htail)
      exact ⟨rest', (hrest.cons _).cons _⟩

private theorem endsIn_publication {r s : Relay} {origin : Interest} {result : Bytes} {id : ComputationId}
    {payload : Bytes} (h : .resume s id payload ∈ r.publication origin result) :
    ∃ rest, EndsIn (r.publication origin result) (r.publish origin result) s
      ((id, payload) :: rest) := by
  obtain ⟨rest, hrest⟩ := endsIn_cascade (List.mem_of_ne_of_mem (by simp) h)
  exact ⟨rest, hrest.cons _⟩

private theorem endsIn_reductionJournal {r s : Relay} {interest : Interest} {id : ComputationId}
    {payload : Bytes} (h : .resume s id payload ∈ r.reductionJournal interest) :
    ∃ rest, EndsIn (r.reductionJournal interest) (r.startComputation interest).2 s
      ((id, payload) :: rest) := by
  rw [reductionJournal_eq] at h ⊢
  rw [startComputation_eq]
  rcases heq : (r.reductionStarted.beginComputation interest).2.carryOn
    (r.reductionStarted.beginComputation interest).1 with ⟨_ | settled, r'⟩
  · rw [heq] at h
    exact absurd h List.not_mem_nil
  · rw [heq] at h
    cases settled with
    | finished origin result => exact endsIn_publication h
    | waiting id => exact absurd h List.not_mem_nil

/-- What an Interest that is accepted sets off is what its resolution does. -/
theorem interestJournal_of_accept {r r' : Relay} {source : FaceId} {interest accepted : Interest}
    (hsource : r.faces.contains source = true)
    (haccept : (r.interestReceived source).accept interest = (some accepted, r')) :
    r.interestJournal source interest = r'.resolutionJournal source accepted := by
  unfold interestReceived at haccept
  rw [interestJournal, if_pos hsource]
  dsimp only
  rw [haccept]

/-- An Interest that is refused sets nothing off. -/
theorem interestJournal_of_refused {r r' : Relay} {source : FaceId} {interest : Interest}
    (hsource : r.faces.contains source = true)
    (haccept : (r.interestReceived source).accept interest = (none, r')) :
    r.interestJournal source interest = [] := by
  unfold interestReceived at haccept
  rw [interestJournal, if_pos hsource]
  dsimp only
  rw [haccept]

/-- An Interest that is refused is dropped. -/
theorem handleInterest_of_refused {r r' : Relay} {source : FaceId} {interest : Interest}
    (hsource : r.faces.contains source = true)
    (haccept : (r.interestReceived source).accept interest = (none, r')) :
    r.handleInterest source interest = (.error (.duplicateNonce (interest.nonce.getD 0)), r'.drop) := by
  unfold interestReceived at haccept
  rw [handleInterest, if_pos hsource]
  dsimp only
  rw [haccept]

private theorem resolutionJournal_of_reduces {r : Relay} {interest : Interest} (h : r.Reduces interest)
    (source : FaceId) :
    r.resolutionJournal source interest = (r.withInterest source interest).reductionJournal interest := by
  obtain ⟨hmiss, hnone, hexpression⟩ := h
  simp only [resolutionJournal, hmiss, hnone, hexpression, if_true]
  rfl

private theorem journal_of_begun (r : Relay) (source : FaceId) (interest : Interest) :
    (r.withInterest source interest).reductionJournal interest =
      match (r.begun source interest).2.carryOn (r.begun source interest).1 with
      | (.ok (.finished origin result), r) => r.publication origin result
      | _ => [] := rfl

/-- Computations are resumed only after an expression was reduced. -/
theorem resolutionJournal_of_not_reduces {r s : Relay} {interest : Interest}
    (h : ¬ r.Reduces interest) {source : FaceId} {id : ComputationId} {payload : Bytes} :
    .resume s id payload ∉ r.resolutionJournal source interest := by
  intro hmem
  unfold resolutionJournal at hmem
  split at hmem
  · cases List.mem_singleton.mp hmem
  · next hmiss =>
    split at hmem
    · exact absurd hmem List.not_mem_nil
    · next hnone =>
      split at hmem
      · next hexpression => exact h ⟨hmiss, hnone, hexpression⟩
      · exact absurd hmem List.not_mem_nil

private theorem endsIn_interestJournal {r s : Relay} {source : FaceId} {interest : Interest}
    {id : ComputationId} {payload : Bytes}
    (h : .resume s id payload ∈ r.interestJournal source interest) :
    ∃ rest, EndsIn (r.interestJournal source interest) (r.handleInterest source interest).2 s
      ((id, payload) :: rest) := by
  by_cases hsource : r.faces.contains source = true
  · rcases haccept : (r.interestReceived source).accept interest with ⟨_ | accepted, r'⟩
    · unfold interestReceived at haccept
      rw [interestJournal, if_pos hsource] at h
      dsimp only at h
      rw [haccept] at h
      exact absurd h List.not_mem_nil
    · rw [interestJournal_of_accept hsource haccept] at h ⊢
      rw [handleInterest_of_accept hsource haccept]
      by_cases hreduces : r'.Reduces accepted
      · rw [resolutionJournal_of_reduces hreduces] at h ⊢
        rw [resolve_of_reduces hreduces]
        exact endsIn_reductionJournal h
      · exact absurd h (resolutionJournal_of_not_reduces hreduces)
  · rw [interestJournal, if_neg hsource] at h
    exact absurd h List.not_mem_nil

private theorem endsIn_contentJournal {r s : Relay} {source : FaceId} {content : Content}
    {id : ComputationId} {payload : Bytes}
    (h : .resume s id payload ∈ r.contentJournal source content) :
    ∃ rest, EndsIn (r.contentJournal source content) (r.handleContent source content).2 s
      ((id, payload) :: rest) := by
  unfold contentJournal at h ⊢
  unfold handleContent
  split
  · next hsource =>
    rw [if_pos hsource] at h
    dsimp only at h ⊢
    rcases heq : PendingTable.takeAnswered _ content with ⟨_ | ⟨e, entries⟩, pending⟩
    · rw [heq] at h
      exact absurd h List.not_mem_nil
    · rw [heq] at h
      dsimp only at h ⊢
      obtain ⟨rest, hrest⟩ := endsIn_cascade (List.mem_of_ne_of_mem (by simp) h)
      exact ⟨rest, hrest.cons _⟩
  · next hsource =>
    rw [if_neg hsource] at h
    exact absurd h List.not_mem_nil

/-- Each resumption in the course of an operation is the first of those that are left, and the operation
is over when these are. -/
theorem endsIn_journal {r s : Relay} {op : Operation} {id : ComputationId} {payload : Bytes}
    (h : .resume s id payload ∈ r.journal op) :
    ∃ rest, EndsIn (r.journal op) (r.perform op) s ((id, payload) :: rest) := by
  cases op with
  | handleInterest source interest => exact endsIn_interestJournal h
  | handleContent source content => exact endsIn_contentJournal h
  | _ => exact absurd h List.not_mem_nil

/-- Whether a computation comes to its result in the course of an operation: its number, the relay that is
about to publish the result, and the Interest that the result is for. -/
inductive Completes (r : Relay) :
    Operation → ComputationId → Relay → Interest → Bytes → Prop where
  /-- The expression in an Interest is reduced at once. -/
  | atOnce {r' s : Relay} {source : FaceId} {interest accepted origin : Interest} {result : Bytes}
      (hsource : r.faces.contains source = true)
      (haccept : (r.interestReceived source).accept interest = (some accepted, r'))
      (hreduces : r'.Reduces accepted)
      (hfinished : (r'.begun source accepted).2.carryOn (r'.begun source accepted).1 =
        (.ok (.finished origin result), s)) :
      Completes r (.handleInterest source interest) ⟨r.computations.nextId⟩ s origin result
  /-- Data that the computation has waited for resumes it. -/
  | resumed {op : Operation} {s₀ s : Relay} {id : ComputationId} {payload : Bytes}
      {origin : Interest} {result : Bytes} (hmem : .resume s₀ id payload ∈ r.journal op)
      (hresult : s₀.resumeComputation id payload = (some (origin, result), s)) :
      Completes r op id s origin result

/-- A result is published at once, and the operation is over when all that follows from it is. -/
theorem Completes.publishes {r s : Relay} {op : Operation} {id : ComputationId} {origin : Interest}
    {result : Bytes} (h : r.Completes op id s origin result) :
    ∃ rest, .deliver (s.withResult origin result) (resultContent origin result) ::
        (s.announce origin result).2.cascade ((s.announce origin result).1 ++ rest) <:+ r.journal op ∧
      r.perform op = (s.announce origin result).2.wake ((s.announce origin result).1 ++ rest) := by
  cases h with
  | @atOnce r' _ source interest accepted _ _ hsource haccept hreduces hfinished =>
    refine ⟨[], ?_, ?_⟩
    · rw [List.append_nil, journal, interestJournal_of_accept hsource haccept,
        resolutionJournal_of_reduces hreduces, journal_of_begun, hfinished]
      exact List.suffix_refl _
    · rw [List.append_nil, perform, handleInterest_of_accept hsource haccept,
        resolve_of_begun hreduces, hfinished]
      rfl
  | @resumed _ s₀ _ _ payload _ _ hmem hresult =>
    obtain ⟨rest, hsuffix, hlast⟩ := endsIn_journal hmem
    rw [cascade_of_some rest hresult] at hsuffix
    rw [wake_of_some rest hresult] at hlast
    exact ⟨rest, (List.suffix_cons _ _).trans hsuffix, hlast⟩

/-- A computation that completes delivers its result. -/
theorem Completes.delivers {r s : Relay} {op : Operation} {id : ComputationId} {origin : Interest}
    {result : Bytes} (h : r.Completes op id s origin result) :
    .deliver (s.withResult origin result) (resultContent origin result) ∈ r.journal op := by
  obtain ⟨rest, hsuffix, -⟩ := h.publishes
  exact hsuffix.subset List.mem_cons_self

/-- A face without a mark has none at any event of an operation. -/
theorem unmarkedAt_of_journal {r : Relay} {id : FaceId} (hm : r.faces.UnmarkedAt id) {op : Operation}
    {event : Event} (hmem : event ∈ r.journal op) : event.before.faces.UnmarkedAt id :=
  before_of_journal (motive := fun s => s.faces.UnmarkedAt id)
    (fun hstep hs => unmarkedAt_step hstep hs) hm hmem

private theorem Carried.past {r r' : Relay} {id : PendingId} {computation : ComputationId}
    {outcome : Except RelayError Settled} (h : Carried r computation outcome r')
    (hr : r.pending.Past id) : r'.pending.Past id := by
  cases h with
  | stopped => exact hr
  | joined => exact hr.modify _ fun _ => rfl
  | issued => exact hr.insert _ _ _
  | stranded => exact (hr.insert _ _ _).filter _

/-- A pending Interest that is over does not come back. -/
theorem past_step {r r' : Relay} {agenda agenda' : List ComputationId} {events : List Event}
    (h : Step r agenda events r' agenda') {id : PendingId} (hr : r.pending.Past id) :
    r'.pending.Past id := by
  cases h with
  | aside hpending => exact hpending ▸ hr
  | ask => exact hr.insert _ _ _
  | join => exact hr.modify _ fun _ => rfl
  | withdraw => exact (hr.insert _ _ _).filter _
  | answer => exact (r.pending_send _ _).symm ▸ hr
  | deliver => exact hr.filter _
  | resume _ _ hcarried => exact hcarried.past hr
  | miss => exact hr
  | begin hcarried => exact hcarried.past hr

/-- An entry that is gone does not come back. -/
theorem past_course {r r' : Relay} {agenda agenda' : List ComputationId} {events : List Event}
    (h : Course r agenda events r' agenda') {id : PendingId} (hr : r.pending.Past id) :
    r'.pending.Past id := by
  induction h with
  | refl => exact hr
  | step first _ ih => exact ih (past_step first hr)

/-- A result leaves the pending Interests. -/
theorem pending_withResult (r : Relay) (origin : Interest) (result : Bytes) :
    (r.withResult origin result).pending = r.pending := by
  obtain ⟨store, stats, hcache⟩ :=
    (r.count fun s => { s with computationsCompleted := s.computationsCompleted + 1 }).cache_eq
      (resultContent origin result) true
  rw [withResult, hcache]
  rfl

/-- The result of a computation satisfies the Interest that it is for exactly if this asks for no longer
name and for no publisher. -/
theorem satisfiedBy_resultContent (origin : Interest) (result : Bytes) :
    origin.satisfiedBy (resultContent origin result) false =
      (origin.selectors.minSuffix.all (· ≤ 0) && origin.selectors.publisher.isNone) := by
  have hname : origin.name.agrees .exact (resultContent origin result).name = true :=
    Name.agrees_exact_iff.mpr rfl
  have hnone : (resultContent origin result).publisher = none := by
    change (PublisherDetails.ofSuite origin.name.suite).publisher = none
    cases origin.name.suite <;> rfl
  rw [Interest.satisfiedBy_of_exact hname, hnone]
  cases origin.selectors.publisher <;> simp

/-- Whether all who wait for a result when it is published get it: the pending Interests that ask for the
same are over, and the faces that wait there have the result on their queues, unless these are full. A
mark on a face from before could keep the result from it, but none is there unless the relay was given one
from outside. -/
structure Answers (r : Relay) (op : Operation) (s : Relay) (origin : Interest) (result : Bytes) :
    Prop where
  delivered : .deliver (s.withResult origin result) (resultContent origin result) ∈ r.journal op
  removed : ∀ e ∈ s.pending.entries, e.interest.asksSame origin = true →
    (r.perform op).pending.get? e.id = none
  offered : ∀ e ∈ s.pending.entries, e.interest.asksSame origin = true → ∀ id ∈ e.faces,
    (Event.deliver (s.withResult origin result) (resultContent origin result)).Serves e id ∨
      ¬ ReachableBy Operation.IsUnmarked r ∧ ¬ r.faces.UnmarkedAt id

/-- A computation whose result satisfies the Interest that it is for answers all who wait with it. -/
theorem answers_of_completes {r s : Relay} (hr : r.Reachable) {op : Operation} {id : ComputationId}
    {origin : Interest} {result : Bytes} (h : r.Completes op id s origin result)
    (hsuffix : ∀ n ∈ origin.selectors.minSuffix, n = 0)
    (hpublisher : origin.selectors.publisher = none) : r.Answers op s origin result := by
  have hadmitted : origin.satisfiedBy (resultContent origin result) false = true := by
    rw [satisfiedBy_resultContent, hpublisher]
    cases hmin : origin.selectors.minSuffix with
    | none => rfl
    | some n =>
      obtain rfl := hsuffix n hmin
      rfl
  have hattended : Attended (s.withResult origin result) :=
    attended_of_journal (attended_of_reachable hr) h.delivers
  have hwaiting {e : PendingEntry} (he : e ∈ s.pending.entries)
      (hsame : e.interest.asksSame origin = true) :
      e ∈ (s.withResult origin result).pending.entries ∧
        e.interest.satisfiedBy (resultContent origin result) false = true := by
    rw [pending_withResult, Interest.satisfiedBy_of_asksSame hsame]
    exact ⟨he, hadmitted⟩
  refine ⟨h.delivers, fun e he hsame => ?_, fun e he hsame face hface => ?_⟩
  · obtain ⟨hmem, hsatisfied⟩ := hwaiting he hsame
    obtain ⟨rest, -, hlast⟩ := h.publishes
    have hpast : (s.announce origin result).2.pending.Past e.id :=
      hattended.wellFormed.past_takeAnswered hmem hsatisfied
    rw [hlast]
    exact (past_course (course_wake _ _) hpast).get?_eq_none
  · obtain ⟨hmem, hsatisfied⟩ := hwaiting he hsame
    by_cases hm : r.faces.UnmarkedAt face
    · exact .inl (hattended.serves hmem hface (unmarkedAt_of_journal hm h.delivers) hsatisfied)
    · exact .inr ⟨fun hunmarked => hm (unmarked_of_reachable hunmarked face), hm⟩

/-- Only the reduction of an expression gives a result or suspends a computation. -/
theorem resolve_of_not_reduces {r : Relay} {interest : Interest} (h : ¬ r.Reduces interest)
    (source : FaceId) :
    (r.resolve source interest).1 ≠ .ok .computed ∧
      ∀ id, (r.resolve source interest).1 ≠ .ok (.suspended id) := by
  unfold resolve
  split
  · dsimp only
    split <;> simp
  · next hmiss =>
    split
    · unfold aggregate
      dsimp only
      split
      · split <;> simp
      · simp
    · next hnone =>
      split
      · next hexpression => exact absurd ⟨hmiss, hnone, hexpression⟩ h
      · unfold forward
        dsimp only
        split <;> simp

private theorem reduces_of_handleInterest {r : Relay} {source : FaceId} {interest : Interest}
    {outcome : InterestOutcome} (h : (r.handleInterest source interest).1 = .ok outcome)
    (houtcome : outcome = .computed ∨ ∃ id, outcome = .suspended id) :
    ∃ nonce r', r.faces.contains source = true ∧
      (r.interestReceived source).accept interest = (some (interest.withNonce nonce), r') ∧
      r'.Reduces (interest.withNonce nonce) := by
  by_cases hsource : r.faces.contains source = true
  · rcases haccept : (r.interestReceived source).accept interest with ⟨_ | accepted, r'⟩
    · unfold interestReceived at haccept
      rw [handleInterest, if_pos hsource] at h
      dsimp only at h
      rw [haccept] at h
      cases h
    · obtain ⟨nonce, rfl⟩ := eq_withNonce_of_accept haccept
      refine ⟨nonce, r', hsource, rfl, ?_⟩
      by_contra hreduces
      obtain ⟨hcomputed, hsuspended⟩ := resolve_of_not_reduces hreduces source
      rw [handleInterest_of_accept hsource haccept] at h
      rcases houtcome with rfl | ⟨id, rfl⟩
      · exact hcomputed h
      · exact hsuspended id h
  · rw [handleInterest, if_neg hsource] at h
    cases h

/-- The computation that is begun works for the Interest. -/
theorem settles_begun (r : Relay) (source : FaceId) (interest : Interest) :
    Settles (r.begun source interest).2.computations ⟨r.computations.nextId⟩ interest
      ((r.begun source interest).2.carryOn (r.begun source interest).1).1
      ((r.begun source interest).2.carryOn (r.begun source interest).1).2.computations :=
  settles_begin _ interest

/-- When a computation comes to its result at once, the Interest is pending. -/
theorem pending_of_begun {r s : Relay} {source : FaceId} {interest origin : Interest} {result : Bytes}
    (h : (r.begun source interest).2.carryOn (r.begun source interest).1 =
      (.ok (.finished origin result), s)) :
    s.pending = (r.pending.insert interest (.face source) r.clock).2 := by
  have hbegun : (r.begun source interest).2.pending =
      (r.pending.insert interest (.face source) r.clock).2 := by
    unfold begun beginComputation
    split <;> rfl
  have hcarried : Carried (r.begun source interest).2 _
      ((r.begun source interest).2.carryOn (r.begun source interest).1).1
      ((r.begun source interest).2.carryOn (r.begun source interest).1).2 :=
    carried_beginComputation _ interest
  rw [h] at hcarried
  rw [← hbegun]
  cases hcarried
  rfl

/-- A result that there is at once is for the Interest with the expression, which is pending when the result
is published. -/
theorem completes_of_computed {r : Relay} {source : FaceId} {interest : Interest}
    (h : (r.handleInterest source interest).1 = .ok .computed) :
    ∃ nonce s result,
      r.Completes (.handleInterest source interest) ⟨r.computations.nextId⟩ s
        (interest.withNonce nonce) result ∧
      ∃ e ∈ s.pending.entries, e.interest = interest.withNonce nonce ∧ source ∈ e.faces := by
  obtain ⟨nonce, r', hsource, haccept, hreduces⟩ := reduces_of_handleInterest h (.inl rfl)
  have hsettles := r'.settles_begun source (interest.withNonce nonce)
  rw [handleInterest_of_accept hsource haccept, resolve_of_begun hreduces] at h
  rcases hfinished : (r'.begun source (interest.withNonce nonce)).2.carryOn
    (r'.begun source (interest.withNonce nonce)).1 with ⟨_ | settled, s⟩
  · rw [hfinished] at h
    cases h
  · rw [hfinished] at h hsettles
    cases settled with
    | waiting => cases h
    | finished origin result =>
      obtain rfl := hsettles.origin_eq
      refine ⟨nonce, s, result, .atOnce hsource haccept hreduces hfinished, ?_⟩
      rw [pending_of_begun hfinished]
      exact ⟨_, List.mem_append_right _ List.mem_cons_self, rfl, List.mem_cons_self⟩

/-- A computation that is suspended works for the Interest with the expression. -/
theorem origin_of_suspended {r : Relay} {source : FaceId} {interest : Interest} {id : ComputationId}
    (h : (r.handleInterest source interest).1 = .ok (.suspended id)) :
    ∃ nonce, ∃ c ∈ (r.handleInterest source interest).2.computations.suspended,
      c.id = id ∧ c.origin = interest.withNonce nonce := by
  obtain ⟨nonce, r', hsource, haccept, hreduces⟩ := reduces_of_handleInterest h (.inr ⟨id, rfl⟩)
  refine ⟨nonce, ?_⟩
  have hsettles := r'.settles_begun source (interest.withNonce nonce)
  rw [handleInterest_of_accept hsource haccept, resolve_of_begun hreduces] at h ⊢
  rcases hwaiting : (r'.begun source (interest.withNonce nonce)).2.carryOn
    (r'.begun source (interest.withNonce nonce)).1 with ⟨_ | settled, s⟩
  · rw [hwaiting] at h
    cases h
  · rw [hwaiting] at h hsettles
    cases settled with
    | finished => cases h
    | waiting x =>
      cases h
      exact hsettles.exists_waiting

/-- A computation that was suspended for an Interest completes with a result for this Interest, whatever
happens in between. -/
theorem Completes.origin_eq {r s : Relay} (hr : r.Reachable) {c : Computation}
    (hc : c ∈ r.computations.suspended) (ops : List Operation) {op : Operation} {origin : Interest}
    {result : Bytes} (h : (r.performAll ops).Completes op c.id s origin result) :
    origin = c.origin := by
  have hlinked := linked_of_reachable hr
  have hbelow := hlinked.below c.id (ComputationTable.mem_ids.mpr ⟨c, hc, rfl⟩)
  have hcontinues := r.continues_performAll ops
  generalize hid : c.id = id at h
  cases h with
  | atOnce =>
    rw [hid] at hbelow
    exact absurd hbelow (Nat.not_lt.mpr hcontinues.nextId_le)
  | @resumed _ s₀ _ _ payload _ _ hmem hresult =>
    have hevent := hcontinues.trans (((r.performAll ops).continues_perform op).2 _ hmem)
    cases hc' : s₀.computations.get? id with
    | none =>
      rw [resumeComputation_of_none hc'] at hresult
      cases hresult
    | some c' =>
      have hsettles := settles_resume hc' payload
      rw [resumeComputation_of_some hc', Prod.mk.injEq] at hresult
      rw [eq_finished_of_result? hresult.1] at hsettles
      obtain ⟨hmem', hid'⟩ := ComputationTable.mem_of_get? hc'
      have hbelow' : c'.id.val < r.computations.nextId := by rw [hid', ← hid]; exact hbelow
      obtain ⟨c₀, hc₀, hsame, horigin⟩ := hevent.exists_origin c' hmem' hbelow'
      have hc₀ : c₀ = c := by
        apply List.inj_on_of_nodup_map hlinked.nodup hc₀ hc
        rw [hsame, hid', hid]
      rw [hsettles.origin_eq, ← horigin, hc₀]

/-- Whoever waits with an Interest for the result of its expression gets it when the computation for the
Interest completes: at once, or after it was suspended, however often it is suspended again and whatever
else happens. The Interest may ask neither for a name longer than its own nor for a publisher, as the
result has the name of the Interest and no publisher. -/
theorem completions_of_reachable {r : Relay} (hr : r.Reachable) (source : FaceId)
    {interest : Interest} (hsuffix : ∀ n ∈ interest.selectors.minSuffix, n = 0)
    (hpublisher : interest.selectors.publisher = none) :
    ((r.handleInterest source interest).1 = .ok .computed →
      ∃ nonce s result,
        r.Completes (.handleInterest source interest) ⟨r.computations.nextId⟩ s
          (interest.withNonce nonce) result ∧
        (∃ e ∈ s.pending.entries, e.interest = interest.withNonce nonce ∧ source ∈ e.faces) ∧
        r.Answers (.handleInterest source interest) s (interest.withNonce nonce) result) ∧
    ∀ id, (r.handleInterest source interest).1 = .ok (.suspended id) →
      ∃ nonce, ∀ ops op s origin result,
        ((r.perform (.handleInterest source interest)).performAll ops).Completes op id s origin
          result →
        origin = interest.withNonce nonce ∧
          ((r.perform (.handleInterest source interest)).performAll ops).Answers op s origin
            result := by
  constructor
  · intro h
    obtain ⟨nonce, s, result, hcompletes, hwaits⟩ := completes_of_computed h
    exact ⟨nonce, s, result, hcompletes, hwaits,
      answers_of_completes hr hcompletes hsuffix hpublisher⟩
  · intro id h
    obtain ⟨nonce, c, hc, rfl, horigin⟩ := origin_of_suspended h
    refine ⟨nonce, fun ops op s origin result hcompletes => ?_⟩
    have hsuspended : (r.perform (.handleInterest source interest)).Reachable := .perform hr trivial
    have hlater : ((r.perform (.handleInterest source interest)).performAll ops).Reachable :=
      hsuspended.performAll fun _ _ => trivial
    have hsame : origin = interest.withNonce nonce :=
      (hcompletes.origin_eq hsuspended hc).trans horigin
    subst hsame
    exact ⟨rfl, answers_of_completes hlater hcompletes hsuffix hpublisher⟩

/-- A face asks for an expression that is its own result. The result is delivered to the face, and its
Interest is no longer pending. -/
theorem completions_of_reachable_normal :
    ∃ (r₀ r : Relay) (interest : Interest), Relay.new {} (.ofSeed 0) = .ok r₀ ∧
      r = r₀.performAll [.faceForPeer 0 (.unix "a")] ∧
      interest = .ofName (.ofComponents [[0x78], Name.expressionMarker]) ∧
      ∃ nonce s result, ∃ e ∈ s.pending.entries,
        r.Completes (.handleInterest ⟨1⟩ interest) ⟨0⟩ s (interest.withNonce nonce) result ∧
        (Event.deliver (s.withResult (interest.withNonce nonce) result)
          (resultContent (interest.withNonce nonce) result)).Serves e ⟨1⟩ ∧
        (r.perform (.handleInterest ⟨1⟩ interest)).pending.get? e.id = none := by
  have hanswered (r : Relay) (hr : r.Reachable) (hunmarked : ReachableBy Operation.IsUnmarked r)
      (interest : Interest) (hsuffix : ∀ n ∈ interest.selectors.minSuffix, n = 0)
      (hpublisher : interest.selectors.publisher = none) (hfirst : r.computations.nextId = 0)
      (hcomputed : (r.handleInterest ⟨1⟩ interest).1 = .ok .computed) :
      ∃ nonce s result, ∃ e ∈ s.pending.entries,
        r.Completes (.handleInterest ⟨1⟩ interest) ⟨0⟩ s (interest.withNonce nonce) result ∧
        (Event.deliver (s.withResult (interest.withNonce nonce) result)
          (resultContent (interest.withNonce nonce) result)).Serves e ⟨1⟩ ∧
        (r.perform (.handleInterest ⟨1⟩ interest)).pending.get? e.id = none := by
    obtain ⟨nonce, s, result, hcompletes, ⟨e, he, hinterest, hface⟩, hanswers⟩ :=
      (completions_of_reachable hr ⟨1⟩ hsuffix hpublisher).1 hcomputed
    have hsame : e.interest.asksSame (interest.withNonce nonce) = true := by
      simp [hinterest, Interest.asksSame, Name.agrees]
    rw [hfirst] at hcompletes
    refine ⟨nonce, s, result, e, he, hcompletes, ?_, hanswers.removed e he hsame⟩
    rcases hanswers.offered e he hsame ⟨1⟩ hface with hserves | ⟨hmarked, -⟩
    · exact hserves
    · exact absurd hunmarked hmarked
  have hnew : Relay.new {} (.ofSeed 0) = .ok _ := rfl
  refine ⟨_, _, _, hnew, rfl, rfl, hanswered _ (.performAll (.new hnew) fun _ _ => trivial)
    (.performAll (.new hnew) ?_) _ ?_ rfl rfl ?_⟩
  · simp [Operation.IsUnmarked]
  · rintro n ⟨⟩
  · decide +kernel

/-- A face asks for an expression with an Interest for longer names. The result is computed but does not
satisfy the Interest: the face goes on to wait, with nothing on its queue. -/
theorem computed_unanswered :
    ∃ (r₀ r : Relay) (interest : Interest), Relay.new {} (.ofSeed 0) = .ok r₀ ∧
      r = r₀.performAll [.faceForPeer 0 (.unix "a")] ∧
      interest =
        { name := .ofComponents [[0x78], Name.expressionMarker]
          selectors := .ndn2013 { minSuffix := some 1 }
          nonce := some 1 } ∧
      (r.handleInterest ⟨1⟩ interest).1 = .ok .computed ∧
      (∃ e ∈ (r.perform (.handleInterest ⟨1⟩ interest)).pending.entries,
        e.interest.asksSame interest = true ∧ ⟨1⟩ ∈ e.faces) ∧
      (r.perform (.handleInterest ⟨1⟩ interest)).faces.contents ⟨1⟩ = [] := by
  have hstays {r r' s : Relay} {interest : Interest} (result : Bytes)
      (hsource : r.faces.contains ⟨1⟩ = true)
      (haccept : (r.interestReceived ⟨1⟩).accept interest = (some interest, r'))
      (hreduces : r'.Reduces interest)
      (hfinished : (r'.begun ⟨1⟩ interest).2.carryOn (r'.begun ⟨1⟩ interest).1 =
        (.ok (.finished interest result), s))
      (hawaited : (s.announce interest result).1 = [])
      (hasked : ∃ e ∈ (s.announce interest result).2.pending.entries,
        e.interest.asksSame interest = true ∧ ⟨1⟩ ∈ e.faces)
      (hnothing : (s.announce interest result).2.faces.contents ⟨1⟩ = []) :
      (r.handleInterest ⟨1⟩ interest).1 = .ok .computed ∧
        (∃ e ∈ (r.perform (.handleInterest ⟨1⟩ interest)).pending.entries,
          e.interest.asksSame interest = true ∧ ⟨1⟩ ∈ e.faces) ∧
        (r.perform (.handleInterest ⟨1⟩ interest)).faces.contents ⟨1⟩ = [] := by
    rw [perform, handleInterest_of_finished hsource haccept hreduces hfinished hawaited]
    exact ⟨rfl, hasked, hnothing⟩
  have hnew : Relay.new {} (.ofSeed 0) = .ok _ := rfl
  refine ⟨_, _, _, hnew, rfl, rfl, hstays [0x78] ?_ (Prod.ext ?_ rfl) ⟨?_, ?_, ?_⟩
    (Prod.ext (eq_finished_of_result? ?_) rfl) ?_ ?_ ?_⟩
  all_goals decide +kernel

end Relay

end NamedFunctions
