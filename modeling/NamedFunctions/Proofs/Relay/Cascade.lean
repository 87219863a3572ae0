import NamedFunctions.Proofs.Relay.Course

/-!
# The end of a cascade

The result of a computation resumes others, whose results are published in turn, and a computation that
is resumed goes through cached data, which may be code that asks for more. The relations here are all of
this in its natural order, without a bound: what can be derived has come to an end. Everything has a
derivation, because a result removes the computation that it is of, and cached data costs steps.
-/

open scoped List

namespace NamedFunctions.Relay

/-- What a computation comes to from where its machine has stopped, and how often it was resumed with
cached data on the way. -/
inductive Advances : Relay → Except ComputationError Progress → Nat → Except RelayError Settled →
    Relay → Prop where
  | failed {r : Relay} (error : ComputationError) :
      Advances r (.error error) 0 (.error (.computation error)) r
  | finished {r : Relay} (origin : Interest) (result : Bytes) (transitions : Nat) :
      Advances r (.ok (.done origin result transitions)) 0 (.ok (.finished origin result)) r
  /-- The data is not cached. -/
  | awaits {r : Relay} {c : Computation} {name : Name}
      (hmiss : r.store.lookup (.ofName name) r.clock = none) :
      Advances r (.ok (.suspended c name)) 0 (r.await c name).1 (r.await c name).2
  /-- The data is cached, and the computation is resumed with it. -/
  | fetches {r r' : Relay} {c : Computation} {name : Name} {content : Content} {store : ContentStore}
      {n : Nat} {outcome : Except RelayError Settled}
      (hhit : r.store.lookup (.ofName name) r.clock = some (content, store))
      (rest : Advances (r.fetched store) (c.resume r.computations.stepLimit content.payload) n outcome
        r') :
      Advances r (.ok (.suspended c name)) (n + 1) outcome r'

private theorem advance_of_miss {r : Relay} {name : Name} (c : Computation)
    (h : r.store.lookup (.ofName name) r.clock = none) : r.advance c name = r.await c name := by
  unfold advance
  split
  · rfl
  · next heq =>
    rw [h] at heq
    cases heq

/-- A computation whose data is cached is resumed, and taken further from where it stops next. -/
theorem advance_of_hit {r : Relay} {name : Name} (c : Computation) {content : Content}
    {store : ContentStore} (h : r.store.lookup (.ofName name) r.clock = some (content, store)) :
    r.advance c name =
      (r.fetched store).settle (c.resume r.computations.stepLimit content.payload) := by
  rw [advance]
  split
  · next heq =>
    rw [h] at heq
    cases heq
  · next heq =>
    rw [h] at heq
    cases heq
    dsimp only
    split
    · next hresume =>
      rw [hresume]
      rfl
    · next hresume =>
      rw [hresume]
      rfl
    · next hresume =>
      rw [hresume]
      rfl

namespace Advances

variable {r r' : Relay} {progress : Except ComputationError Progress} {n : Nat}
  {outcome : Except RelayError Settled}

/-- There is one way to go through cached data. -/
theorem settle_eq (h : Advances r progress n outcome r') : r.settle progress = (outcome, r') := by
  induction h with
  | failed error => rfl
  | finished origin result transitions => rfl
  | awaits hmiss => exact advance_of_miss _ hmiss
  | fetches hhit _ ih => exact (advance_of_hit _ hhit).trans ih

/-- Each resumption that leads to another one takes a step, and the steps are limited. -/
theorem count_le_of_suspended {c : Computation} {name : Name}
    (h : Advances r (.ok (.suspended c name)) n outcome r') :
    n ≤ r.computations.stepLimit - c.machine.steps + 1 := by
  generalize hprogress : Except.ok (Progress.suspended c name) = progress at h
  induction h generalizing c name with
  | failed => cases hprogress
  | finished => cases hprogress
  | awaits => exact Nat.zero_le _
  | @fetches r r' c name content store n outcome hhit rest ih =>
    cases hprogress
    cases hresume : c.resume r.computations.stepLimit content.payload with
    | error error =>
      rw [hresume] at rest
      cases rest
      exact Nat.le_add_left 1 _
    | ok progress =>
      cases progress with
      | done origin result transitions =>
        rw [hresume] at rest
        cases rest
        exact Nat.le_add_left 1 _
      | suspended c' name' =>
        obtain ⟨hless, hlimit⟩ := Computation.steps_of_resume_suspended hresume
        have hrest : n ≤ r.computations.stepLimit - c'.machine.steps + 1 := ih hresume.symm
        omega

private theorem count_le (h : Advances r progress n outcome r') : n ≤ r.computations.stepLimit + 1 := by
  cases h with
  | failed => exact Nat.zero_le _
  | finished => exact Nat.zero_le _
  | awaits => exact Nat.zero_le _
  | fetches hhit rest =>
    have := count_le_of_suspended (.fetches hhit rest)
    omega

end Advances

/-- Wherever a machine has stopped, its computation comes to something. -/
theorem exists_advances (r : Relay) (progress : Except ComputationError Progress) :
    ∃ n, Advances r progress n (r.settle progress).1 (r.settle progress).2 := by
  have hsuspended (r : Relay) (c : Computation) (name : Name) :
      ∃ n, Advances r (.ok (.suspended c name)) n (r.advance c name).1 (r.advance c name).2 := by
    fun_induction advance r c name with
    | case1 r c name hmiss => exact ⟨0, .awaits hmiss⟩
    | case2 r c name content store hhit r' error hresume =>
      exact ⟨1, .fetches hhit (hresume ▸ .failed error)⟩
    | case3 r c name content store hhit r' origin result transitions hresume =>
      exact ⟨1, .fetches hhit (hresume ▸ .finished origin result transitions)⟩
    | case4 r c name content store hhit r' c' name' hresume _ ih =>
      obtain ⟨n, hn⟩ := ih
      exact ⟨n + 1, .fetches hhit (hresume ▸ hn)⟩
  cases progress with
  | error error => exact ⟨0, .failed error⟩
  | ok progress =>
    cases progress with
    | done origin result transitions => exact ⟨0, .finished origin result transitions⟩
    | suspended c name => exact hsuspended r c name

/-- What handing a suspended computation its data comes to. -/
inductive Resumption (r : Relay) (id : ComputationId) (payload : Bytes) :
    Option (Interest × Bytes) → Relay → Prop where
  | missing (hnone : r.computations.get? id = none) :
      Resumption r id payload none
        (r.countFailure (.error (.computation (.unknownComputation id))))
  | advanced {r' : Relay} {c : Computation} {n : Nat} {outcome : Except RelayError Settled}
      (hc : r.computations.get? id = some c)
      (hadvances : Advances { r with computations := r.computations.erase id }
        (c.resume r.computations.stepLimit payload) n outcome r') :
      Resumption r id payload (Settled.result? outcome) (r'.countFailure outcome)

/-- What resuming computations in turn comes to, and whose results are published on the way: those of
each computation before those of the computations that it resumes. -/
inductive Resumes : Relay → List (ComputationId × Bytes) → List ComputationId → Relay → Prop where
  | nil {r : Relay} : Resumes r [] [] r
  | stops {r r' r'' : Relay} {id : ComputationId} {payload : Bytes}
      {rest : List (ComputationId × Bytes)} {published : List ComputationId}
      (h : Resumption r id payload none r') (hrest : Resumes r' rest published r'') :
      Resumes r ((id, payload) :: rest) published r''
  /-- The result is published before the next computation is resumed. -/
  | publishes {r r₁ r₂ r₃ : Relay} {id : ComputationId} {payload : Bytes}
      {rest : List (ComputationId × Bytes)} {origin : Interest} {result : Bytes}
      {below beside : List ComputationId}
      (h : Resumption r id payload (some (origin, result)) r₁)
      (hbelow : Resumes (r₁.announce origin result).2 (r₁.announce origin result).1 below r₂)
      (hbeside : Resumes r₂ rest beside r₃) :
      Resumes r ((id, payload) :: rest) (id :: (below ++ beside)) r₃

private theorem Advances.carryOn_eq {r r' : Relay} {progress : Except ComputationError Progress} {n : Nat}
    {outcome : Except RelayError Settled} (h : Advances r progress n outcome r') :
    r.carryOn progress = (outcome, r'.countFailure outcome) := by
  rw [Relay.carryOn_eq, h.settle_eq]

/-- No number comes to be in use but that of the computation that is taken further. -/
theorem Carried.subperm_ids {r r' : Relay} {id : ComputationId} {outcome : Except RelayError Settled}
    (h : Carried r id outcome r') : r'.computations.ids <+~ id :: r.computations.ids := by
  cases h with
  | stopped => exact (List.sublist_cons_self _ _).subperm
  | joined store stats hid => exact hid ▸ r.computations.subperm_ids_insert _
  | issued store stats source nonces faces nonce hid =>
    exact hid ▸ r.computations.subperm_ids_insert _
  | stranded => exact (List.sublist_cons_self _ _).subperm

private theorem Carried.computations_of_finished {r r' : Relay} {id : ComputationId} {origin : Interest}
    {result : Bytes} (h : Carried r id (.ok (.finished origin result)) r') :
    r'.computations = r.computations := by
  cases h
  rfl

namespace Resumption

variable {r r' : Relay} {id : ComputationId} {payload : Bytes} {result? : Option (Interest × Bytes)}

private theorem carried_of_advances {c : Computation} {n : Nat}
    {outcome : Except RelayError Settled} (hc : r.computations.get? id = some c)
    (hadvances : Advances { r with computations := r.computations.erase id }
      (c.resume r.computations.stepLimit payload) n outcome r') :
    Carried { r with computations := r.computations.erase id } id outcome
      (r'.countFailure outcome) := by
  have hid := (ComputationTable.mem_of_get? hc).2
  have hcarried := carried_carryOn { r with computations := r.computations.erase id }
    fun c' name (h : c.resume r.computations.stepLimit payload = .ok (.suspended c' name)) =>
      And.imp_left (·.trans hid) (Computation.awaiting_of_resume h)
  rw [hadvances.carryOn_eq] at hcarried
  exact hcarried

/-- A computation that is resumed is suspended again under its number, or not at all. -/
theorem subperm_ids (h : Resumption r id payload result? r') :
    r'.computations.ids <+~ r.computations.ids := by
  cases h with
  | missing => exact List.Subperm.refl _
  | @advanced r' c n outcome hc hadvances =>
    have hcarried := carried_of_advances hc hadvances
    have hmem : id ∈ r.computations.ids := ComputationTable.exists_get?_iff.mp ⟨c, hc⟩
    exact hcarried.subperm_ids.trans (ComputationTable.subperm_ids_erase hmem)

/-- A computation that has come to a result is gone. -/
theorem subperm_ids_of_result {origin : Interest} {result : Bytes}
    (h : Resumption r id payload (some (origin, result)) r') :
    id :: r'.computations.ids <+~ r.computations.ids := by
  generalize hresult : some (origin, result) = result? at h
  cases h with
  | missing => cases hresult
  | @advanced r' c n outcome hc hadvances =>
    have hcarried := carried_of_advances hc hadvances
    have hmem : id ∈ r.computations.ids := ComputationTable.exists_get?_iff.mp ⟨c, hc⟩
    unfold Settled.result? at hresult
    split at hresult
    · rw [hcarried.computations_of_finished]
      exact ComputationTable.subperm_ids_erase hmem
    · cases hresult

end Resumption

namespace Resumes

variable {r r' : Relay} {agenda : List (ComputationId × Bytes)} {published : List ComputationId}

/-- What is resumed in turn is resumed in two parts, one after the other. -/
theorem split {first second : List (ComputationId × Bytes)}
    (h : Resumes r (first ++ second) published r') :
    ∃ before after r₁, published = before ++ after ∧ Resumes r first before r₁ ∧
      Resumes r₁ second after r' := by
  induction first generalizing r published with
  | nil => exact ⟨[], published, r, rfl, .nil, h⟩
  | cons head first ih =>
    cases h with
    | stops hhead hrest =>
      obtain ⟨before, after, r₁, rfl, hfirst, hsecond⟩ := ih hrest
      exact ⟨before, after, r₁, rfl, .stops hhead hfirst, hsecond⟩
    | @publishes _ r₁ r₂ _ id payload _ origin result below beside hhead hbelow hbeside =>
      obtain ⟨before, after, r₃, rfl, hfirst, hsecond⟩ := ih hbeside
      refine ⟨id :: (below ++ before), after, r₃, ?_, .publishes hhead hbelow hfirst, hsecond⟩
      rw [List.cons_append, List.append_assoc]

/-- Computations whose results are published were suspended and are so no longer, each of them once. -/
theorem subperm_ids (h : Resumes r agenda published r') :
    published ++ r'.computations.ids <+~ r.computations.ids := by
  induction h with
  | nil => exact List.Subperm.refl _
  | stops h _ ih => exact ih.trans h.subperm_ids
  | @publishes r r₁ r₂ r₃ id payload rest origin result below beside h _ _ ihbelow ihbeside =>
    rw [computations_announce] at ihbelow
    have hrest : below ++ (beside ++ r₃.computations.ids) <+~ r₁.computations.ids :=
      ((List.subperm_append_left below).mpr ihbeside).trans ihbelow
    rw [List.cons_append, List.append_assoc]
    exact ((List.subperm_cons id).mpr hrest).trans h.subperm_ids_of_result

end Resumes

/-- The relay that is about to handle an Interest from a face. -/
def interestReceived (r : Relay) (source : FaceId) : Relay :=
  (r.touch source).count fun s => { s with interestsReceived := s.interestsReceived + 1 }

/-- The relay that is about to handle data from a face. -/
def contentReceived (r : Relay) (source : FaceId) : Relay :=
  (r.touch source).count fun s => { s with contentReceived := s.contentReceived + 1 }

/-- The relay that is about to read the expression in an Interest. -/
def reductionStarted (r : Relay) : Relay :=
  r.count fun s => { s with computationsStarted := s.computationsStarted + 1 }

/-- Whether an Interest has its expression reduced. -/
def Reduces (r : Relay) (interest : Interest) : Prop :=
  r.store.lookup interest r.clock = none ∧ r.pending.findSame interest = none ∧
    interest.name.flags.expression = true

/-- What the reduction of an expression comes to, and whose results are published: that of the
computation that is created before those of the computations that it resumes. -/
inductive Reduction (r : Relay) (interest : Interest) :
    List ComputationId → Except RelayError InterestOutcome → Relay → Prop where
  | failed {r' : Relay} {n : Nat} {error : RelayError}
      (h : Advances (r.reductionStarted.beginComputation interest).2
        (r.reductionStarted.beginComputation interest).1 n (.error error) r') :
      Reduction r interest [] (.error error) (r'.countFailure (.error error))
  | suspended {r' : Relay} {n : Nat} {id : ComputationId}
      (h : Advances (r.reductionStarted.beginComputation interest).2
        (r.reductionStarted.beginComputation interest).1 n (.ok (.waiting id)) r') :
      Reduction r interest [] (.ok (.suspended id)) r'
  | publishes {r₁ r₂ : Relay} {n : Nat} {origin : Interest} {result : Bytes}
      {published : List ComputationId}
      (h : Advances (r.reductionStarted.beginComputation interest).2
        (r.reductionStarted.beginComputation interest).1 n (.ok (.finished origin result)) r₁)
      (hbelow : Resumes (r₁.announce origin result).2 (r₁.announce origin result).1 published r₂) :
      Reduction r interest (⟨r.computations.nextId⟩ :: published) (.ok .computed) r₂

/-- What the handling of an Interest comes to, and whose results are published on the way. -/
inductive InterestCall (r : Relay) (source : FaceId) (interest : Interest) :
    List ComputationId → Except RelayError InterestOutcome → Relay → Prop where
  | unknown (hsource : ¬ r.faces.contains source = true) :
      InterestCall r source interest [] (.error (.unknownFace source)) r
  | looped {r' : Relay} (hsource : r.faces.contains source = true)
      (haccept : (r.interestReceived source).accept interest = (none, r')) :
      InterestCall r source interest [] (.error (.duplicateNonce (interest.nonce.getD 0))) r'.drop
  /-- Nothing is reduced; an answer or a way is found, or none, without a loop. -/
  | direct {r' : Relay} {accepted : Interest} (hsource : r.faces.contains source = true)
      (haccept : (r.interestReceived source).accept interest = (some accepted, r'))
      (hdirect : ¬ r'.Reduces accepted) :
      InterestCall r source interest [] (r'.resolve source accepted).1 (r'.resolve source accepted).2
  | reduced {r' r'' : Relay} {accepted : Interest} {published : List ComputationId}
      {outcome : Except RelayError InterestOutcome} (hsource : r.faces.contains source = true)
      (haccept : (r.interestReceived source).accept interest = (some accepted, r'))
      (hreduces : r'.Reduces accepted)
      (h : Reduction { r' with pending := (r'.pending.insert accepted (.face source) r'.clock).2 }
        accepted published outcome r'') :
      InterestCall r source interest published outcome r''

/-- What the handling of data comes to, and whose results are published on the way. -/
inductive ContentCall (r : Relay) (source : FaceId) (content : Content) :
    List ComputationId → Except RelayError ContentOutcome → Relay → Prop where
  | unknown (hsource : ¬ r.faces.contains source = true) :
      ContentCall r source content [] (.error (.unknownFace source)) r
  | unsolicited {pending : PendingTable} (hsource : r.faces.contains source = true)
      (htake : (r.contentReceived source).pending.takeAnswered content = ([], pending)) :
      ContentCall r source content [] (.ok .unsolicited)
        ((r.contentReceived source).count fun s =>
          { s with contentUnsolicited := s.contentUnsolicited + 1 })
  | delivered {r' r'' : Relay} {pending : PendingTable} {e : PendingEntry}
      {entries : List PendingEntry} {faces : Nat} {waiting published : List ComputationId}
      (hsource : r.faces.contains source = true)
      (htake : (r.contentReceived source).pending.takeAnswered content = (e :: entries, pending))
      (hserve : ({ r.contentReceived source with pending }.cache content false).serve content
        (e :: entries) = ((faces, waiting), r'))
      (h : Resumes r' (waiting.map fun id => (id, content.payload)) published r'') :
      ContentCall r source content published (.ok (.delivered faces waiting.length)) r''

private theorem carried_of_reduction {r r' : Relay} {interest : Interest} {n : Nat}
    {outcome : Except RelayError Settled}
    (h : Advances (r.reductionStarted.beginComputation interest).2
      (r.reductionStarted.beginComputation interest).1 n outcome r') :
    Carried (r.reductionStarted.beginComputation interest).2 ⟨r.computations.nextId⟩ outcome
      (r'.countFailure outcome) := by
  have hcarried := r.reductionStarted.carried_beginComputation interest
  rw [h.carryOn_eq] at hcarried
  exact hcarried

/-- Besides the computations that were suspended, there is one that is created. -/
theorem Reduction.subperm_ids {r r' : Relay} {interest : Interest} {published : List ComputationId}
    {outcome : Except RelayError InterestOutcome} (h : Reduction r interest published outcome r') :
    published ++ r'.computations.ids <+~ ⟨r.computations.nextId⟩ :: r.computations.ids := by
  have hids : (r.reductionStarted.beginComputation interest).2.computations.ids =
      r.computations.ids :=
    congrArg (List.map Computation.id) (r.reductionStarted.suspended_beginComputation interest)
  cases h with
  | failed h =>
    rw [← hids]
    exact (carried_of_reduction h).subperm_ids
  | suspended h =>
    rw [← hids]
    exact (carried_of_reduction h).subperm_ids
  | @publishes r₁ _ n origin result published h hbelow =>
    have hfinished : r₁.computations =
        (r.reductionStarted.beginComputation interest).2.computations :=
      (carried_of_reduction h).computations_of_finished
    have hpublished := hbelow.subperm_ids
    rw [computations_announce, hfinished, hids] at hpublished
    exact (List.subperm_cons _).mpr hpublished

/-- A computation is begun and taken further, and its result published if it has one. -/
theorem startComputation_eq (r : Relay) (interest : Interest) :
    r.startComputation interest =
      match (r.reductionStarted.beginComputation interest).2.carryOn
        (r.reductionStarted.beginComputation interest).1 with
      | (.error error, r) => (.error error, r)
      | (.ok (.waiting id), r) => (.ok (.suspended id), r)
      | (.ok (.finished origin result), r) => (.ok .computed, r.publish origin result) := rfl

/-- Aggregating an Interest leaves the computations. -/
theorem computations_aggregate (r : Relay) (source : FaceId) (interest : Interest)
    (id : PendingId) : (r.aggregate source interest id).2.computations = r.computations := by
  rw [snd_aggregate]
  split
  · exact computations_propagate _ _
  · rfl

/-- Forwarding an Interest leaves the computations. -/
theorem computations_forward (r : Relay) (source : FaceId) (interest : Interest) :
    (r.forward source interest).2.computations = r.computations := by
  rw [snd_forward]
  split
  · exact computations_propagate _ _
  · exact computations_propagate _ _

/-- An Interest that has nothing reduced leaves computations alone. -/
theorem computations_resolve {r : Relay} {interest : Interest} (h : ¬ r.Reduces interest)
    (source : FaceId) : (r.resolve source interest).2.computations = r.computations := by
  cases hlookup : r.store.lookup interest r.clock with
  | some found =>
    rw [snd_resolve_of_some hlookup]
    split
    · exact computations_send _ _ _
    · exact computations_send _ _ _
  | none =>
    rw [resolve, hlookup]
    cases hsame : r.pending.findSame interest with
    | some id => exact r.computations_aggregate source interest id
    | none =>
      dsimp only
      split
      · next hexpression => exact absurd ⟨hlookup, hsame, hexpression⟩ h
      · exact r.computations_forward source interest

/-- An expression that is neither cached nor pending starts a computation. -/
theorem resolve_of_reduces {r : Relay} {interest : Interest} (h : r.Reduces interest)
    (source : FaceId) :
    r.resolve source interest =
      { r with pending := (r.pending.insert interest (.face source) r.clock).2 }.startComputation
        interest := by
  obtain ⟨hmiss, hnone, hexpression⟩ := h
  simp only [resolve, hmiss, hnone, hexpression, if_true]

private theorem InterestCall.subperm_ids {r r' : Relay} {source : FaceId} {interest : Interest}
    {published : List ComputationId} {outcome : Except RelayError InterestOutcome}
    (h : InterestCall r source interest published outcome r') :
    published ++ r'.computations.ids <+~ ⟨r.computations.nextId⟩ :: r.computations.ids := by
  have haccepted {accepted : Option Interest} {r' : Relay}
      (haccept : (r.interestReceived source).accept interest = (accepted, r')) :
      r'.computations = r.computations := by
    obtain ⟨nonces, nonceSource, heq⟩ := accept_eq (r.interestReceived source) interest
    rw [haccept] at heq
    dsimp only at heq
    rw [heq]
    rfl
  cases h with
  | unknown => exact (List.sublist_cons_self _ _).subperm
  | looped hsource haccept =>
    rw [← haccepted haccept]
    exact (List.sublist_cons_self _ _).subperm
  | @direct r' accepted hsource haccept hdirect =>
    rw [computations_resolve hdirect, ← haccepted haccept]
    exact (List.sublist_cons_self _ _).subperm
  | reduced hsource haccept hreduces h =>
    rw [← haccepted haccept]
    exact h.subperm_ids

private theorem ContentCall.subperm_ids {r r' : Relay} {source : FaceId} {content : Content}
    {published : List ComputationId} {outcome : Except RelayError ContentOutcome}
    (h : ContentCall r source content published outcome r') :
    published ++ r'.computations.ids <+~ r.computations.ids := by
  cases h with
  | unknown => exact List.Subperm.refl _
  | unsolicited => exact List.Subperm.refl _
  | @delivered r₁ _ pending e entries faces waiting _ hsource htake hserve h =>
    have hcomputations : r₁.computations = r.computations := by
      have hserved := congrArg (fun x => x.2.computations) hserve
      rw [← hserved]
      exact computations_cache { r.contentReceived source with pending } content false
    rw [← hcomputations]
    exact h.subperm_ids

end NamedFunctions.Relay
