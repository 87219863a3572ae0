import NamedFunctions.Proofs.Relay.Invariant

/-!
# For whom a computation works

A computation is begun for an Interest, and works for this Interest as long as it is suspended and however
often it is resumed. Its number is not given to another one.
-/

namespace NamedFunctions

/-- The Interest that a computation is for, wherever its machine has stopped. -/
def Progress.origin : Progress → Interest
  | done origin _ _ => origin
  | suspended c _ => c.origin

namespace Computation

/-- Driving a computation leaves its origin. -/
theorem origin_of_drive {limit : Nat} {c : Computation} {progress : Progress}
    (h : c.drive limit = .ok progress) : progress.origin = c.origin := by
  unfold drive at h
  split at h
  · cases h
  · cases h
    rfl
  · split at h
    · cases h
    · cases h
      rfl

private theorem origin_of_resume {limit : Nat} {c : Computation} {payload : Bytes} {progress : Progress}
    (h : c.resume limit payload = .ok progress) : progress.origin = c.origin := by
  unfold resume at h
  split at h
  · cases h
  · have hdrive := origin_of_drive h
    exact hdrive

end Computation

namespace ComputationTable

variable {table table' table'' : ComputationTable}

/-- A computation is created for its origin. -/
theorem origin_of_create {interest : Interest} {c : Computation}
    (h : table.create interest = .ok (c, table')) : c.origin = interest := by
  unfold create at h
  cases hexpression : Computation.expression interest with
  | error error =>
    rw [hexpression] at h
    cases h
  | ok term =>
    rw [hexpression] at h
    cases h
    rfl

/-- The computations are those that were there, and the one that is put in. -/
theorem mem_insert {c c' : Computation} (h : c' ∈ (table.insert c).suspended) :
    c' = c ∨ c' ∈ table.suspended := by
  rcases List.mem_append.mp h with h | h
  · exact .inr (List.mem_of_mem_filter h)
  · rcases List.mem_cons.mp h with rfl | h
    · exact .inl rfl
    · exact .inr (List.mem_of_mem_filter h)

/-- Whether the computations that are suspended later, unless they were begun in between, were suspended
before and work for the same Interests. -/
structure Continues (table table' : ComputationTable) : Prop where
  nextId_le : table.nextId ≤ table'.nextId
  exists_origin : ∀ c' ∈ table'.suspended, c'.id.val < table.nextId →
    ∃ c ∈ table.suspended, c.id = c'.id ∧ c.origin = c'.origin

namespace Continues

private theorem refl (table : ComputationTable) : table.Continues table :=
  ⟨Nat.le_refl _, fun c hc _ => ⟨c, hc, rfl, rfl⟩⟩

/-- Continuing goes on. -/
theorem trans (h : table.Continues table') (h' : table'.Continues table'') :
    table.Continues table'' := by
  refine ⟨Nat.le_trans h.nextId_le h'.nextId_le, fun c'' hc'' hbelow => ?_⟩
  obtain ⟨c', hc', hid', horigin'⟩ :=
    h'.exists_origin c'' hc'' (Nat.lt_of_lt_of_le hbelow h.nextId_le)
  obtain ⟨c, hc, hid, horigin⟩ := h.exists_origin c' hc' (hid' ▸ hbelow)
  exact ⟨c, hc, hid.trans hid', horigin.trans horigin'⟩

private theorem filter (h : table.Continues table') (keep : Computation → Bool) :
    table.Continues { table' with suspended := table'.suspended.filter keep } :=
  ⟨h.nextId_le, fun c hc => h.exists_origin c (List.mem_of_mem_filter hc)⟩

/-- A computation may be put in its place that was suspended before, or that is new. -/
theorem insert (h : table.Continues table') {c : Computation}
    (hc : c.id.val < table.nextId → ∃ c₀ ∈ table.suspended, c₀.id = c.id ∧ c₀.origin = c.origin) :
    table.Continues (table'.insert c) := by
  refine ⟨h.nextId_le, fun c' hc' hbelow => ?_⟩
  rcases mem_insert hc' with rfl | hc'
  · exact hc hbelow
  · exact h.exists_origin c' hc' hbelow

end Continues

end ComputationTable

namespace Relay

/-- What a computation for an Interest comes to, and the suspended computations then. -/
inductive Settles (table : ComputationTable) (id : ComputationId) (origin : Interest) :
    Except RelayError Settled → ComputationTable → Prop where
  | finished (result : Bytes) : Settles table id origin (.ok (.finished origin result)) table
  | waiting {c : Computation} (hid : c.id = id) (horigin : c.origin = origin) :
      Settles table id origin (.ok (.waiting id)) (table.insert c)
  | failed (error : RelayError) : Settles table id origin (.error error) table

/-- A computation that is settled finishes with its own origin. -/
theorem Settles.origin_eq {table table' : ComputationTable} {id : ComputationId}
    {origin origin' : Interest} {result : Bytes}
    (h : Settles table id origin (.ok (.finished origin' result)) table') : origin' = origin := by
  cases h
  rfl

/-- A computation that waits once it is settled is in the table. -/
theorem Settles.exists_waiting {table table' : ComputationTable} {id id' : ComputationId}
    {origin : Interest} (h : Settles table id origin (.ok (.waiting id')) table') :
    ∃ c ∈ table'.suspended, c.id = id' ∧ c.origin = origin := by
  cases h with
  | @waiting c hid horigin =>
    exact ⟨c, List.mem_append_right _ List.mem_cons_self, hid, horigin⟩

private theorem settles_await (r : Relay) (c : Computation) (name : Name) :
    Settles r.computations c.id c.origin (r.await c name).1 (r.await c name).2.computations := by
  have hasked : (r.asked c name).2.computations = r.computations :=
    computations_propagate (r.asking c name) _
  unfold await
  split
  · exact .waiting rfl rfl
  · rw [issue_eq]
    split
    · dsimp only
      rw [hasked]
      exact .waiting rfl rfl
    · dsimp only
      rw [hasked]
      exact .failed _

private theorem settles_advance (r : Relay) (c : Computation) (name : Name) :
    Settles r.computations c.id c.origin (r.advance c name).1 (r.advance c name).2.computations := by
  fun_induction advance r c name with
  | case1 r c name => exact r.settles_await c name
  | case2 => exact .failed _
  | case3 r c name content store _ r' origin result _ hresume =>
    obtain rfl : origin = c.origin := Computation.origin_of_resume hresume
    exact .finished result
  | case4 r c name content store _ r' c' name' hresume _ ih =>
    have hid := (Computation.awaiting_of_resume hresume).1
    have horigin : c'.origin = c.origin := Computation.origin_of_resume hresume
    rw [hid, horigin] at ih
    exact ih

private theorem settles_carryOn (r : Relay) {id : ComputationId} {origin : Interest}
    {progress : Except ComputationError Progress}
    (hid : ∀ c name, progress = .ok (.suspended c name) → c.id = id)
    (horigin : ∀ reached, progress = .ok reached → reached.origin = origin) :
    Settles r.computations id origin (r.carryOn progress).1 (r.carryOn progress).2.computations := by
  have hsettled : Settles r.computations id origin (r.settle progress).1
      (r.settle progress).2.computations := by
    unfold settle
    split
    · exact .failed _
    · next origin' result transitions =>
      obtain rfl : origin' = origin := horigin _ rfl
      exact .finished result
    · next c name =>
      obtain rfl := hid c name rfl
      obtain rfl : c.origin = origin := horigin _ rfl
      exact r.settles_advance c name
  have hcounted : ((r.settle progress).2.countFailure (r.settle progress).1).computations =
      (r.settle progress).2.computations := by
    cases (r.settle progress).1 <;> rfl
  rw [carryOn_eq]
  dsimp only
  rw [hcounted]
  exact hsettled

/-- A computation that is resumed goes on to work for its Interest. -/
theorem settles_resume {r : Relay} {id : ComputationId} {c : Computation}
    (hc : r.computations.get? id = some c) (payload : Bytes) :
    Settles (r.computations.erase id) id c.origin
      ({ r with computations := r.computations.erase id }.carryOn
        (c.resume r.computations.stepLimit payload)).1
      ({ r with computations := r.computations.erase id }.carryOn
        (c.resume r.computations.stepLimit payload)).2.computations := by
  apply settles_carryOn { r with computations := r.computations.erase id }
  · intro c' name h
    rw [(Computation.awaiting_of_resume h).1]
    exact (ComputationTable.mem_of_get? hc).2
  · intro reached h
    exact Computation.origin_of_resume h

/-- A computation that is begun works for the Interest with the expression. -/
theorem settles_begin (r : Relay) (interest : Interest) :
    Settles (r.beginComputation interest).2.computations ⟨r.computations.nextId⟩ interest
      ((r.beginComputation interest).2.carryOn (r.beginComputation interest).1).1
      ((r.beginComputation interest).2.carryOn (r.beginComputation interest).1).2.computations := by
  apply settles_carryOn
  · intro c name h
    exact (awaiting_of_beginComputation h).1
  · intro reached h
    unfold beginComputation at h
    split at h
    · cases h
    · next c computations hcreate =>
      rw [← ComputationTable.origin_of_create hcreate]
      exact Computation.origin_of_drive h

private theorem Settles.continues {table table₀ table' : ComputationTable} {id : ComputationId}
    {origin : Interest} {outcome : Except RelayError Settled}
    (h : Settles table id origin outcome table') (hbefore : table₀.Continues table)
    (hid : id.val < table₀.nextId → ∃ c₀ ∈ table₀.suspended, c₀.id = id ∧ c₀.origin = origin) :
    table₀.Continues table' := by
  cases h with
  | finished => exact hbefore
  | waiting hc horigin =>
    subst hc horigin
    exact hbefore.insert hid
  | failed => exact hbefore

private theorem continues_begin {table : ComputationTable} {r : Relay} (h : table.Continues r.computations)
    (interest : Interest) :
    table.Continues
      ((r.beginComputation interest).2.carryOn (r.beginComputation interest).1).2.computations := by
  refine (r.settles_begin interest).continues ?_ fun hbelow => ?_
  · refine ⟨Nat.le_trans h.nextId_le ?_, ?_⟩
    · unfold beginComputation
      split
      · exact Nat.le_refl _
      · next hcreate =>
        obtain ⟨-, rfl⟩ := ComputationTable.eq_of_create hcreate
        exact Nat.le_succ _
    · rw [suspended_beginComputation]
      exact h.exists_origin
  · exact absurd hbelow (Nat.not_lt.mpr h.nextId_le)

private theorem continues_resumeComputation {table : ComputationTable} {r : Relay}
    (h : table.Continues r.computations) (id : ComputationId) (payload : Bytes) :
    table.Continues (r.resumeComputation id payload).2.computations := by
  cases hc : r.computations.get? id with
  | none =>
    rw [resumeComputation_of_none hc]
    exact h
  | some c =>
    rw [resumeComputation_of_some hc]
    refine (settles_resume hc payload).continues (h.filter _) fun hbelow => ?_
    obtain ⟨hmem, rfl⟩ := ComputationTable.mem_of_get? hc
    exact h.exists_origin c hmem hbelow

/-- Suspended computations go on to work for their Interests through every operation, and at each event on
the way. -/
theorem continues_perform (r : Relay) (op : Operation) :
    r.computations.Continues (r.perform op).computations ∧
      ∀ event ∈ r.journal op, r.computations.Continues event.before.computations := by
  have hkept : Kept (r.Alters op) fun s => r.computations.Continues s.computations :=
    { aside := fun hs _ hcomputations => hcomputations ▸ hs
      alter := fun hs _ => hs
      resume := fun id payload hs => continues_resumeComputation hs id payload
      begin := fun interest hs => continues_begin hs interest
      discard := fun keep hs => hs.filter keep }
  exact hkept.perform (.refl _)

/-- The computations of a relay continue through any operations. -/
theorem continues_performAll (r : Relay) (ops : List Operation) :
    r.computations.Continues (r.performAll ops).computations := by
  induction ops generalizing r with
  | nil => exact .refl _
  | cons op ops ih => exact (r.continues_perform op).1.trans (ih (r.perform op))

end Relay

end NamedFunctions
