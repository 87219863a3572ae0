import NamedFunctions.Machine

/-!
# Runs of the abstract machine

A run comes to what the steps of the machine come to, unless it takes more of them than its limit allows.
-/

namespace NamedFunctions.Machine

/-- What a machine that goes no further comes to, and the machine as it is then. -/
inductive Ends (m : Machine) : Except ComputationError Outcome → Machine → Prop where
  | done {m' : Machine} {value : Value} (h : m.step = .ok (.done value, m')) :
      Ends m (.ok (.done value)) m'
  | suspended {m' : Machine} {name : String} (h : m.step = .ok (.suspend name, m')) :
      Ends m (.ok (.suspended name)) m'
  | error {error : ComputationError} (h : m.step = .error error) : Ends m (.error error) m

/-- What a machine comes to if nothing limits its steps, and the machine as it is then. -/
inductive Yields : Machine → Except ComputationError Outcome → Machine → Prop where
  | ends {m m' : Machine} {result : Except ComputationError Outcome} (h : m.Ends result m') :
      Yields m result m'
  | next {m m₁ m' : Machine} {result : Except ComputationError Outcome}
      (h : m.step = .ok (.next, m₁)) (hrest : Yields m₁ result m') : Yields m result m'

/-- A machine goes on or has come to its end. -/
theorem exists_next_or_ends (m : Machine) :
    (∃ m', m.step = .ok (.next, m')) ∨ ∃ result m', m.Ends result m' := by
  rcases h : m.step with error | ⟨step, m'⟩
  · exact .inr ⟨_, _, .error h⟩
  · cases step with
    | next => exact .inl ⟨m', rfl⟩
    | done value => exact .inr ⟨_, _, .done h⟩
    | suspend name => exact .inr ⟨_, _, .suspended h⟩

/-- A machine that has come to its end does not go on. -/
theorem Ends.step_ne_next {m m₁ m' : Machine} {result : Except ComputationError Outcome}
    (h : m.Ends result m₁) : m.step ≠ .ok (.next, m') := by
  intro hnext
  cases h with
  | done h =>
    rw [hnext] at h
    cases h
  | suspended h =>
    rw [hnext] at h
    cases h
  | error h =>
    rw [hnext] at h
    cases h

/-- A machine that is done stays as it is. -/
theorem eq_of_step_done {m m' : Machine} {value : Value} (h : m.step = .ok (.done value, m')) :
    m' = m := by
  have finished {name : String} {value' : Value}
      (h : m.finish name value' = .ok (.done value, m')) : m' = m := by
    unfold finish at h
    split at h
    · cases h
      rfl
    · cases h
  unfold step at h
  split at h
  · cases h
  · cases h
  · split at h
    · cases h
    · split at h
      · cases h
        rfl
      · cases h
  · split at h
    · cases h
    · split at h
      · cases h
      · exact finished h
      · split at h
        · cases h
        · exact finished h

/-- The end of a run takes no step. -/
theorem Ends.steps_eq {m m' : Machine} {result : Except ComputationError Outcome}
    (h : m.Ends result m') : m'.steps = m.steps := by
  cases h with
  | done h => rw [eq_of_step_done h]
  | suspended h => exact steps_of_step_suspend h
  | error h => rfl

/-- Steps are never taken back. -/
theorem Yields.steps_le {m m' : Machine} {result : Except ComputationError Outcome}
    (h : m.Yields result m') : m.steps ≤ m'.steps := by
  induction h with
  | ends h => exact Nat.le_of_eq h.steps_eq.symm
  | next h _ ih =>
    rw [steps_of_step_next h] at ih
    exact Nat.le_of_succ_le ih

/-- A run takes a step and goes on from there. -/
theorem run_eq (limit : Nat) (m : Machine) :
    m.run limit =
      match m.step with
      | .error error => (.error error, m)
      | .ok (.done value, m') => (.ok (.done value), m')
      | .ok (.suspend name, m') => (.ok (.suspended name), m')
      | .ok (.next, m') =>
        if m'.steps > limit then (.error (.stepLimit limit), m') else m'.run limit := by
  rw [run]
  split
  · next h => rw [h]
  · next h => rw [h]
  · next h => rw [h]
  · next h => simp only [h]

/-- No limit is exceeded where a machine goes no further. -/
theorem Ends.run {m m' : Machine} {result : Except ComputationError Outcome}
    (h : m.Ends result m') (limit : Nat) : m.run limit = (result, m') := by
  cases h with
  | done h => rw [run_eq, h]
  | suspended h => rw [run_eq, h]
  | error h => rw [run_eq, h]

/-- A machine goes no further in one way only. -/
theorem Ends.result_eq {m m₁ m₂ : Machine} {result₁ result₂ : Except ComputationError Outcome}
    (h₁ : m.Ends result₁ m₁) (h₂ : m.Ends result₂ m₂) : result₁ = result₂ :=
  congrArg Prod.fst ((h₁.run 0).symm.trans (h₂.run 0))

/-- A limit that is not exceeded makes no difference. -/
theorem Yields.run {m m' : Machine} {result : Except ComputationError Outcome} {limit : Nat}
    (h : m.Yields result m') (hlimit : m'.steps ≤ limit) : m.run limit = (result, m') := by
  induction h with
  | ends h => exact h.run limit
  | next h hrest ih =>
    have hle := Nat.le_trans hrest.steps_le hlimit
    rw [run_eq, h]
    simp only [if_neg (Nat.not_lt.mpr hle)]
    exact ih hlimit

/-- A run that does not exceed its limit comes to what the steps of the machine come to. -/
theorem yields_of_run {limit : Nat} {m m' : Machine} {result : Except ComputationError Outcome}
    (h : m.run limit = (result, m')) (hresult : result ≠ .error (.stepLimit limit)) :
    m.Yields result m' := by
  fun_induction Machine.run limit m with
  | case1 m error hs =>
    cases h
    exact .ends (.error hs)
  | case2 m value m₁ hs =>
    cases h
    exact .ends (.done hs)
  | case3 m name m₁ hs =>
    cases h
    exact .ends (.suspended hs)
  | case4 m m₁ hs hcount hlimit =>
    cases h
    exact absurd rfl hresult
  | case5 m m₁ hs hcount hlimit ih => exact .next hs (ih h)

end NamedFunctions.Machine
