import Mathlib.Control.Monad.Basic
import NamedFunctions.Proofs.Machine.Run

/-!
# Limits of runs

A limit cuts a run off and makes no other difference. A run takes at most as many steps as the limit leaves,
and one more; it is cut off by the step that makes them one too many in all, those of earlier runs of the
machine included.
-/

namespace NamedFunctions.Machine

variable {m m₁ m' : Machine} {result : Except ComputationError Outcome} {limit n k : Nat} {t : Term}

/-- Steps are taken until the machine goes no further, or until they are more in all than a limit: how many
of them are counted, what comes of it, and the machine as it is then. -/
inductive Runs (limit : Nat) :
    Machine → Nat → Except ComputationError Outcome → Machine → Prop where
  | ends {m m' : Machine} {result : Except ComputationError Outcome} (h : m.Ends result m') :
      Runs limit m 0 result m'
  | cutOff {m m' : Machine} (h : m.step = .ok (.next, m')) (hlimit : limit < m'.steps) :
      Runs limit m 1 (.error (.stepLimit limit)) m'
  | next {m m₁ m' : Machine} {n : Nat} {result : Except ComputationError Outcome}
      (h : m.step = .ok (.next, m₁)) (hlimit : m₁.steps ≤ limit)
      (rest : Runs limit m₁ n result m') : Runs limit m (n + 1) result m'

/-- A machine for a term that has taken steps, run and been handed data, in any order, and how many steps
were counted over all that. -/
inductive History (t : Term) : Nat → Machine → Prop where
  | new : History t 0 (ofTerm t)
  | step {n : Nat} {m m' : Machine} {step : Step} (h : History t n m)
      (hstep : m.step = .ok (step, m')) : History t (if step = .next then n + 1 else n) m'
  | run {n k limit : Nat} {m m' : Machine} {result : Except ComputationError Outcome}
      (h : History t n m) (hrun : Runs limit m k result m') : History t (n + k) m'
  | resume {n : Nat} {m m' : Machine} {payload : Bytes} (h : History t n m)
      (hresume : m.resume payload = .ok m') : History t n m'

private theorem steps_of_resume {payload : Bytes} (h : m.resume payload = .ok m') : m'.steps = m.steps := by
  unfold resume at h
  split at h
  · cases h
  · cases h
    rfl

/-- A run is made of steps. -/
theorem exists_runs (limit : Nat) (m : Machine) :
    ∃ n, Runs limit m n (m.run limit).1 (m.run limit).2 := by
  fun_induction Machine.run limit m with
  | case1 m error hs => exact ⟨0, .ends (.error hs)⟩
  | case2 m value m₁ hs => exact ⟨0, .ends (.done hs)⟩
  | case3 m name m₁ hs => exact ⟨0, .ends (.suspended hs)⟩
  | case4 m m₁ hs hcount hlimit => exact ⟨1, .cutOff hs hlimit⟩
  | case5 m m₁ hs hcount hlimit ih =>
    obtain ⟨n, hrest⟩ := ih
    exact ⟨n + 1, .next hs (Nat.le_of_not_lt hlimit) hrest⟩

namespace Runs

/-- A run comes to what its steps come to. -/
theorem run_eq (h : Runs limit m n result m') : m.run limit = (result, m') := by
  induction h with
  | ends h => exact h.run limit
  | cutOff h hlimit =>
    rw [Machine.run_eq, h]
    exact if_pos hlimit
  | next h hlimit _ ih =>
    rw [Machine.run_eq, h]
    exact (if_neg (Nat.not_lt.mpr hlimit)).trans ih

/-- Each step of a run that is counted is counted once. -/
theorem steps_eq (h : Runs limit m n result m') : m'.steps = m.steps + n := by
  induction h with
  | ends h => exact h.steps_eq
  | cutOff h => exact steps_of_step_next h
  | next h _ _ ih =>
    rw [ih, steps_of_step_next h]
    omega

/-- A run that is not cut off stays within its limit. -/
theorem steps_le (h : Runs limit m n result m') (hm : m.steps ≤ limit)
    (hresult : result ≠ .error (.stepLimit limit)) : m'.steps ≤ limit := by
  induction h with
  | ends h =>
    rw [h.steps_eq]
    exact hm
  | cutOff => exact absurd rfl hresult
  | next _ hlimit _ ih => exact ih hlimit hresult

/-- A run that is not cut off is the same under a higher limit. -/
theorem mono (h : Runs limit m n result m') (hresult : result ≠ .error (.stepLimit limit))
    {limit' : Nat} (hle : limit ≤ limit') : Runs limit' m n result m' := by
  induction h with
  | ends h => exact .ends h
  | cutOff => exact absurd rfl hresult
  | next h hlimit _ ih => exact .next h (Nat.le_trans hlimit hle) (ih hresult)

end Runs

/-- What the counters of a machine say is how many steps were counted since it began. -/
theorem History.steps_eq (h : History t n m) : m.steps = n := by
  induction h with
  | new => rfl
  | @step n m m' step _ hstep ih =>
    cases step with
    | next => rw [steps_of_step_next hstep, ih, if_pos rfl]
    | done => rw [Ends.steps_eq (.done hstep), ih, if_neg (by simp)]
    | suspend => rw [Ends.steps_eq (.suspended hstep), ih, if_neg (by simp)]
  | run _ hrun ih => rw [hrun.steps_eq, ih]
  | resume _ hresume ih => rw [steps_of_resume hresume, ih]

end NamedFunctions.Machine
