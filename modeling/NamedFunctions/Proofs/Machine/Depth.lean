import NamedFunctions.Proofs.Machine.Readback
import NamedFunctions.Proofs.Term.Reading

/-!
# How deep terms get

A text is never read as a term of too many levels. A closure is read back with the levels of the term that
it stands for, and given up exactly if these are too many: variables that lead to variables add none, and
neither does what is put in their place take any away. Which names binders are given, and whether they
capture others, makes no difference to that.
-/

namespace NamedFunctions

namespace Term

/-- The levels of a term in which free variables have some of their own. -/
def depthWith (δ : String → Nat) : Term → Nat
  | var x => δ x
  | app f a => max (f.depthWith δ) (a.depthWith δ) + 1
  | abs x b => b.depthWith (fun z => if z = x then 1 else δ z) + 1

private theorem image_cons (x : String) (u : Term) (σ : List (String × Term)) (z : String) :
    image ((x, u) :: σ) z = if z = x then u else image σ z := by
  rw [image, List.lookup_cons]
  by_cases h : z = x
  · rw [if_pos h, beq_iff_eq.mpr h]
    rfl
  · rw [if_neg h, beq_eq_false_iff_ne.mpr h, image]

/-- What is put in the place of variables adds its levels there, whatever names binders take. -/
theorem depth_substitute (t : Term) (σ : List (String × Term)) :
    (t.substitute σ).depth = t.depthWith fun x => (image σ x).depth := by
  induction t generalizing σ with
  | var x => rfl
  | app f a hf ha => rw [substitute, depth, depthWith, hf, ha]
  | abs x b hb =>
    rw [substitute, depth, depthWith, hb]
    congr 2
    funext z
    rw [image_cons]
    split
    · rfl
    · rfl

end Term

namespace Readback

/-- The levels of a variable at a place: one if it is bound around the place, and those of what the
environment says otherwise. -/
def depthAt (scope : Scope) (env : Env) (x : String) : Nat :=
  if (scope.lookup x).isSome then 1 else (Term.image env.terms x).depth

/-- The levels of what stands at a place. -/
def Shape.depth : Shape → Nat
  | .variable _ => 1
  | .application f a env scope =>
    max (f.depthWith (depthAt scope env)) (a.depthWith (depthAt scope env)) + 1
  | .abstraction param b env scope =>
    b.depthWith (fun z => if z = param then 1 else depthAt scope env z) + 1

private theorem depthAt_nil (env : Env) : depthAt [] env = fun x => (Term.image env.terms x).depth := rfl

/-- A binder gives its parameter one level, and leaves the others alone. -/
theorem depthAt_cons (param unique : String) (scope : Scope) (env : Env) :
    depthAt ((param, unique) :: scope) env =
      fun z => if z = param then 1 else depthAt scope env z := by
  funext z
  rw [depthAt, List.lookup_cons]
  by_cases h : z = param
  · rw [if_pos h, beq_iff_eq.mpr h]
    rfl
  · rw [if_neg h, beq_eq_false_iff_ne.mpr h, depthAt]

/-- Variables that lead to variables have the levels of where they lead. -/
theorem depth_resolve (env : Env) (x : String) :
    (resolve env x).depth = (Term.image env.terms x).depth := by
  induction env generalizing x with
  | empty => rfl
  | bind name term env rest henv hrest =>
    rw [resolve.eq_def, Env.terms, Term.image_cons]
    dsimp only
    by_cases h : x = name
    · rw [if_pos h, if_pos h.symm, Term.depth_substitute, ← depthAt_nil]
      cases term with
      | var y => exact henv y
      | app f a => rfl
      | abs param b => rfl
    · rw [if_neg h, if_neg (Ne.symm h)]
      exact hrest x

private theorem depth_shape (env : Env) (scope : Scope) (t : Term) :
    (shape env scope t).depth = t.depthWith (depthAt scope env) := by
  cases t with
  | var x =>
    rw [shape, Term.depthWith, depthAt]
    cases scope.lookup x with
    | some unique => rfl
    | none => exact depth_resolve env x
  | app f a => rfl
  | abs param b => rfl

private theorem Shape.depth_pos (s : Shape) : 0 < s.depth := by
  cases s <;> simp [depth]

/-- A number of levels, unless it is more than so many. -/
def atMost (levels depth : Nat) : Option Nat := if depth ≤ levels then some depth else none

private theorem atMost_eq_none_iff {levels depth : Nat} : atMost levels depth = none ↔ levels < depth := by
  simp [atMost]

private theorem eq_of_atMost {levels depth n : Nat} (h : atMost levels depth = some n) : n = depth := by
  unfold atMost at h
  split at h
  · exact (Option.some.inj h).symm
  · cases h

private theorem atMost_abs (levels depth : Nat) :
    (atMost levels depth).map (· + 1) = atMost (levels + 1) (depth + 1) := by
  simp only [atMost, Nat.add_le_add_iff_right]
  split <;> rfl

private theorem atMost_app (levels m n : Nat) :
    ((atMost levels m).bind fun m => (atMost levels n).map fun n => max m n + 1) =
      atMost (levels + 1) (max m n + 1) := by
  simp only [atMost, Nat.add_le_add_iff_right, Nat.max_le]
  by_cases hm : m ≤ levels
  · by_cases hn : n ≤ levels
    · simp [hm, hn]
    · simp [hn]
  · simp [hm]

/-- The first pass comes to a term with the levels of what it closes, unless these are too many. -/
theorem map_depth_close (levels : Nat) (t : Term) (env : Env) (scope : Scope) (next : Nat) :
    (close levels t env scope next).map (·.1.depth) =
      atMost levels (t.depthWith (depthAt scope env)) := by
  rw [← depth_shape]
  induction levels generalizing t env scope next with
  | zero => exact (atMost_eq_none_iff.mpr (Shape.depth_pos _)).symm
  | succ levels ih =>
    rw [close]
    cases shape env scope t with
    | «variable» name => exact (if_pos (Nat.le_add_left 1 levels)).symm
    | application f a env scope =>
      simp only [depth_shape] at ih
      dsimp only
      calc
        _ = (close levels f env scope next).bind fun r =>
              ((close levels a env scope r.2).map (·.1.depth)).map fun n => max r.1.depth n + 1 := by
            simp only [Option.map_bind, Option.map_map, Function.comp_def, Term.depth]
        _ = ((close levels f env scope next).map (·.1.depth)).bind fun m =>
              (atMost levels (a.depthWith (depthAt scope env))).map fun n => max m n + 1 := by
            rw [Option.bind_map]
            simp only [ih, Function.comp_def]
        _ = _ := by
            rw [ih, atMost_app]
            rfl
    | abstraction param b env scope =>
      simp only [depth_shape] at ih
      dsimp only
      rw [Option.map_map, Shape.depth, ← atMost_abs, ← depthAt_cons param (placeholder param next),
        ← ih, Option.map_map]
      rfl

private theorem depth_rename (t : Term) (names : Scope) : (rename names t).depth = t.depth := by
  induction t generalizing names with
  | var x => rfl
  | app f a hf ha => rw [rename, Term.depth, Term.depth, hf, ha]
  | abs unique b hb => rw [rename, Term.depth, Term.depth, hb]

end Readback

namespace Closure

/-- A closure is read back with the levels of the term that it stands for, unless these are too many. -/
theorem map_depth_readback (closure : Closure) :
    closure.readback.map Term.depth = Readback.atMost Term.maxDepth closure.expand.depth := by
  have hlevels := Readback.map_depth_close Term.maxDepth closure.term closure.env [] 0
  rw [Readback.depthAt_nil, ← Term.depth_substitute] at hlevels
  rw [readback, expand, ← hlevels, Option.map_map]
  congr 1
  funext r
  exact Readback.depth_rename r.1 []

private theorem readback_eq_none_iff (closure : Closure) :
    closure.readback = none ↔ Term.maxDepth < closure.expand.depth := by
  rw [← Readback.atMost_eq_none_iff, ← map_depth_readback, Option.map_eq_none_iff]

private theorem depth_of_readback {closure : Closure} {t : Term} (h : closure.readback = some t) :
    t.depth = closure.expand.depth := by
  have hlevels := closure.map_depth_readback
  rw [h] at hlevels
  exact Readback.eq_of_atMost hlevels.symm

end Closure

/-- A machine that ends with an abstraction fails exactly if what it stands for has too many levels. -/
theorem Machine.step_eq_tooDeep_iff {m : Machine} {param : String} {body : Term} {env : Env}
    (hcontrol : m.control = .reduce ⟨.abs param body, env⟩) (hstack : m.stack = []) :
    m.step = .error .tooDeep ↔ Term.maxDepth < (Closure.expand ⟨.abs param body, env⟩).depth := by
  rw [← Closure.readback_eq_none_iff, step, hcontrol]
  simp only [hstack]
  cases Closure.readback ⟨.abs param body, env⟩ <;> simp

/-- A term that a text spells has no more levels than allowed. Reading back always comes to an end: with a
term that has exactly the levels of what the closure stands for, with nothing exactly if these are too many,
which is what fails the machine that ends there. -/
theorem depth_bounded :
    (∀ text t, Term.parse text = .ok t → t.depth ≤ Term.maxDepth) ∧
    (∀ closure : Closure, (closure.readback = none ↔ Term.maxDepth < closure.expand.depth) ∧
      ∀ t, closure.readback = some t → t.depth = closure.expand.depth) ∧
    ∀ (m : Machine) (param : String) (body : Term) (env : Env),
      m.control = .reduce ⟨.abs param body, env⟩ → m.stack = [] →
        (m.step = .error .tooDeep ↔
          Term.maxDepth < (Closure.expand ⟨.abs param body, env⟩).depth) := by
  refine ⟨fun text t hparse => ?_, fun closure => ?_, fun m param body env hcontrol hstack => ?_⟩
  · obtain ⟨n, -, -, hdepth⟩ := Term.derives_of_parse hparse
    exact hdepth
  · exact ⟨closure.readback_eq_none_iff, fun t => Closure.depth_of_readback⟩
  · exact Machine.step_eq_tooDeep_iff hcontrol hstack

/-- An application that is reached through two variables is read back two levels below the binder. -/
theorem depth_bounded_through_variables :
    let t : Term := .abs "z" (.app (.var "x") (.var "z"))
    let pair : Env := .bind "y" (.app (.var "a") (.var "b")) .empty .empty
    let closure : Closure := ⟨t, .bind "x" (.var "y") pair .empty⟩
    let shown : Term := .abs "z" (.app (.app (.var "a") (.var "b")) (.var "z"))
    Term.parse "\\z.x z" = .ok t ∧ t.depth ≤ Term.maxDepth ∧
      closure.readback = some shown ∧ shown.depth = closure.expand.depth := by
  intro t pair closure shown
  have hparse : Term.parse "\\z.x z" = .ok t := by decide +kernel
  have hread : closure.readback = some shown := by decide +kernel
  exact ⟨hparse, depth_bounded.1 _ t hparse, hread, (depth_bounded.2.1 closure).2 shown hread⟩

end NamedFunctions
