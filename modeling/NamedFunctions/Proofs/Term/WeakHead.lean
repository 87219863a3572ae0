import Mathlib.Data.List.Induction
import Mathlib.Logic.Relation
import NamedFunctions.Proofs.Term.Substitution

/-!
# Weak head reduction

Reduction by name, with substitution that captures nothing. It leads to at most one term that cannot be
reduced, and it takes the same course whether binders have names or not.
-/

namespace NamedFunctions.Term

/-- The leftmost outermost redex is contracted, unless it lies under a binder or in an argument. -/
inductive WeakHead : Term → Term → Prop where
  | beta (x : String) (b a : Term) : WeakHead (app (abs x b) a) (b.substitute [(x, a)])
  | app {f f' : Term} (a : Term) (h : WeakHead f f') : WeakHead (app f a) (app f' a)

/-- Any number of contractions, one after the other. -/
def Reduces : Term → Term → Prop := Relation.ReflTransGen WeakHead

/-- A term with arguments, the first of them first. -/
def applied (t : Term) (args : List Term) : Term := args.foldl app t

/-- Whether a term cannot be reduced at its head. -/
def IsHeadNormal (t : Term) : Prop := ∀ t', ¬ WeakHead t t'

private theorem applied_append (t : Term) (args : List Term) (a : Term) :
    t.applied (args ++ [a]) = app (t.applied args) a := by
  rw [applied, List.foldl_append, List.foldl_cons, List.foldl_nil, applied]

/-- A variable with arguments is no abstraction. -/
theorem applied_var_ne_abs (x : String) (args : List Term) (y : String) (b : Term) :
    (var x).applied args ≠ abs y b := by
  induction args using List.reverseRecOn with
  | nil =>
    intro h
    cases h
  | append_singleton args a =>
    rw [applied_append]
    intro h
    cases h

/-- A variable and its arguments can be told from the term. -/
theorem eq_of_applied_var {x y : String} {args args' : List Term}
    (h : (var x).applied args = (var y).applied args') : x = y ∧ args = args' := by
  induction args using List.reverseRecOn generalizing args' with
  | nil =>
    induction args' using List.reverseRecOn with
    | nil =>
      cases h
      exact ⟨rfl, rfl⟩
    | append_singleton args' a =>
      rw [applied_append] at h
      cases h
  | append_singleton args a ih =>
    induction args' using List.reverseRecOn with
    | nil =>
      rw [applied_append] at h
      cases h
    | append_singleton args' a' =>
      rw [applied_append, applied_append] at h
      injection h with hf ha
      obtain ⟨rfl, rfl⟩ := ih hf
      exact ⟨rfl, congrArg (fun a => args ++ [a]) ha⟩

/-- A term has one weak head form at most. -/
theorem WeakHead.deterministic {t u v : Term} (hu : WeakHead t u) (hv : WeakHead t v) : u = v := by
  induction hu generalizing v with
  | beta x b a =>
    cases hv with
    | beta => rfl
    | app _ h => cases h
  | app a h ih =>
    cases hv with
    | beta => cases h
    | app _ h' => rw [ih h']

/-- A reduction ends in at most one way. -/
theorem eq_of_reduces {t u v : Term} (hu : t.Reduces u) (hv : t.Reduces v) (hnu : u.IsHeadNormal)
    (hnv : v.IsHeadNormal) : u = v := by
  have hunique : Relator.RightUnique WeakHead := fun _ _ _ h h' => h.deterministic h'
  rcases Relation.ReflTransGen.total_of_right_unique hunique hu hv with huv | hvu
  · rcases huv.cases_head with heq | ⟨w, hstep, -⟩
    · exact heq
    · exact absurd hstep (hnu w)
  · rcases hvu.cases_head with heq | ⟨w, hstep, -⟩
    · exact heq.symm
    · exact absurd hstep (hnv w)

/-- An abstraction is in weak head form. -/
theorem isHeadNormal_abs (x : String) (b : Term) : (abs x b).IsHeadNormal := by
  intro t h
  cases h

/-- A variable with arguments is in weak head form. -/
theorem isHeadNormal_applied_var (x : String) (args : List Term) :
    ((var x).applied args).IsHeadNormal := by
  induction args using List.reverseRecOn with
  | nil =>
    intro t h
    cases h
  | append_singleton args a ih =>
    rw [applied_append]
    intro t h
    generalize hf : (var x).applied args = f at h ih
    cases h with
    | beta y b => exact absurd hf (applied_var_ne_abs x args y b)
    | app _ h => exact ih _ h

/-- The term without the names of binders takes the same step. -/
theorem WeakHead.interp {t t' : Term} (h : WeakHead t t') (τ : String → Nameless) :
    Nameless.WeakHead (t.interp τ) (t'.interp τ) := by
  induction h with
  | beta x b a =>
    have himage : (fun z => (image [(x, a)] z).interp τ) =
        fun z => if z = x then a.interp τ else τ z := by
      funext z
      by_cases hz : z = x
      · simp [image, hz]
      · have hbeq : (z == x) = false := by simpa using hz
        rw [image, List.lookup_cons, hbeq, if_neg hz]
        rfl
    rw [interp_substitute, himage, ← instantiate_interp]
    exact .beta _ _
  | app a h ih => exact .app _ ih

/-- A step that the term without the names of binders takes is one of the term. -/
theorem exists_weakHead_of_nameless {t : Term} {u : Nameless} (h : Nameless.WeakHead t.nameless u) :
    ∃ t', WeakHead t t' ∧ t'.nameless = u := by
  induction t generalizing u with
  | var x => cases h
  | abs x b => cases h
  | app f a hf ha =>
    cases f with
    | abs x b =>
      cases h with
      | beta =>
        refine ⟨_, .beta x b a, ?_⟩
        exact ((WeakHead.beta x b a).interp Nameless.free).deterministic (.beta _ _)
      | app _ h => cases h
    | var x =>
      cases h with
      | app _ h => cases h
    | app g c =>
      cases h with
      | app _ h =>
        obtain ⟨f', hstep, rfl⟩ := hf h
        exact ⟨_, .app a hstep, rfl⟩

/-- What has the shape of an abstraction is one. -/
theorem exists_abs_of_nameless {t : Term} {b : Nameless} (h : t.nameless = .abs b) :
    ∃ x body, t = abs x body := by
  cases t with
  | var x => cases h
  | app f a => cases h
  | abs x body => exact ⟨x, body, rfl⟩

/-- What has the shape of a variable with arguments is one, with as many arguments. -/
theorem exists_applied_of_nameless {t : Term} {x : String} {args : List Nameless}
    (h : t.nameless = (Nameless.free x).applied args) :
    ∃ args', t = (var x).applied args' ∧ args'.length = args.length := by
  induction args using List.reverseRecOn generalizing t with
  | nil =>
    cases t with
    | var y =>
      cases h
      exact ⟨[], rfl, rfl⟩
    | app f a => cases h
    | abs y b => cases h
  | append_singleton args a ih =>
    rw [Nameless.applied, List.foldl_append] at h
    cases t with
    | var y => cases h
    | abs y b => cases h
    | app f c =>
      injection h with hf hc
      obtain ⟨args', rfl, hlength⟩ := ih hf
      refine ⟨args' ++ [c], (applied_append _ _ _).symm, ?_⟩
      rw [List.length_append, List.length_append, hlength]
      rfl

end NamedFunctions.Term
