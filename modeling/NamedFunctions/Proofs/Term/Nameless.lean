import Mathlib.Logic.Function.Basic

/-!
# Terms without the names of binders

A variable that is bound is the number of binders between it and its own, so that two terms are the same
exactly if they differ in no more than the choice of bound names. Free variables keep their names.
Renaming and substitution compose as one expects, and weak head reduction is a relation on these terms.
-/

namespace NamedFunctions

/-- A term in which bound variables are numbers. -/
inductive Nameless where
  | bound (index : Nat)
  | free (name : String)
  | app (function argument : Nameless)
  | abs (body : Nameless)
deriving DecidableEq, Repr

namespace Nameless

/-- A renaming under one more binder. -/
def liftRenaming (ρ : Nat → Nat) : Nat → Nat
  | 0 => 0
  | n + 1 => ρ n + 1

/-- Rename the bound variables that reach beyond a term. -/
def rename (ρ : Nat → Nat) : Nameless → Nameless
  | bound n => bound (ρ n)
  | free x => free x
  | app f a => app (f.rename ρ) (a.rename ρ)
  | abs b => abs (b.rename (liftRenaming ρ))

/-- The term under one more binder. -/
def shift (t : Nameless) : Nameless := t.rename Nat.succ

/-- A substitution under one more binder. -/
def lift (σ : Nat → Nameless) : Nat → Nameless
  | 0 => bound 0
  | n + 1 => (σ n).shift

/-- Replace the bound variables that reach beyond a term. -/
def subst (σ : Nat → Nameless) : Nameless → Nameless
  | bound n => σ n
  | free x => free x
  | app f a => app (f.subst σ) (a.subst σ)
  | abs b => abs (b.subst (lift σ))

/-- A term for the innermost variable; the others are one binder less away. -/
def single (a : Nameless) : Nat → Nameless
  | 0 => a
  | n + 1 => bound n

/-- The body of an abstraction with its argument in place. -/
def instantiate (b a : Nameless) : Nameless := b.subst (single a)

private theorem rename_rename (t : Nameless) (ρ ρ' : Nat → Nat) :
    (t.rename ρ).rename ρ' = t.rename (ρ' ∘ ρ) := by
  induction t generalizing ρ ρ' with
  | bound n => rfl
  | free x => rfl
  | app f a hf ha => rw [rename, rename, rename, hf, ha]
  | abs b hb =>
    have hlift : liftRenaming ρ' ∘ liftRenaming ρ = liftRenaming (ρ' ∘ ρ) := by
      funext n
      cases n <;> rfl
    rw [rename, rename, rename, hb, hlift]

private theorem subst_rename (t : Nameless) (ρ : Nat → Nat) (σ : Nat → Nameless) :
    (t.rename ρ).subst σ = t.subst (σ ∘ ρ) := by
  induction t generalizing ρ σ with
  | bound n => rfl
  | free x => rfl
  | app f a hf ha => rw [rename, subst, subst, hf, ha]
  | abs b hb =>
    have hlift : lift σ ∘ liftRenaming ρ = lift (σ ∘ ρ) := by
      funext n
      cases n <;> rfl
    rw [rename, subst, subst, hb, hlift]

/-- A renaming under a binder has no effect on what is shifted but that of the renaming outside. -/
theorem rename_shift (t : Nameless) (ρ : Nat → Nat) :
    t.shift.rename (liftRenaming ρ) = (t.rename ρ).shift := by
  rw [shift, shift, rename_rename, rename_rename]
  rfl

private theorem rename_subst (t : Nameless) (σ : Nat → Nameless) (ρ : Nat → Nat) :
    (t.subst σ).rename ρ = t.subst fun n => (σ n).rename ρ := by
  induction t generalizing ρ σ with
  | bound n => rfl
  | free x => rfl
  | app f a hf ha => rw [subst, rename, subst, hf, ha]
  | abs b hb =>
    have hlift : (fun n => (lift σ n).rename (liftRenaming ρ)) = lift fun n => (σ n).rename ρ := by
      funext n
      cases n with
      | zero => rfl
      | succ n => exact (σ n).rename_shift ρ
    rw [subst, rename, subst, hb, hlift]

/-- A substitution under a binder has no effect on what is shifted but that of the one outside. -/
theorem subst_shift (t : Nameless) (σ : Nat → Nameless) :
    t.shift.subst (lift σ) = (t.subst σ).shift := by
  rw [shift, shift, subst_rename, rename_subst]
  rfl

private theorem subst_bound (t : Nameless) : t.subst bound = t := by
  induction t with
  | bound n => rfl
  | free x => rfl
  | app f a hf ha => rw [subst, hf, ha]
  | abs b hb =>
    have hlift : lift bound = bound := by
      funext n
      cases n <;> rfl
    rw [subst, hlift, hb]

/-- What does not use the innermost variable is not affected by what takes its place. -/
theorem instantiate_shift (t a : Nameless) : t.shift.instantiate a = t := by
  rw [instantiate, shift, subst_rename]
  exact t.subst_bound

/-- An abstraction at the head of a term is applied to its first argument. -/
inductive WeakHead : Nameless → Nameless → Prop where
  | beta (b a : Nameless) : WeakHead (app (abs b) a) (b.instantiate a)
  | app {f f' : Nameless} (a : Nameless) (h : WeakHead f f') : WeakHead (app f a) (app f' a)

/-- A term with arguments, the first of them first. -/
def applied (t : Nameless) (args : List Nameless) : Nameless := args.foldl app t

/-- Arguments do not get in the way of what comes before them. -/
theorem WeakHead.applied {t t' : Nameless} (h : WeakHead t t') (args : List Nameless) :
    WeakHead (t.applied args) (t'.applied args) := by
  induction args generalizing t t' with
  | nil => exact h
  | cons a args ih => exact ih (.app a h)

/-- There is at most one way to go on. -/
theorem WeakHead.deterministic {t u v : Nameless} (hu : WeakHead t u) (hv : WeakHead t v) :
    u = v := by
  induction hu generalizing v with
  | beta b a =>
    cases hv with
    | beta => rfl
    | app _ h => cases h
  | app a h ih =>
    cases hv with
    | beta => cases h
    | app _ h' => rw [ih h']

/-- Whether a variable is free in a term. -/
def Mentions (x : String) : Nameless → Prop
  | bound _ => False
  | free y => x = y
  | app f a => f.Mentions x ∨ a.Mentions x
  | abs b => b.Mentions x

/-- Renaming leaves the free variables. -/
theorem mentions_rename {t : Nameless} {ρ : Nat → Nat} {x : String} :
    (t.rename ρ).Mentions x ↔ t.Mentions x := by
  induction t generalizing ρ with
  | bound n => rfl
  | free y => rfl
  | app f a hf ha => rw [rename, Mentions, Mentions, hf, ha]
  | abs b hb => rw [rename, Mentions, Mentions, hb]

end Nameless

end NamedFunctions
