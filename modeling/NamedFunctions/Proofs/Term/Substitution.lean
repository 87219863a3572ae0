import Mathlib.Data.List.Nodup
import Mathlib.Data.List.Perm.Subperm
import NamedFunctions.Machine.Readback
import NamedFunctions.Proofs.Term.Nameless

/-!
# Substitution without capture

Terms are put in the place of several variables at once. A binder takes a new name if its own is free in
what comes under it. Without the names of binders the choice makes no difference: a term means what it
means when its variables mean what is put in their place.
-/

namespace NamedFunctions

namespace Readback

private theorem length_primed (base : String) (n : Nat) :
    (primed base n).length = base.length + n := by
  simp [primed]

/-- Among one more candidates than there are names taken, one is not taken. -/
theorem freshName_not_mem (base : String) (taken : List String) : freshName base taken ∉ taken := by
  have hinjective : Function.Injective (primed base) := by
    intro m n h
    have := congrArg String.length h
    rw [length_primed, length_primed] at this
    omega
  unfold freshName
  cases hfind : ((List.range (taken.length + 1)).map (primed base)).find? fun name => name ∉ taken with
  | some name => simpa using List.find?_some hfind
  | none =>
    have hsubset : (List.range (taken.length + 1)).map (primed base) ⊆ taken := by
      intro name hname
      simpa using List.find?_eq_none.mp hfind name hname
    have hnodup : ((List.range (taken.length + 1)).map (primed base)).Nodup :=
      List.nodup_range.map hinjective
    have hlength := (List.Nodup.subperm hnodup hsubset).length_le
    rw [List.length_map, List.length_range] at hlength
    exact absurd hlength (Nat.not_succ_le_self _)

end Readback

namespace Term

/-- Whether a variable is free in a term. -/
def IsFree (x : String) : Term → Prop
  | var y => x = y
  | app f a => f.IsFree x ∨ a.IsFree x
  | abs y b => x ≠ y ∧ b.IsFree x

/-- What is collected is what was found already and what is free and not bound. -/
theorem mem_freeVariablesFrom {t : Term} {x : String} {bound found : List String} :
    x ∈ t.freeVariablesFrom bound found ↔ x ∈ found ∨ (t.IsFree x ∧ x ∉ bound) := by
  induction t generalizing bound found with
  | var y =>
    rw [freeVariablesFrom, IsFree]
    split
    · next h =>
      constructor
      · exact Or.inl
      · rintro (hx | ⟨rfl, hx⟩)
        · exact hx
        · exact h.resolve_left hx
    · next h =>
      rw [not_or] at h
      rw [List.mem_append, List.mem_singleton]
      constructor
      · rintro (hx | rfl)
        · exact .inl hx
        · exact .inr ⟨rfl, h.1⟩
      · rintro (hx | ⟨rfl, -⟩)
        · exact .inl hx
        · exact .inr rfl
  | app f a hf ha =>
    rw [freeVariablesFrom, ha, hf, IsFree]
    tauto
  | abs y b hb =>
    rw [freeVariablesFrom, hb, IsFree, List.mem_cons, not_or]
    tauto

/-- The free variables of a term, each once. -/
def freeVariables (t : Term) : List String := t.freeVariablesFrom [] []

/-- The free variables are those that are free. -/
theorem mem_freeVariables {t : Term} {x : String} : x ∈ t.freeVariables ↔ t.IsFree x := by
  simp [freeVariables, mem_freeVariablesFrom]

/-- What is put in the place of a variable; itself if nothing is said of it. -/
def image (σ : List (String × Term)) (x : String) : Term := (σ.lookup x).getD (var x)

/-- Put terms in the place of variables, all at once. A binder keeps its name unless that is free in
what comes under it, and has primes added to it otherwise. -/
def substitute (σ : List (String × Term)) : Term → Term
  | var x => image σ x
  | app f a => app (f.substitute σ) (a.substitute σ)
  | abs x b =>
    let taken := (b.freeVariablesFrom [x] []).flatMap fun z => (image σ z).freeVariables
    let y := Readback.freshName x taken
    abs y (b.substitute ((x, var y) :: σ))

/-- The meaning of variables under a binder. -/
def under (x : String) (τ : String → Nameless) (z : String) : Nameless :=
  if z = x then .bound 0 else (τ z).shift

/-- The term without the names of binders, given what its variables mean. -/
def interp (τ : String → Nameless) : Term → Nameless
  | var x => τ x
  | app f a => .app (f.interp τ) (a.interp τ)
  | abs x b => .abs (b.interp (under x τ))

/-- The term without the names of binders. -/
def nameless (t : Term) : Nameless := t.interp .free

/-- Only what free variables mean makes a difference. -/
theorem interp_congr {t : Term} {τ τ' : String → Nameless} (h : ∀ x, t.IsFree x → τ x = τ' x) :
    t.interp τ = t.interp τ' := by
  induction t generalizing τ τ' with
  | var x => exact h x rfl
  | app f a hf ha =>
    rw [interp, interp, hf fun x hx => h x (.inl hx), ha fun x hx => h x (.inr hx)]
  | abs x b hb =>
    rw [interp, interp]
    congr 1
    apply hb
    intro z hz
    unfold under
    split
    · rfl
    · next hne => rw [h z ⟨hne, hz⟩]

/-- Renaming an interpretation is interpreting by what is renamed. -/
theorem rename_interp (t : Term) (τ : String → Nameless) (ρ : Nat → Nat) :
    (t.interp τ).rename ρ = t.interp fun x => (τ x).rename ρ := by
  induction t generalizing τ ρ with
  | var x => rfl
  | app f a hf ha => rw [interp, interp, Nameless.rename, hf, ha]
  | abs x b hb =>
    have hunder : (fun z => (under x τ z).rename (Nameless.liftRenaming ρ)) =
        under x fun z => (τ z).rename ρ := by
      funext z
      unfold under
      split
      · rfl
      · exact (τ z).rename_shift ρ
    rw [interp, interp, Nameless.rename, hb, hunder]

private theorem subst_interp (t : Term) (τ : String → Nameless) (σ : Nat → Nameless) :
    (t.interp τ).subst σ = t.interp fun x => (τ x).subst σ := by
  induction t generalizing τ σ with
  | var x => rfl
  | app f a hf ha => rw [interp, interp, Nameless.subst, hf, ha]
  | abs x b hb =>
    have hunder : (fun z => (under x τ z).subst (Nameless.lift σ)) =
        under x fun z => (τ z).subst σ := by
      funext z
      unfold under
      split
      · rfl
      · exact (τ z).subst_shift σ
    rw [interp, interp, Nameless.subst, hb, hunder]

/-- A body with its argument in place is the body in which the parameter means the argument. -/
theorem instantiate_interp (b : Term) (x : String) (τ : String → Nameless) (a : Nameless) :
    (b.interp (under x τ)).instantiate a = b.interp fun z => if z = x then a else τ z := by
  rw [Nameless.instantiate, subst_interp]
  congr 1
  funext z
  unfold under
  split
  · rfl
  · exact (τ z).instantiate_shift a

/-- A binder whose variable is not free in a term only shifts it. -/
theorem interp_under {t : Term} {y : String} (h : ¬ t.IsFree y) (τ : String → Nameless) :
    t.interp (under y τ) = (t.interp τ).shift := by
  rw [Nameless.shift, rename_interp]
  apply interp_congr
  intro x hx
  have hne : x ≠ y := fun hxy => h (hxy ▸ hx)
  rw [under, if_neg hne]
  rfl

/-- After a substitution a term means what it means when its variables mean what is put in their
place. -/
theorem interp_substitute (t : Term) (σ : List (String × Term)) (τ : String → Nameless) :
    (t.substitute σ).interp τ = t.interp fun x => (image σ x).interp τ := by
  induction t generalizing σ τ with
  | var x => rfl
  | app f a hf ha => rw [substitute, interp, interp, hf, ha]
  | abs x b hb =>
    rw [substitute, interp, interp, hb]
    congr 1
    apply interp_congr
    intro z hz
    generalize hy : Readback.freshName x _ = y
    by_cases hzx : z = x
    · rw [under, if_pos hzx, hzx]
      simp [image, interp, under]
    · have hnot : ¬ (image σ z).IsFree y := by
        intro hfree
        have hmem := Readback.freshName_not_mem x
          ((b.freeVariablesFrom [x] []).flatMap fun z => (image σ z).freeVariables)
        rw [hy] at hmem
        apply hmem
        refine List.mem_flatMap.mpr ⟨z, ?_, mem_freeVariables.mpr hfree⟩
        exact mem_freeVariablesFrom.mpr (.inr ⟨hz, by simpa using hzx⟩)
      have himage : image ((x, var y) :: σ) z = image σ z := by
        have hbeq : (z == x) = false := by simpa using hzx
        rw [image, List.lookup_cons, hbeq, image]
      rw [under, if_neg hzx, himage, interp_under hnot]

/-- Whether two terms are the same but for the choice of bound names. -/
def AlphaEquiv (t u : Term) : Prop := t.nameless = u.nameless

instance (t u : Term) : Decidable (t.AlphaEquiv u) := inferInstanceAs (Decidable (_ = _))

/-- A term mentions what its free variables mean, and nothing else. -/
theorem mentions_interp {t : Term} {τ : String → Nameless} {x : String} :
    (t.interp τ).Mentions x ↔ ∃ y, t.IsFree y ∧ (τ y).Mentions x := by
  induction t generalizing τ with
  | var z => simp [interp, IsFree]
  | app f a hf ha =>
    rw [interp, Nameless.Mentions, hf, ha]
    simp only [IsFree, or_and_right, exists_or]
  | abs z b hb =>
    have hunder (y : String) : (under z τ y).Mentions x ↔ y ≠ z ∧ (τ y).Mentions x := by
      unfold under
      split
      · next h => simp [h, Nameless.Mentions]
      · next h => simp [h, Nameless.shift, Nameless.mentions_rename]
    rw [interp, Nameless.Mentions, hb]
    simp only [hunder, IsFree, and_assoc, and_left_comm]

/-- The free variables of a term are those of its form without names. -/
theorem mentions_nameless {t : Term} {x : String} : t.nameless.Mentions x ↔ t.IsFree x := by
  rw [nameless, mentions_interp]
  simp [Nameless.Mentions]

/-- The choice of bound names makes no difference to the free variables. -/
theorem AlphaEquiv.isFree_iff {t u : Term} (h : t.AlphaEquiv u) (x : String) :
    t.IsFree x ↔ u.IsFree x := by
  rw [← mentions_nameless, h, mentions_nameless]

end Term

end NamedFunctions
