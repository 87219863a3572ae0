import NamedFunctions.Proofs.Machine.CallByName

/-!
# What is read back

Reading back a closure is meant to put what its environment says in the place of its variables, without
capture. The second pass, which chooses the names that are shown, never captures anything. The first
pass tells its placeholders apart from each other by their numbers, but not from the names of free
variables: it is right about each closure that leaves no variable free that is named like a placeholder,
and captures one that is.
-/

namespace NamedFunctions

/-- What the variables of an environment stand for: the terms of its closures, each with what its own
environment says in the place of its variables. -/
def Env.terms : Env → List (String × Term)
  | empty => []
  | bind name term env rest => (name, term.substitute env.terms) :: rest.terms

/-- The term of a closure with what the environment says in the place of its variables. -/
def Closure.expand (closure : Closure) : Term := closure.term.substitute closure.env.terms

namespace Env

private theorem nameless_image_terms (env : Env) (x : String) :
    (Term.image env.terms x).nameless = env.meaning x := by
  induction env generalizing x with
  | empty => rfl
  | bind name term env rest henv hrest =>
    have hterm : (term.substitute env.terms).nameless = term.interp env.meaning := by
      rw [Term.nameless, Term.interp_substitute]
      exact congrArg (fun τ => term.interp τ) (funext henv)
    rw [terms, meaning, Term.image, List.lookup_cons]
    by_cases h : x = name
    · rw [if_pos h, ← hterm, beq_iff_eq.mpr h]
      rfl
    · rw [if_neg h, ← hrest, beq_eq_false_iff_ne.mpr h]
      rfl

/-- What a variable means has no bound variables that reach beyond it. -/
theorem rename_meaning (env : Env) (x : String) (ρ : Nat → Nat) :
    (env.meaning x).rename ρ = env.meaning x := by
  induction env generalizing x with
  | empty => rfl
  | bind name term env rest henv hrest =>
    rw [meaning]
    split
    · rw [Term.rename_interp]
      exact congrArg (fun τ => term.interp τ) (funext henv)
    · exact hrest x

end Env

private theorem Closure.nameless_expand (closure : Closure) : closure.expand.nameless = closure.meaning := by
  rw [expand, Term.nameless, Term.interp_substitute]
  exact congrArg (fun τ => closure.term.interp τ) (funext closure.env.nameless_image_terms)

namespace Readback

/-- Whether a name looks like the placeholder of a binder. -/
def IsPlaceholder (x : String) : Prop := ∃ param number, x = placeholder param number

private theorem reverse_placeholder (param : String) (number : Nat) :
    (placeholder param number).toList.reverse =
      (Nat.toDigits 10 number).reverse ++ '#' :: param.toList.reverse := by
  simp [placeholder]

/-- The number of a placeholder is all behind its last hash sign. -/
private theorem takeWhile_reverse_placeholder (param : String) (number : Nat) :
    (placeholder param number).toList.reverse.takeWhile (· != '#') =
      (Nat.toDigits 10 number).reverse := by
  have hdigits : ∀ c ∈ (Nat.toDigits 10 number).reverse, (c != '#') = true := by
    intro c hc
    have hdigit := Nat.isDigit_of_mem_toDigits (by decide) (by decide) (List.mem_reverse.mp hc)
    rw [bne_iff_ne]
    rintro rfl
    exact absurd hdigit (by decide)
  rw [reverse_placeholder, List.takeWhile_append_of_pos hdigits]
  simp

/-- Placeholders with different numbers are different, whatever the parameters. -/
theorem number_eq_of_placeholder {p q : String} {m n : Nat}
    (h : placeholder p m = placeholder q n) : m = n := by
  have hreverse : (Nat.toDigits 10 m).reverse = (Nat.toDigits 10 n).reverse := by
    rw [← takeWhile_reverse_placeholder p m, h, takeWhile_reverse_placeholder]
  have hvalue := congrArg (fun digits => Nat.ofDigitChars 10 digits 0) (List.reverse_inj.mp hreverse)
  simpa using hvalue

/-- A name without a hash sign is not like that of any placeholder. -/
theorem mem_of_isPlaceholder {x : String} (h : IsPlaceholder x) : '#' ∈ x.toList := by
  obtain ⟨param, number, rfl⟩ := h
  simp [placeholder]

/-- What a variable means at a place: that of its placeholder if it is bound around the place, and what
the environment says otherwise. -/
def placed (τ : String → Nameless) (scope : Scope) (env : Env) (x : String) : Nameless :=
  match scope.lookup x with
  | some unique => τ unique
  | none => env.meaning x

/-- What a shape means at a place. -/
def Shape.meaning (τ : String → Nameless) : Shape → Nameless
  | .variable name => τ name
  | .application f a env scope => .app (f.interp (placed τ scope env)) (a.interp (placed τ scope env))
  | .abstraction param b env scope => .abs (b.interp (Term.under param (placed τ scope env)))

/-- The binders around what stands at a place. -/
def Shape.scope : Shape → Scope
  | .variable _ => []
  | .application _ _ _ scope => scope
  | .abstraction _ _ _ scope => scope

/-- Whether the binders around a place have placeholders with numbers below the next one. -/
def Numbered (next : Nat) (scope : Scope) : Prop :=
  ∀ x unique, scope.lookup x = some unique → ∃ param number, number < next ∧
    unique = placeholder param number

private theorem Numbered.mono {next next' : Nat} {scope : Scope} (h : Numbered next scope)
    (hle : next ≤ next') : Numbered next' scope := by
  intro x unique hx
  obtain ⟨param, number, hlt, heq⟩ := h x unique hx
  exact ⟨param, number, Nat.lt_of_lt_of_le hlt hle, heq⟩

private theorem Numbered.cons {next : Nat} {scope : Scope} (h : Numbered next scope) (param : String) :
    Numbered (next + 1) ((param, placeholder param next) :: scope) := by
  intro x unique hx
  rw [List.lookup_cons] at hx
  split at hx
  · cases hx
    exact ⟨param, next, Nat.lt_succ_self next, rfl⟩
  · exact h.mono (Nat.le_succ next) x unique hx

private theorem numbered_nil (next : Nat) : Numbered next [] := by
  intro x unique hx
  cases hx

/-- Variables that lead to variables mean the same as where they lead. -/
theorem meaning_resolve {env : Env} {x : String} {τ : String → Nameless}
    (hfree : ∀ y, (env.meaning x).Mentions y → τ y = .free y) :
    (resolve env x).meaning τ = env.meaning x := by
  induction env generalizing x with
  | empty => exact hfree x rfl
  | bind name term env rest henv hrest =>
    rw [Env.meaning] at hfree ⊢
    rw [resolve.eq_def]
    dsimp only
    by_cases h : x = name
    · rw [if_pos h] at hfree ⊢
      rw [if_pos h.symm]
      cases term with
      | var y => exact henv hfree
      | app f a => rfl
      | abs param b => rfl
    · rw [if_neg h] at hfree ⊢
      rw [if_neg (Ne.symm h)]
      exact hrest hfree

/-- What stands at a place keeps its meaning. -/
theorem meaning_shape {env : Env} {scope : Scope} {t : Term} {τ : String → Nameless}
    (hfree : ∀ y, (t.interp (placed τ scope env)).Mentions y → τ y = .free y) :
    (shape env scope t).meaning τ = t.interp (placed τ scope env) := by
  cases t with
  | var x =>
    rw [Term.interp, placed] at hfree ⊢
    rw [shape]
    cases hx : scope.lookup x with
    | some unique => rfl
    | none =>
      rw [hx] at hfree
      exact meaning_resolve hfree
  | app f a => rfl
  | abs param b => rfl

private theorem numbered_resolve (next : Nat) (env : Env) (x : String) :
    Numbered next (resolve env x).scope := by
  induction env generalizing x with
  | empty => exact numbered_nil next
  | bind name term env rest henv hrest =>
    rw [resolve.eq_def]
    dsimp only
    split
    · cases term with
      | var y => exact henv y
      | app f a => exact numbered_nil next
      | abs param b => exact numbered_nil next
    · exact hrest x

private theorem Numbered.shape {next : Nat} {scope : Scope} (h : Numbered next scope) (env : Env)
    (t : Term) : Numbered next (shape env scope t).scope := by
  cases t with
  | var x =>
    rw [Readback.shape]
    split
    · exact numbered_nil next
    · exact numbered_resolve next env x
  | app f a => exact h
  | abs param b => exact h

/-- Under a binder its parameter means the innermost bound variable, and what is below the others is
shifted. -/
theorem placed_cons {next : Nat} {scope : Scope} (h : Numbered next scope) (param : String)
    (env : Env) (τ : String → Nameless) :
    placed (Term.under (placeholder param next) τ) ((param, placeholder param next) :: scope) env =
      Term.under param (placed τ scope env) := by
  funext x
  rw [Term.under, placed, placed, List.lookup_cons]
  by_cases hx : x = param
  · rw [if_pos hx, beq_iff_eq.mpr hx]
    exact if_pos rfl
  · rw [if_neg hx, beq_eq_false_iff_ne.mpr hx]
    cases hlookup : scope.lookup x with
    | none => exact (env.rename_meaning x Nat.succ).symm
    | some unique =>
      obtain ⟨p, number, hlt, rfl⟩ := h x unique hlookup
      have hne : placeholder p number ≠ placeholder param next := by
        intro heq
        exact Nat.ne_of_lt hlt (number_eq_of_placeholder heq)
      exact if_neg hne

private theorem le_of_close {levels : Nat} {term : Term} {env : Env} {scope : Scope} {next next' : Nat}
    {t : Term} (h : close levels term env scope next = some (t, next')) : next ≤ next' := by
  induction levels generalizing term env scope next next' t with
  | zero => cases h
  | succ levels ih =>
    rw [close] at h
    split at h
    · cases h
      exact Nat.le_refl next
    · next f a env scope _ =>
      obtain ⟨⟨f', next₁⟩, hf, h⟩ := Option.bind_eq_some_iff.mp h
      obtain ⟨⟨a', next₂⟩, ha, h⟩ := Option.map_eq_some_iff.mp h
      cases h
      exact Nat.le_trans (ih hf) (ih ha)
    · next param b env scope _ =>
      obtain ⟨⟨b', next₁⟩, hb, h⟩ := Option.map_eq_some_iff.mp h
      cases h
      exact Nat.le_trans (Nat.le_succ next) (ih hb)

/-- The first pass keeps the meaning of a term that mentions nothing that looks like a placeholder. -/
theorem interp_close {levels : Nat} {term : Term} {env : Env} {scope : Scope} {next next' : Nat}
    {t : Term} {τ : String → Nameless} (h : close levels term env scope next = some (t, next'))
    (hscope : Numbered next scope)
    (hfree : ∀ y, (term.interp (placed τ scope env)).Mentions y → ¬ IsPlaceholder y ∧ τ y = .free y) :
    t.interp τ = term.interp (placed τ scope env) := by
  induction levels generalizing term env scope next next' t τ with
  | zero => cases h
  | succ levels ih =>
    have hmeaning := meaning_shape fun y hy => (hfree y hy).2
    have hshape := hscope.shape env term
    rw [← hmeaning] at hfree ⊢
    rw [close] at h
    cases hs : shape env scope term with
    | «variable» name =>
      rw [hs] at h
      cases h
      rfl
    | application f a env scope =>
      rw [hs] at h hshape hfree
      obtain ⟨⟨f', next₁⟩, hf, h⟩ := Option.bind_eq_some_iff.mp h
      obtain ⟨⟨a', next₂⟩, ha, h⟩ := Option.map_eq_some_iff.mp h
      cases h
      have hfunction : f'.interp τ = f.interp (placed τ scope env) :=
        ih hf hshape fun y hy => hfree y (.inl hy)
      have hargument : a'.interp τ = a.interp (placed τ scope env) :=
        ih ha (hshape.mono (le_of_close hf)) fun y hy => hfree y (.inr hy)
      rw [Term.interp, hfunction, hargument]
      rfl
    | abstraction param b env scope =>
      rw [hs] at h hshape hfree
      obtain ⟨⟨b', next₁⟩, hb, h⟩ := Option.map_eq_some_iff.mp h
      cases h
      have hplaced : placed (Term.under (placeholder param next) τ)
          ((param, placeholder param next) :: scope) env = Term.under param (placed τ scope env) :=
        placed_cons hshape param env τ
      have hbody : b'.interp (Term.under (placeholder param next) τ) =
          b.interp (Term.under param (placed τ scope env)) := by
        rw [← hplaced]
        apply ih hb (hshape.cons param)
        intro y hy
        rw [hplaced] at hy
        obtain ⟨hname, hτ⟩ := hfree y hy
        refine ⟨hname, ?_⟩
        have hne : y ≠ placeholder param next := fun heq => hname ⟨param, next, heq⟩
        rw [Term.under, if_neg hne, hτ]
        rfl
      rw [Term.interp, hbody]
      rfl

/-- Showing names keeps the meaning of a term, whatever its variables mean. -/
theorem interp_rename {t : Term} {names : Scope} {τ τ' : String → Nameless}
    (h : ∀ x, t.IsFree x → τ' (shownName names x) = τ x) : (rename names t).interp τ' = t.interp τ := by
  induction t generalizing names τ τ' with
  | var x => exact h x rfl
  | app f a hf ha =>
    rw [rename, Term.interp, Term.interp, hf fun x hx => h x (.inl hx),
      ha fun x hx => h x (.inr hx)]
  | abs unique b hb =>
    rw [rename, Term.interp, Term.interp]
    congr 1
    apply hb
    intro x hx
    generalize hname : freshName _ _ = name
    by_cases hbound : x = unique
    · rw [shownName, List.lookup_cons, beq_iff_eq.mpr hbound, Term.under, Term.under, if_pos hbound]
      exact if_pos rfl
    · have hshown : shownName ((unique, name) :: names) x = shownName names x := by
        rw [shownName, List.lookup_cons, beq_eq_false_iff_ne.mpr hbound, shownName]
      -- What is free below the binder is among the names that are taken.
      have hne : shownName names x ≠ name := by
        intro heq
        have htaken := freshName_not_mem (baseName unique)
          ((b.freeVariablesFrom [unique] []).map (shownName names))
        rw [hname, ← heq] at htaken
        apply htaken
        apply List.mem_map_of_mem
        exact Term.mem_freeVariablesFrom.mpr (.inr ⟨hx, by simpa using hbound⟩)
      rw [hshown, Term.under, if_neg hne, Term.under, if_neg hbound, h x ⟨hbound, hx⟩]

end Readback

/-- A closure is read back as what it stands for, but for the choice of bound names, if it has no free
variable that looks like a placeholder. -/
theorem Closure.alphaEquiv_of_readback {closure : Closure} {t : Term} (h : closure.readback = some t)
    (hfree : ∀ x, closure.expand.IsFree x → ¬ Readback.IsPlaceholder x) :
    t.AlphaEquiv closure.expand ∧ ∀ x, t.IsFree x ↔ closure.expand.IsFree x := by
  obtain ⟨⟨u, next⟩, hclose, rfl⟩ := Option.map_eq_some_iff.mp h
  have hplaced : Readback.placed .free [] closure.env = closure.env.meaning := rfl
  have hfirst : u.nameless = closure.meaning := by
    apply Readback.interp_close hclose (Readback.numbered_nil 0)
    intro y hy
    rw [hplaced] at hy
    have hmentions : closure.expand.nameless.Mentions y := by rwa [closure.nameless_expand]
    exact ⟨hfree y (Term.mentions_nameless.mp hmentions), rfl⟩
  have hsecond : (Readback.rename [] u).nameless = u.nameless := Readback.interp_rename fun x _ => rfl
  have halpha : (Readback.rename [] u).AlphaEquiv closure.expand := by
    rw [Term.AlphaEquiv, closure.nameless_expand, ← hfirst]
    exact hsecond
  exact ⟨halpha, halpha.isFree_iff⟩

/-- A parameter with a hash sign is shown apart from a variable that what is put under it leaves free. -/
theorem Closure.alphaEquiv_of_readback_primed :
    ∃ closure : Closure,
      closure = ⟨.abs "y#" (.app (.var "x") (.var "y#")),
        .bind "x" (.var "z") (.bind "z" (.var "y") .empty .empty) .empty⟩ ∧
      (∀ x, closure.expand.IsFree x → ¬ Readback.IsPlaceholder x) ∧
      closure.readback = some (.abs "y'" (.app (.var "y") (.var "y'"))) ∧
      (Term.abs "y'" (.app (.var "y") (.var "y'"))).AlphaEquiv closure.expand := by
  have hname (closure : Closure) (hsigns : ∀ x ∈ closure.expand.freeVariables, '#' ∉ x.toList)
      (x : String) (hx : closure.expand.IsFree x) : ¬ Readback.IsPlaceholder x := fun hplaceholder =>
    hsigns x (Term.mem_freeVariables.mpr hx) (Readback.mem_of_isPlaceholder hplaceholder)
  have hfree := hname ⟨.abs "y#" (.app (.var "x") (.var "y#")),
    .bind "x" (.var "z") (.bind "z" (.var "y") .empty .empty) .empty⟩ (by decide +kernel)
  have hread : Closure.readback ⟨.abs "y#" (.app (.var "x") (.var "y#")),
      .bind "x" (.var "z") (.bind "z" (.var "y") .empty .empty) .empty⟩ =
      some (.abs "y'" (.app (.var "y") (.var "y'"))) := by decide +kernel
  exact ⟨_, rfl, hfree, hread, (Closure.alphaEquiv_of_readback hread hfree).1⟩

/-- A free variable with the name of the placeholder around it is read back as a bound one. -/
theorem Closure.readback_captures :
    Term.parse "\\x.x#0" = .ok (.abs "x" (.var "x#0")) ∧
      Closure.readback ⟨.abs "x" (.var "x#0"), .empty⟩ = some (.abs "x" (.var "x")) ∧
      ¬ (Term.abs "x" (.var "x")).AlphaEquiv (Closure.expand ⟨.abs "x" (.var "x#0"), .empty⟩) :=
  ⟨by decide +kernel, by decide +kernel, by decide +kernel⟩

end NamedFunctions
