import NamedFunctions.Proofs.Machine.Run
import NamedFunctions.Proofs.Term.WeakHead

/-!
# Reduction by name

A machine stands for the term in control with its arguments, each with the meanings of its variables in
their place. Binding an argument contracts the redex at the head of that term. No other step changes the
term, and each makes what is in control smaller, so that a machine ends where its term cannot be reduced
at its head.
-/

namespace NamedFunctions

/-- The meaning of a variable: that of its closure, or the variable if there is none. -/
def Env.meaning : Env → String → Nameless
  | empty, x => .free x
  | bind name term env rest, x => if x = name then term.interp env.meaning else rest.meaning x

/-- A term with the meanings of its variables in their place. -/
def Closure.meaning (closure : Closure) : Nameless := closure.term.interp closure.env.meaning

/-- The meaning of what is in control. -/
def Control.meaning : Control → Nameless
  | reduce closure => closure.meaning
  | await name => .free name

/-- The term that a machine stands for. -/
def Machine.meaning (m : Machine) : Nameless :=
  m.control.meaning.applied (m.stack.map Closure.meaning)

namespace Env

private theorem meaning_extend (env : Env) (name : String) (value : Closure) :
    (env.extend name value).meaning = fun x => if x = name then value.meaning else env.meaning x :=
  rfl

/-- A variable without a binding is free. -/
theorem meaning_of_lookup_eq_none {env : Env} {x : String} (h : env.lookup x = none) :
    env.meaning x = .free x := by
  induction env with
  | empty => rfl
  | bind name term env rest _ ih =>
    rw [lookup] at h
    split at h
    · cases h
    · next hne => rw [meaning, if_neg (Ne.symm hne), ih h]

private theorem meaning_of_lookup_eq_some {env : Env} {x : String} {closure : Closure}
    (h : env.lookup x = some closure) : env.meaning x = closure.meaning := by
  induction env with
  | empty => cases h
  | bind name term env rest _ ih =>
    rw [lookup] at h
    split at h
    · next heq =>
      cases h
      rw [meaning, if_pos heq.symm, Closure.meaning]
    · next hne => rw [meaning, if_neg (Ne.symm hne), ih h]

/-- A closure is smaller than the environment in which it is found. -/
theorem sizeOf_lt_of_lookup {env : Env} {x : String} {closure : Closure}
    (h : env.lookup x = some closure) : sizeOf closure < sizeOf env := by
  induction env with
  | empty => cases h
  | bind name term env rest _ ih =>
    rw [lookup] at h
    split at h
    · cases h
      have hrest : 0 < sizeOf rest := by
        cases rest with
        | empty => decide
        | bind name term env rest =>
          rw [bind.sizeOf_spec]
          omega
      rw [bind.sizeOf_spec, Closure.mk.sizeOf_spec]
      omega
    · have := ih h
      rw [bind.sizeOf_spec]
      omega

end Env

/-- What is bound to a parameter is an argument of its abstraction. -/
theorem Closure.weakHead_extend (param : String) (body : Term) (env : Env) (argument : Closure) :
    Nameless.WeakHead (.app (Closure.meaning ⟨.abs param body, env⟩) argument.meaning)
      (Closure.meaning ⟨body, env.extend param argument⟩) := by
  have hbody : Closure.meaning ⟨body, env.extend param argument⟩ =
      (body.interp (Term.under param env.meaning)).instantiate argument.meaning := by
    rw [Term.instantiate_interp, ← Env.meaning_extend, Closure.meaning]
  rw [hbody]
  exact .beta _ _

namespace Machine

/-- A machine that reduces a term and was not handed any data. -/
structure IsUnsupplied (m : Machine) : Prop where
  reduces : ∃ closure, m.control = .reduce closure
  no_externals : m.externals = []

private theorem isUnsupplied_ofTerm (t : Term) : (ofTerm t).IsUnsupplied := ⟨⟨_, rfl⟩, rfl⟩

private theorem meaning_ofTerm (t : Term) : (ofTerm t).meaning = t.nameless := rfl

/-- Putting an argument on the stack and following a variable leave the term as it is, with less of it
in control. Binding an argument is a contraction. -/
theorem IsUnsupplied.next {m m' : Machine} (hm : m.IsUnsupplied) (h : m.step = .ok (.next, m')) :
    m'.IsUnsupplied ∧
      (m'.meaning = m.meaning ∧ sizeOf m'.control < sizeOf m.control ∨
        m.meaning.WeakHead m'.meaning) := by
  obtain ⟨control, stack, externals, transitions, lookups⟩ := m
  obtain ⟨⟨⟨term, env⟩, hcontrol⟩, hexternals⟩ := hm
  dsimp only at hcontrol hexternals
  subst hcontrol hexternals
  cases term with
  | app function argument =>
    cases h
    refine ⟨⟨⟨_, rfl⟩, rfl⟩, .inl ⟨rfl, ?_⟩⟩
    simp only [Control.reduce.sizeOf_spec, Closure.mk.sizeOf_spec, Term.app.sizeOf_spec]
    omega
  | abs param body =>
    cases stack with
    | nil =>
      simp only [step] at h
      split at h <;> cases h
    | cons argument stack =>
      cases h
      refine ⟨⟨⟨_, rfl⟩, rfl⟩, .inr ?_⟩
      have hbind := Closure.weakHead_extend param body env argument
      exact hbind.applied (stack.map Closure.meaning)
  | var name =>
    simp only [step, List.lookup_nil] at h
    cases hlookup : env.lookup name with
    | some closure =>
      rw [hlookup] at h
      cases h
      refine ⟨⟨⟨_, rfl⟩, rfl⟩, .inl ⟨?_, ?_⟩⟩
      · have hsame : closure.meaning = Closure.meaning ⟨.var name, env⟩ :=
          (Env.meaning_of_lookup_eq_some hlookup).symm
        exact congrArg (fun t => t.applied (stack.map Closure.meaning)) hsame
      · have := Env.sizeOf_lt_of_lookup hlookup
        simp only [jump, Control.reduce.sizeOf_spec, Closure.mk.sizeOf_spec]
        omega
    | none =>
      rw [hlookup] at h
      dsimp only at h
      unfold finish at h
      split at h
      · cases h
      · split at h <;> cases h

/-- What the result of a machine without data says of the term that its own is reduced to. -/
def Shows (t : Term) : Except ComputationError Outcome → Prop
  | .ok (.done (.literal name)) => Term.isExternal name = false ∧ t = .var name
  | .ok (.done (.function _)) => ∃ param body, t = .abs param body
  | .ok (.suspended name) =>
    Term.isExternal name = true ∧ ∃ args, t = (Term.var name).applied args
  | .error (.stuck name) =>
    Term.isExternal name = false ∧ ∃ args, args ≠ [] ∧ t = (Term.var name).applied args
  | .error .tooDeep => ∃ param body, t = .abs param body
  | _ => False

private theorem Shows.isHeadNormal {t : Term} {result : Except ComputationError Outcome}
    (h : Shows t result) : t.IsHeadNormal := by
  unfold Shows at h
  split at h
  · obtain ⟨-, rfl⟩ := h
    exact Term.isHeadNormal_applied_var _ []
  · obtain ⟨param, body, rfl⟩ := h
    exact Term.isHeadNormal_abs param body
  · obtain ⟨-, args, rfl⟩ := h
    exact Term.isHeadNormal_applied_var _ args
  · obtain ⟨-, args, -, rfl⟩ := h
    exact Term.isHeadNormal_applied_var _ args
  · obtain ⟨param, body, rfl⟩ := h
    exact Term.isHeadNormal_abs param body
  · exact h.elim

/-- The result for a variable that means itself, with arguments or bare of them. -/
def headResult (x : String) (bare : Bool) : Except ComputationError Outcome :=
  if Term.isExternal x = true then .ok (.suspended x)
  else if bare = true then .ok (.done (.literal x))
  else .error (.stuck x)

/-- A variable with arguments has one result only. -/
theorem shows_applied_var {x : String} {args : List Term}
    {result : Except ComputationError Outcome} :
    Shows ((Term.var x).applied args) result ↔ result = headResult x args.isEmpty := by
  constructor
  · intro h
    unfold Shows at h
    split at h
    · next name =>
      obtain ⟨hexternal, heq⟩ := h
      have heq : (Term.var x).applied args = (Term.var name).applied [] := heq
      obtain ⟨rfl, rfl⟩ := Term.eq_of_applied_var heq
      simp [headResult, hexternal]
    · obtain ⟨param, body, heq⟩ := h
      exact absurd heq (Term.applied_var_ne_abs x args param body)
    · obtain ⟨hexternal, args', heq⟩ := h
      obtain ⟨rfl, rfl⟩ := Term.eq_of_applied_var heq
      simp [headResult, hexternal]
    · obtain ⟨hexternal, args', hargs, heq⟩ := h
      obtain ⟨rfl, rfl⟩ := Term.eq_of_applied_var heq
      simp [headResult, hexternal, hargs]
    · obtain ⟨param, body, heq⟩ := h
      exact absurd heq (Term.applied_var_ne_abs x args param body)
    · exact h.elim
  · rintro rfl
    unfold headResult
    split
    · next hexternal => exact ⟨hexternal, args, rfl⟩
    · next hexternal =>
      split
      · next hbare =>
        rw [List.isEmpty_iff.mp hbare]
        exact ⟨by simpa using hexternal, rfl⟩
      · next hbare => exact ⟨by simpa using hexternal, args, by simpa using hbare, rfl⟩

/-- The result for an abstraction is one, unless it has too many levels. -/
theorem Shows.of_abs {x : String} {b : Term} {result : Except ComputationError Outcome}
    (h : Shows (.abs x b) result) :
    (∃ f, result = .ok (.done (.function f))) ∨ result = .error .tooDeep := by
  unfold Shows at h
  split at h
  · cases h.2
  · next f => exact .inl ⟨f, rfl⟩
  · obtain ⟨-, args, heq⟩ := h
    exact absurd heq.symm (Term.applied_var_ne_abs _ args x b)
  · obtain ⟨-, args, -, heq⟩ := h
    exact absurd heq.symm (Term.applied_var_ne_abs _ args x b)
  · exact .inr rfl
  · exact h.elim

/-- A variable that means itself ends the reduction. -/
theorem exists_ends_of_lookup_eq_none {m : Machine} {name : String} {env : Env}
    (hcontrol : m.control = .reduce ⟨.var name, env⟩) (hlookup : env.lookup name = none)
    (hexternals : m.externals = []) :
    ∃ m', m.Ends (headResult name m.stack.isEmpty) m' := by
  unfold headResult
  split
  · next hexternal =>
    refine ⟨{ m with control := .await name }, .suspended ?_⟩
    simp [step, hcontrol, hlookup, hexternals, hexternal]
  · next hexternal =>
    have hfinish : m.step = m.finish name (.literal name) := by
      simp [step, hcontrol, hlookup, hexternals, hexternal]
    split
    · next hbare => exact ⟨m, .done (by rw [hfinish, finish, if_pos hbare])⟩
    · next hbare => exact ⟨m, .error (by rw [hfinish, finish, if_neg hbare])⟩

/-- A machine without data ends with what its term shows. -/
theorem Ends.shows {m m' : Machine} {result : Except ComputationError Outcome}
    (h : m.Ends result m') (hm : m.IsUnsupplied) {t : Term} (ht : t.nameless = m.meaning) :
    Shows t result := by
  obtain ⟨⟨⟨term, env⟩, hcontrol⟩, hexternals⟩ := hm
  rw [meaning, hcontrol] at ht
  cases term with
  | app function argument => exact absurd (by rw [step, hcontrol]) h.step_ne_next
  | abs param body =>
    cases hstack : m.stack with
    | cons argument stack => exact absurd (by rw [step, hcontrol, hstack]) h.step_ne_next
    | nil =>
      rw [hstack] at ht
      have hshape := Term.exists_abs_of_nameless ht
      cases hread : Closure.readback ⟨.abs param body, env⟩ with
      | some value =>
        have hstep : m.step = .ok (.done (.function value), m) := by
          simp only [step, hcontrol, hstack, hread]
        rw [h.result_eq (.done hstep)]
        exact hshape
      | none =>
        have hstep : m.step = .error .tooDeep := by
          simp only [step, hcontrol, hstack, hread]
        rw [h.result_eq (.error hstep)]
        exact hshape
  | var name =>
    cases hlookup : env.lookup name with
    | some closure =>
      have hstep : m.step = .ok (.next, m.jump closure) := by
        simp only [step, hcontrol, hlookup]
      exact absurd hstep h.step_ne_next
    | none =>
      have hfree : Closure.meaning ⟨.var name, env⟩ = .free name :=
        Env.meaning_of_lookup_eq_none hlookup
      rw [Control.meaning, hfree] at ht
      obtain ⟨args, rfl, hlength⟩ := Term.exists_applied_of_nameless ht
      have hbare : args.isEmpty = m.stack.isEmpty := by
        rw [List.length_map] at hlength
        rw [Bool.eq_iff_iff, List.isEmpty_iff_length_eq_zero, List.isEmpty_iff_length_eq_zero,
          hlength]
      obtain ⟨m₁, hends⟩ := exists_ends_of_lookup_eq_none hcontrol hlookup hexternals
      rw [h.result_eq hends, ← hbare]
      exact shows_applied_var.mpr rfl

/-- What a machine without data comes to shows what its term is reduced to. -/
theorem Yields.shows {m m' : Machine} {result : Except ComputationError Outcome}
    (h : m.Yields result m') (hm : m.IsUnsupplied) {t : Term} (ht : t.nameless = m.meaning) :
    ∃ u, t.Reduces u ∧ Shows u result := by
  induction h generalizing t with
  | ends h => exact ⟨t, .refl, h.shows hm ht⟩
  | next h _ ih =>
    obtain ⟨hm₁, ⟨hsame, -⟩ | hcontract⟩ := hm.next h
    · exact ih hm₁ (ht.trans hsame.symm)
    · rw [← ht] at hcontract
      obtain ⟨t', hstep, ht'⟩ := Term.exists_weakHead_of_nameless hcontract
      obtain ⟨u, hreduces, hshows⟩ := ih hm₁ ht'
      exact ⟨u, .head hstep hreduces, hshows⟩

/-- A machine comes to something if all do that stand for the term one contraction further. -/
private theorem exists_yields_of_contracted {m : Machine} (hm : m.IsUnsupplied) {t : Term}
    (ht : t.nameless = m.meaning)
    (hcontracted : ∀ {m₁ : Machine} {t' : Term}, t.WeakHead t' → m₁.IsUnsupplied →
      t'.nameless = m₁.meaning → ∃ result m', m₁.Yields result m') :
    ∃ result m', m.Yields result m' := by
  -- Until the next contraction what is in control becomes smaller.
  induction hsize : sizeOf m.control using Nat.strongRecOn generalizing m with
  | ind size ih =>
    rcases m.exists_next_or_ends with ⟨m₁, hnext⟩ | ⟨result, m', hends⟩
    · obtain ⟨hm₁, ⟨hsame, hless⟩ | hcontract⟩ := hm.next hnext
      · obtain ⟨result, m', h⟩ := ih _ (hsize ▸ hless) hm₁ (ht.trans hsame.symm) rfl
        exact ⟨result, m', .next hnext h⟩
      · rw [← ht] at hcontract
        obtain ⟨t', hstep, ht'⟩ := Term.exists_weakHead_of_nameless hcontract
        obtain ⟨result, m', h⟩ := hcontracted hstep hm₁ ht'
        exact ⟨result, m', .next hnext h⟩
    · exact ⟨result, m', .ends hends⟩

/-- A machine comes to something if its term is reduced to one that cannot be reduced. -/
theorem exists_yields_of_reduces {t u : Term} (h : t.Reduces u) (hu : u.IsHeadNormal) {m : Machine}
    (hm : m.IsUnsupplied) (ht : t.nameless = m.meaning) : ∃ result m', m.Yields result m' := by
  induction h using Relation.ReflTransGen.head_induction_on generalizing m with
  | refl =>
    apply exists_yields_of_contracted hm ht
    intro m₁ t' hstep
    exact absurd hstep (hu t')
  | head hstep _ ih =>
    apply exists_yields_of_contracted hm ht
    intro m₁ t' hstep' hm₁ ht'
    apply ih hm₁
    rw [hstep.deterministic hstep', ht']

/-- A run that is not cut off shows what its term is reduced to. -/
theorem exists_shows_of_run {t : Term} {limit : Nat} {result : Except ComputationError Outcome}
    (h : ((ofTerm t).run limit).1 = result) (hresult : result ≠ .error (.stepLimit limit)) :
    ∃ u, t.Reduces u ∧ Shows u result := by
  have hyields : (ofTerm t).Yields result ((ofTerm t).run limit).2 :=
    yields_of_run (Prod.ext h rfl) hresult
  exact hyields.shows (isUnsupplied_ofTerm t) (meaning_ofTerm t).symm

/-- A run is not cut off by a large limit if its term is reduced to one that shows a result. -/
theorem exists_run_of_reduces {t u : Term} (h : t.Reduces u)
    {result : Except ComputationError Outcome} (hu : Shows u result) :
    ∃ result', Shows u result' ∧
      ∃ least, ∀ limit, least ≤ limit → ((ofTerm t).run limit).1 = result' := by
  obtain ⟨result', m', hyields⟩ :=
    exists_yields_of_reduces h hu.isHeadNormal (isUnsupplied_ofTerm t) rfl
  obtain ⟨u', hreduces, hshows⟩ := hyields.shows (isUnsupplied_ofTerm t) (meaning_ofTerm t).symm
  have hsame : u' = u := Term.eq_of_reduces hreduces h hshows.isHeadNormal hu.isHeadNormal
  refine ⟨result', hsame ▸ hshows, m'.steps, ?_⟩
  intro limit hlimit
  rw [hyields.run hlimit]

private theorem exists_run_of_applied_var {t : Term} {x : String} {args : List Term}
    (h : t.Reduces ((Term.var x).applied args)) {result : Except ComputationError Outcome}
    (hresult : Shows ((Term.var x).applied args) result) :
    ∃ least, ∀ limit, least ≤ limit → ((ofTerm t).run limit).1 = result := by
  obtain ⟨result', hshows, hruns⟩ := exists_run_of_reduces h hresult
  rw [shows_applied_var.mp hresult, ← shows_applied_var.mp hshows]
  exact hruns

/-- A machine reduces a term by name: a run that ends tells the form to which the term is reduced, and
a term that is reduced to such a form is found to be by all runs with a limit that is large enough. An
abstraction may have too many levels to be shown. -/
theorem run_ofTerm (t : Term) :
    (∀ limit,
      (∀ v, ((ofTerm t).run limit).1 = .ok (.done (.literal v)) →
        Term.isExternal v = false ∧ t.Reduces (.var v)) ∧
      (∀ f, ((ofTerm t).run limit).1 = .ok (.done (.function f)) →
        ∃ x b, t.Reduces (.abs x b)) ∧
      (∀ n, ((ofTerm t).run limit).1 = .ok (.suspended n) →
        Term.isExternal n = true ∧ ∃ args, t.Reduces ((Term.var n).applied args)) ∧
      (∀ v, ((ofTerm t).run limit).1 = .error (.stuck v) →
        Term.isExternal v = false ∧
          ∃ args, args ≠ [] ∧ t.Reduces ((Term.var v).applied args))) ∧
    (∀ v, Term.isExternal v = false → t.Reduces (.var v) →
      ∃ least, ∀ limit, least ≤ limit →
        ((ofTerm t).run limit).1 = .ok (.done (.literal v))) ∧
    (∀ x b, t.Reduces (.abs x b) →
      ∃ least, (∃ f, ∀ limit, least ≤ limit →
          ((ofTerm t).run limit).1 = .ok (.done (.function f))) ∨
        ∀ limit, least ≤ limit → ((ofTerm t).run limit).1 = .error .tooDeep) ∧
    (∀ n args, Term.isExternal n = true → t.Reduces ((Term.var n).applied args) →
      ∃ least, ∀ limit, least ≤ limit → ((ofTerm t).run limit).1 = .ok (.suspended n)) ∧
    (∀ v args, Term.isExternal v = false → args ≠ [] → t.Reduces ((Term.var v).applied args) →
      ∃ least, ∀ limit, least ≤ limit → ((ofTerm t).run limit).1 = .error (.stuck v)) := by
  refine ⟨fun limit => ⟨?_, ?_, ?_, ?_⟩, ?_, ?_, ?_, ?_⟩
  · intro v h
    obtain ⟨u, hreduces, hexternal, rfl⟩ := exists_shows_of_run h (by simp)
    exact ⟨hexternal, hreduces⟩
  · intro f h
    obtain ⟨u, hreduces, x, b, rfl⟩ := exists_shows_of_run h (by simp)
    exact ⟨x, b, hreduces⟩
  · intro n h
    obtain ⟨u, hreduces, hexternal, args, rfl⟩ := exists_shows_of_run h (by simp)
    exact ⟨hexternal, args, hreduces⟩
  · intro v h
    obtain ⟨u, hreduces, hexternal, args, hargs, rfl⟩ := exists_shows_of_run h (by simp)
    exact ⟨hexternal, args, hargs, hreduces⟩
  · intro v hexternal h
    have h : t.Reduces ((Term.var v).applied []) := h
    exact exists_run_of_applied_var h ⟨hexternal, rfl⟩
  · intro x b h
    have hshape : Shows (.abs x b) (.error .tooDeep) := ⟨x, b, rfl⟩
    obtain ⟨result, hshows, least, hruns⟩ := exists_run_of_reduces h hshape
    rcases hshows.of_abs with ⟨f, rfl⟩ | rfl
    · exact ⟨least, .inl ⟨f, hruns⟩⟩
    · exact ⟨least, .inr hruns⟩
  · intro n args hexternal h
    exact exists_run_of_applied_var h ⟨hexternal, args, rfl⟩
  · intro v args hexternal hargs h
    exact exists_run_of_applied_var h ⟨hexternal, args, hargs, rfl⟩

end Machine

end NamedFunctions
