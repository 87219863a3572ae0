import NamedFunctions.Proofs.Machine.CallByName

/-!
# Suspension

A machine that comes to need data stops, and goes on from there when it is handed the data. What it comes to
in the end, and in how many steps, is what it comes to at once if it has all of the data from the start. It
asks for a name only when that is the head of its term, and never twice.
-/

namespace NamedFunctions

/-- The term that data stands for, if it is a function. -/
def External.code? : External → Option Term
  | code term => some term
  | data _ => none

namespace Term

/-- Weak head reduction where some names stand for code, which takes the place of a name that is the
head. -/
inductive WeakHeadWith (code : String → Option Term) : Term → Term → Prop where
  | beta (x : String) (b a : Term) : WeakHeadWith code (app (abs x b) a) (b.substitute [(x, a)])
  | fetch {x : String} {c : Term} (h : code x = some c) : WeakHeadWith code (var x) c
  | app {f f' : Term} (a : Term) (h : WeakHeadWith code f f') : WeakHeadWith code (app f a) (app f' a)

/-- Any number of such steps, one after the other. -/
def ReducesWith (code : String → Option Term) : Term → Term → Prop :=
  Relation.ReflTransGen (WeakHeadWith code)

variable {code code' : String → Option Term} {t t' : Term}

private theorem WeakHead.withCode (h : WeakHead t t') : WeakHeadWith code t t' := by
  induction h with
  | beta x b a => exact .beta x b a
  | app a _ ih => exact .app a ih

/-- More names may come to stand for code. -/
theorem WeakHeadWith.mono (hcode : ∀ x c, code x = some c → code' x = some c)
    (h : WeakHeadWith code t t') : WeakHeadWith code' t t' := by
  induction h with
  | beta x b a => exact .beta x b a
  | fetch h => exact .fetch (hcode _ _ h)
  | app a _ ih => exact .app a ih

private theorem ReducesWith.mono (hcode : ∀ x c, code x = some c → code' x = some c)
    (h : ReducesWith code t t') : ReducesWith code' t t' := by
  induction h with
  | refl => exact .refl
  | tail _ hstep ih => exact ih.tail (hstep.mono hcode)

/-- A name at the head is one whatever the names of binders, and so is the code in its place. -/
theorem exists_fetch_of_nameless {x : String} {c : Term} (hcode : code x = some c)
    {args : List Nameless} (h : t.nameless = (Nameless.free x).applied args) :
    ∃ t', WeakHeadWith code t t' ∧ t'.nameless = c.nameless.applied args := by
  induction args using List.reverseRecOn generalizing t with
  | nil =>
    cases t with
    | var y =>
      cases h
      exact ⟨c, .fetch hcode, rfl⟩
    | app f a => cases h
    | abs y b => cases h
  | append_singleton args a ih =>
    rw [Nameless.applied, List.foldl_append] at h
    cases t with
    | var y => cases h
    | abs y b => cases h
    | app f d =>
      injection h with hf hd
      obtain ⟨f', hstep, hf'⟩ := ih hf
      refine ⟨.app f' d, .app d hstep, ?_⟩
      rw [Nameless.applied, List.foldl_append, ← hd]
      exact congrArg (fun g => Nameless.app g d.nameless) hf'

end Term

namespace Machine

/-- A machine runs, is handed data whenever it waits for some, and runs on until it is done or fails: what
it was handed for which names, the first of them first, its result, and the machine as it is then. -/
inductive Answered (limit : Nat) :
    Machine → List (String × Bytes) → Except ComputationError Value → Machine → Prop where
  | done {m m' : Machine} {value : Value} (h : m.run limit = (.ok (.done value), m')) :
      Answered limit m [] (.ok value) m'
  | failed {m m' : Machine} {error : ComputationError} (h : m.run limit = (.error error, m')) :
      Answered limit m [] (.error error) m'
  | resumed {m m₁ m₂ m' : Machine} {name : String} {payload : Bytes}
      {answers : List (String × Bytes)} {result : Except ComputationError Value}
      (h : m.run limit = (.ok (.suspended name), m₁)) (hresume : m₁.resume payload = .ok m₂)
      (rest : Answered limit m₂ answers result m') :
      Answered limit m ((name, payload) :: answers) result m'

/-- The machine that has been handed the data of a name. -/
def supplied (m : Machine) (name : String) (payload : Bytes) : Machine :=
  { m with
    control := .reduce ⟨.var name, .empty⟩
    externals := (name, .ofPayload payload) :: m.externals }

private theorem lookup_supplied (m : Machine) (name : String) (payload : Bytes) (x : String) :
    (m.supplied name payload).externals.lookup x =
      if x = name then some (.ofPayload payload) else m.externals.lookup x := by
  rcases eq_or_ne x name with rfl | hne
  · rw [if_pos rfl]
    exact List.lookup_cons_self
  · rw [if_neg hne, supplied, List.lookup_cons, beq_false_of_ne hne]

private theorem resume_of_await {m : Machine} {name : String} (h : m.control = .await name)
    (payload : Bytes) : m.resume payload = .ok (m.supplied name payload) := by
  rw [resume, h]
  rfl

/-- A machine that comes to need data waits for it. -/
theorem control_of_step_suspend {m m' : Machine} {name : String}
    (h : m.step = .ok (.suspend name, m')) : m' = { m with control := .await name } := by
  have finished {name' : String} {value : Value} : m.finish name' value ≠ .ok (.suspend name, m') := by
    unfold finish
    split <;> simp
  unfold step at h
  split at h
  · next hcontrol =>
    cases h
    rw [← hcontrol]
  · cases h
  · split at h
    · cases h
    · split at h <;> cases h
  · split at h
    · cases h
    · split at h
      · cases h
      · exact absurd h finished
      · split at h
        · cases h
          rfl
        · exact absurd h finished

private theorem control_of_run_suspended {limit : Nat} {m m' : Machine} {name : String}
    (h : m.run limit = (.ok (.suspended name), m')) : m'.control = .await name := by
  fun_induction run limit m with
  | case1 => cases h
  | case2 => cases h
  | case3 m name' m₁ hs =>
    cases h
    rw [control_of_step_suspend hs]
  | case4 => cases h
  | case5 m m₁ hs hcount hlimit ih => exact ih h

/-- Whatever data is there for each name, a machine that is handed it comes to something. -/
theorem exists_answered (payload : String → Bytes) (limit : Nat) (m : Machine) :
    ∃ (names : List String) (result : _) (m' : Machine),
      Answered limit m (names.map fun name => (name, payload name)) result m' := by
  -- Between two suspensions a step is counted, and the steps are limited.
  have hresumed (k : Nat) : ∀ (m₀ m : Machine) (name : String), m₀.control = .await name →
      m = m₀.supplied name (payload name) → limit - m.steps = k →
      ∃ (names : List String) (result : _) (m' : Machine),
        Answered limit m (names.map fun name => (name, payload name)) result m' := by
    induction k using Nat.strongRecOn with
    | ind k ih =>
      rintro m₀ m name hawait rfl hk
      rcases hrun : (m₀.supplied name (payload name)).run limit with ⟨error | value | next, m₁⟩
      · exact ⟨[], _, _, .failed hrun⟩
      · exact ⟨[], _, _, .done hrun⟩
      · have hcontrol := control_of_run_suspended hrun
        obtain ⟨hless, hlimit⟩ := steps_of_run_resumed (resume_of_await hawait (payload name)) hrun
        have hsteps : (m₁.supplied next (payload next)).steps = m₁.steps := rfl
        have hsteps₀ : (m₀.supplied name (payload name)).steps = m₀.steps := rfl
        obtain ⟨names, result, m', hrest⟩ := ih _ (by omega) m₁ _ next hcontrol rfl rfl
        exact ⟨next :: names, result, m', .resumed hrun (resume_of_await hcontrol _) hrest⟩
  rcases hrun : m.run limit with ⟨error | value | next, m₁⟩
  · exact ⟨[], _, _, .failed hrun⟩
  · exact ⟨[], _, _, .done hrun⟩
  · have hcontrol := control_of_run_suspended hrun
    obtain ⟨names, result, m', hrest⟩ := hresumed _ m₁ _ next hcontrol rfl rfl
    exact ⟨next :: names, result, m', .resumed hrun (resume_of_await hcontrol _) hrest⟩

/-- Whether two machines are about to do the same, whatever data they were handed. -/
structure Alike (m m' : Machine) : Prop where
  control : ∃ closure closure', m.control = .reduce closure ∧ m'.control = .reduce closure' ∧
    (closure = closure' ∨ ∃ name env, closure = ⟨.var name, .empty⟩ ∧ closure' = ⟨.var name, env⟩ ∧
      env.lookup name = none)
  stack : m'.stack = m.stack
  transitions : m'.transitions = m.transitions
  lookups : m'.lookups = m.lookups

/-- Whether a machine was handed all that another one was, and only data of names elsewhere. -/
structure Covers (m' m : Machine) : Prop where
  lookup : ∀ name e, m.externals.lookup name = some e → m'.externals.lookup name = some e
  external : ∀ name e, m'.externals.lookup name = some e → Term.isExternal name = true

/-- Whether a machine is about to ask for the data of a name. -/
structure Asks (m : Machine) (name : String) : Prop where
  external : Term.isExternal name = true
  unknown : m.externals.lookup name = none
  control : ∃ env, m.control = .reduce ⟨.var name, env⟩ ∧ env.lookup name = none

variable {m m' : Machine}

private theorem Alike.steps (h : m.Alike m') : m'.steps = m.steps := by
  rw [Machine.steps, Machine.steps, h.transitions, h.lookups]

private theorem Covers.congr {m₁ m₁' : Machine} (h : m'.Covers m) (hm : m₁.externals = m.externals)
    (hm' : m₁'.externals = m'.externals) : m₁'.Covers m₁ := by
  constructor
  · rw [hm, hm']
    exact h.lookup
  · rw [hm']
    exact h.external

private theorem Covers.supplied {name : String} {payload : Bytes} (h : m'.Covers m)
    (hheld : m'.externals.lookup name = some (.ofPayload payload)) :
    m'.Covers (m.supplied name payload) := by
  constructor
  · intro x e he
    rw [lookup_supplied] at he
    split at he
    · next heq =>
      rw [← he, heq, hheld]
    · exact h.lookup x e he
  · exact h.external

/-- What a machine does with a variable that has no meaning depends on what it was handed. -/
theorem step_free {name : String} {env : Env} (hcontrol : m.control = .reduce ⟨.var name, env⟩)
    (hlookup : env.lookup name = none) :
    m.step =
      match m.externals.lookup name with
      | some (.code term) => .ok (.next, m.jump ⟨term, .empty⟩)
      | some (.data bytes) => m.finish name (.data bytes)
      | none =>
        if Term.isExternal name then .ok (.suspend name, { m with control := .await name })
        else m.finish name (.literal name) := by
  cases hknown : m.externals.lookup name with
  | some value => cases value <;> simp only [step, hcontrol, hlookup, hknown]
  | none => simp only [step, hcontrol, hlookup, hknown]

private theorem step_app {function argument : Term} {env : Env}
    (hcontrol : m.control = .reduce ⟨.app function argument, env⟩) :
    m.step = .ok (.next,
      { m with
        control := .reduce ⟨function, env⟩
        stack := ⟨argument, env⟩ :: m.stack
        transitions := m.transitions + 1 }) := by
  simp only [step, hcontrol]

private theorem step_bind {param : String} {body : Term} {env : Env} {argument : Closure}
    {stack : List Closure} (hcontrol : m.control = .reduce ⟨.abs param body, env⟩)
    (hstack : m.stack = argument :: stack) :
    m.step = .ok (.next,
      { m with
        control := .reduce ⟨body, env.extend param argument⟩
        stack
        transitions := m.transitions + 1 }) := by
  simp only [step, hcontrol, hstack]

private theorem step_bound {name : String} {env : Env} {closure : Closure}
    (hcontrol : m.control = .reduce ⟨.var name, env⟩) (hlookup : env.lookup name = some closure) :
    m.step = .ok (.next, m.jump closure) := by
  simp only [step, hcontrol, hlookup]

private theorem Asks.step {name : String} (h : m.Asks name) :
    m.step = .ok (.suspend name, { m with control := .await name }) := by
  obtain ⟨env, hcontrol, hlookup⟩ := h.control
  rw [step_free hcontrol hlookup, h.unknown]
  exact if_pos h.external

private theorem ends_of_step_eq_finish {name : String} {value : Value} (h : m.step = m.finish name value) :
    m.Ends (if m.stack.isEmpty then .ok (.done value) else .error (.stuck name)) m := by
  split
  · next hbare => exact .done (by rw [h, finish, if_pos hbare])
  · next hbare => exact .error (by rw [h, finish, if_neg hbare])

/-- What two machines come to that take a step each, or end, and the first of them may ask for data
instead. -/
private inductive StepsAlike (m m' : Machine) : Prop where
  | next {m₁ m₁' : Machine} (h : m.step = .ok (.next, m₁)) (h' : m'.step = .ok (.next, m₁'))
      (halike : m₁.Alike m₁') (hexternals : m₁.externals = m.externals)
      (hexternals' : m₁'.externals = m'.externals)
  | ends {result : Except ComputationError Outcome} (h : m.Ends result m) (h' : m'.Ends result m')
      (hresult : ∀ name, result ≠ .ok (.suspended name))
  | asks {name : String} (h : m.Asks name)

private theorem stepsAlike_of_finish (hstack : m'.stack = m.stack) {name : String} {value : Value}
    (h : m.step = m.finish name value) (h' : m'.step = m'.finish name value) :
    m.StepsAlike m' := by
  have hends' := ends_of_step_eq_finish h'
  rw [hstack] at hends'
  refine .ends (ends_of_step_eq_finish h) hends' ?_
  intro name'
  split <;> simp

/-- A variable without meaning is what both were handed for it, if the first one was. -/
private theorem Alike.step_of_free (h : m.Alike m') (hcovers : m'.Covers m) {name : String}
    {env env' : Env} (hcontrol : m.control = .reduce ⟨.var name, env⟩)
    (hcontrol' : m'.control = .reduce ⟨.var name, env'⟩) (hlookup : env.lookup name = none)
    (hlookup' : env'.lookup name = none) : m.StepsAlike m' := by
  have hstep := step_free hcontrol hlookup
  have hstep' := step_free hcontrol' hlookup'
  cases hheld : m.externals.lookup name with
  | some e =>
    rw [hheld] at hstep
    rw [hcovers.lookup name e hheld] at hstep'
    cases e with
    | code term =>
      refine .next hstep hstep' ⟨⟨_, _, rfl, rfl, .inl rfl⟩, h.stack, h.transitions, ?_⟩ rfl rfl
      exact congrArg (· + 1) h.lookups
    | data bytes => exact stepsAlike_of_finish h.stack hstep hstep'
  | none =>
    by_cases hexternal : Term.isExternal name = true
    · exact .asks ⟨hexternal, hheld, env, hcontrol, hlookup⟩
    · have hunknown' : m'.externals.lookup name = none := by
        cases hheld' : m'.externals.lookup name with
        | none => rfl
        | some e => exact absurd (hcovers.external name e hheld') hexternal
      rw [hheld] at hstep
      rw [hunknown'] at hstep'
      simp only [hexternal, Bool.false_eq_true, if_false] at hstep hstep'
      exact stepsAlike_of_finish h.stack hstep hstep'

/-- Machines that are about to do the same do it, unless the one that was handed less comes to need
data. -/
private theorem Alike.step (h : m.Alike m') (hcovers : m'.Covers m) : m.StepsAlike m' := by
  obtain ⟨closure, closure', hcontrol, hcontrol', rfl | ⟨name, env, rfl, rfl, hlookup⟩⟩ := h.control
  · obtain ⟨term, env⟩ := closure
    cases term with
    | app function argument =>
      refine .next (step_app hcontrol) (step_app hcontrol')
        ⟨⟨_, _, rfl, rfl, .inl rfl⟩, ?_, ?_, h.lookups⟩ rfl rfl
      · exact congrArg (_ :: ·) h.stack
      · exact congrArg (· + 1) h.transitions
    | abs param body =>
      cases hstack : m.stack with
      | cons argument stack =>
        have hstack' : m'.stack = argument :: stack := h.stack.trans hstack
        refine .next (step_bind hcontrol hstack) (step_bind hcontrol' hstack')
          ⟨⟨_, _, rfl, rfl, .inl rfl⟩, rfl, ?_, h.lookups⟩ rfl rfl
        exact congrArg (· + 1) h.transitions
      | nil =>
        have hstack' : m'.stack = [] := h.stack.trans hstack
        cases hread : Closure.readback ⟨.abs param body, env⟩ with
        | some value =>
          have hstep : m.step = .ok (.done (.function value), m) := by
            simp only [Machine.step, hcontrol, hstack, hread]
          have hstep' : m'.step = .ok (.done (.function value), m') := by
            simp only [Machine.step, hcontrol', hstack', hread]
          exact .ends (.done hstep) (.done hstep') (by simp)
        | none =>
          have hstep : m.step = .error .tooDeep := by
            simp only [Machine.step, hcontrol, hstack, hread]
          have hstep' : m'.step = .error .tooDeep := by
            simp only [Machine.step, hcontrol', hstack', hread]
          exact .ends (.error hstep) (.error hstep') (by simp)
    | var name =>
      cases hlookup : env.lookup name with
      | some closure =>
        refine .next (step_bound hcontrol hlookup) (step_bound hcontrol' hlookup)
          ⟨⟨_, _, rfl, rfl, .inl rfl⟩, h.stack, h.transitions, ?_⟩ rfl rfl
        exact congrArg (· + 1) h.lookups
      | none => exact h.step_of_free hcovers hcontrol hcontrol' hlookup hlookup
  · exact h.step_of_free hcovers hcontrol hcontrol' rfl hlookup

/-- Machines that are about to do the same run to the same, unless the one that was handed less stops
for data at a place where the other one goes on. -/
theorem Alike.run (h : m.Alike m') (hcovers : m'.Covers m) (limit : Nat) :
    (∃ result m₁ m₁', m.run limit = (result, m₁) ∧ m'.run limit = (result, m₁') ∧
      (∀ name, result ≠ .ok (.suspended name)) ∧ m₁'.transitions = m₁.transitions ∧
      m₁'.lookups = m₁.lookups) ∨
    ∃ (name : String) (m₁ m₁' : Machine),
      m.run limit = (.ok (.suspended name), { m₁ with control := .await name }) ∧
      m₁.Asks name ∧ m'.run limit = m₁'.run limit ∧ m₁.Alike m₁' ∧
      m₁.externals = m.externals ∧ m₁'.externals = m'.externals := by
  induction hleft : limit + 1 - m.steps using Nat.strongRecOn generalizing m m' with
  | ind left ih =>
    cases h.step hcovers with
    | next hstep hstep' halike hexternals hexternals' =>
      next m₁ m₁' =>
      have hcount := steps_of_step_next hstep
      rw [run_eq limit m, run_eq limit m', hstep, hstep']
      dsimp only
      rw [halike.steps]
      split
      · exact .inl ⟨_, _, _, rfl, rfl, by simp, halike.transitions, halike.lookups⟩
      · next hlimit =>
        have hcovers₁ : m₁'.Covers m₁ := hcovers.congr hexternals hexternals'
        obtain hsame | ⟨name, m₂, m₂', hrun, hasks, hrun', halike₂, hex, hex'⟩ :=
          ih _ (by omega) halike hcovers₁ rfl
        · exact .inl hsame
        · exact .inr ⟨name, m₂, m₂', hrun, hasks, hrun', halike₂, hex.trans hexternals,
            hex'.trans hexternals'⟩
    | ends hends hends' hresult =>
      exact .inl ⟨_, _, _, hends.run limit, hends'.run limit, hresult, h.transitions, h.lookups⟩
    | asks hasks =>
      exact .inr ⟨_, m, m', (Ends.suspended hasks.step).run limit, hasks, rfl, h, rfl, rfl⟩

/-- A machine that was handed the data that it had asked for is about to do what one does that had it
all along. -/
theorem Alike.supplied (h : m.Alike m') {name : String} (hasks : m.Asks name) (payload : Bytes) :
    (m.supplied name payload).Alike m' := by
  obtain ⟨env, hcontrol, hlookup⟩ := hasks.control
  obtain ⟨closure, closure', hclosure, hcontrol', hcases⟩ := h.control
  cases hcontrol.symm.trans hclosure
  refine ⟨⟨_, _, rfl, hcontrol', .inr ?_⟩, h.stack, h.transitions, h.lookups⟩
  rcases hcases with rfl | ⟨name', env', heq, rfl, hlookup'⟩
  · exact ⟨name, env, rfl, rfl, hlookup⟩
  · cases heq
    exact ⟨name, env', rfl, rfl, hlookup'⟩

/-- A machine that has all of the data comes at once to what it comes to that is handed the data when it
asks. -/
theorem Answered.held {limit : Nat} {answers : List (String × Bytes)}
    {result : Except ComputationError Value} {last : Machine}
    (h : Answered limit m answers result last) (halike : m.Alike m') (hcovers : m'.Covers m)
    (hanswers : ∀ name payload, (name, payload) ∈ answers →
      m'.externals.lookup name = some (.ofPayload payload)) :
    ∃ last', m'.run limit = (result.map .done, last') ∧ last'.transitions = last.transitions ∧
      last'.lookups = last.lookups := by
  induction h generalizing m' with
  | done h | failed h =>
    obtain ⟨result, m₁, m₁', hrun, hrun', -, hcounts⟩ | ⟨name, m₁, m₁', hrun, -⟩ :=
      halike.run hcovers limit
    · cases hrun.symm.trans h
      exact ⟨m₁', hrun', hcounts⟩
    · cases hrun.symm.trans h
  | resumed h hresume rest ih =>
    next m _ m₂ _ name payload answers result =>
    obtain ⟨result, m₁, m₁', hrun, -, hresult, -⟩ |
        ⟨name', m₁, m₁', hrun, hasks, hrun', halike₁, hex, hex'⟩ := halike.run hcovers limit
    · cases hrun.symm.trans h
      exact absurd rfl (hresult _)
    · cases hrun.symm.trans h
      cases hresume
      rw [hrun']
      have hcovers₁ : m₁'.Covers m₁ := hcovers.congr hex hex'
      have hheld : m₁'.externals.lookup name = some (.ofPayload payload) := by
        rw [hex']
        exact hanswers _ _ (List.mem_cons_self ..)
      apply ih (halike₁.supplied hasks payload) (hcovers₁.supplied hheld)
      intro x p hmem
      rw [hex']
      exact hanswers x p (List.mem_cons_of_mem _ hmem)

/-- The code that some names stand for once the data of them was supplied. -/
def suppliedCode (payload : String → Bytes) (names : List String) (x : String) : Option Term :=
  if x ∈ names then (External.ofPayload (payload x)).code? else none

/-- Whether a machine was handed the data of some names and no other. -/
def Holds (payload : String → Bytes) (names : List String) (m : Machine) : Prop :=
  ∀ x, m.externals.lookup x = if x ∈ names then some (.ofPayload (payload x)) else none

/-- Whether a machine reduces what a term comes to where some names stand for code. -/
structure Represents (code : String → Option Term) (t : Term) (m : Machine) : Prop where
  reduces : ∃ closure, m.control = .reduce closure
  reached : ∃ u, t.ReducesWith code u ∧ u.nameless = m.meaning

/-- The machine without the data that it was handed. -/
private def bare (m : Machine) : Machine := { m with externals := [] }

/-- A step that goes on puts code in the place of a name, or needs no data. -/
private theorem step_next_cases {closure : Closure} (hcontrol : m.control = .reduce closure)
    {m' : Machine} (h : m.step = .ok (.next, m')) :
    m'.externals = m.externals ∧
      (m.bare.step = .ok (.next, m'.bare) ∨
        ∃ name env term, closure = ⟨.var name, env⟩ ∧ env.lookup name = none ∧
          m.externals.lookup name = some (.code term) ∧ m' = m.jump ⟨term, .empty⟩) := by
  obtain ⟨term, env⟩ := closure
  cases term with
  | app function argument =>
    rw [step_app hcontrol] at h
    cases h
    exact ⟨rfl, .inl (step_app hcontrol)⟩
  | abs param body =>
    cases hstack : m.stack with
    | cons argument stack =>
      rw [step_bind hcontrol hstack] at h
      cases h
      exact ⟨rfl, .inl (step_bind hcontrol hstack)⟩
    | nil =>
      simp only [step, hcontrol, hstack] at h
      split at h <;> cases h
  | var name =>
    cases hlookup : env.lookup name with
    | some closure =>
      rw [step_bound hcontrol hlookup] at h
      cases h
      exact ⟨rfl, .inl (step_bound hcontrol hlookup)⟩
    | none =>
      rw [step_free hcontrol hlookup] at h
      split at h
      · next term hheld =>
        cases h
        exact ⟨rfl, .inr ⟨name, env, term, rfl, hlookup, hheld, rfl⟩⟩
      · unfold finish at h
        split at h <;> cases h
      · unfold finish at h
        split at h
        · cases h
        · split at h <;> cases h

/-- A step that goes on reduces the term at its head, if it changes it. -/
theorem Represents.next {code : String → Option Term} {t : Term} (hm : m.Represents code t)
    (hcode : ∀ x c, m.externals.lookup x = some (.code c) → code x = some c)
    (h : m.step = .ok (.next, m')) : m'.Represents code t ∧ m'.externals = m.externals := by
  obtain ⟨⟨closure, hcontrol⟩, u, hreached, hu⟩ := hm
  obtain ⟨hexternals, hbare | ⟨name, env, term, rfl, hlookup, hheld, rfl⟩⟩ :=
    step_next_cases hcontrol h
  · have hunsupplied : m.bare.IsUnsupplied := ⟨⟨closure, hcontrol⟩, rfl⟩
    obtain ⟨⟨hreduces', -⟩, ⟨hsame, -⟩ | hcontract⟩ := hunsupplied.next hbare
    · exact ⟨⟨hreduces', u, hreached, hu.trans hsame.symm⟩, hexternals⟩
    · have hcontract : u.nameless.WeakHead m'.bare.meaning := hu ▸ hcontract
      obtain ⟨u', hstep, hu'⟩ := Term.exists_weakHead_of_nameless hcontract
      exact ⟨⟨hreduces', u', hreached.tail hstep.withCode, hu'⟩, hexternals⟩
  · have hfree : Closure.meaning ⟨.var name, env⟩ = .free name := Env.meaning_of_lookup_eq_none hlookup
    rw [meaning, hcontrol, Control.meaning, hfree] at hu
    obtain ⟨u', hstep, hu'⟩ := Term.exists_fetch_of_nameless (hcode name term hheld) hu
    refine ⟨⟨⟨_, rfl⟩, u', hreached.tail hstep, ?_⟩, hexternals⟩
    rw [hu']
    rfl

/-- A machine that reduces a term needs data only for a name that has no meaning. -/
theorem asks_of_step_suspend {name : String} (hreduces : ∃ closure, m.control = .reduce closure)
    (h : m.step = .ok (.suspend name, m')) : m.Asks name := by
  obtain ⟨⟨term, env⟩, hcontrol⟩ := hreduces
  cases term with
  | app function argument =>
    rw [step_app hcontrol] at h
    cases h
  | abs param body =>
    cases hstack : m.stack with
    | cons argument stack =>
      rw [step_bind hcontrol hstack] at h
      cases h
    | nil =>
      simp only [step, hcontrol, hstack] at h
      split at h <;> cases h
  | var x =>
    cases hlookup : env.lookup x with
    | some closure =>
      rw [step_bound hcontrol hlookup] at h
      cases h
    | none =>
      rw [step_free hcontrol hlookup] at h
      split at h
      · cases h
      · unfold finish at h
        split at h <;> cases h
      · next hunknown =>
        split at h
        · next hexternal =>
          cases h
          exact ⟨hexternal, hunknown, env, hcontrol, hlookup⟩
        · unfold finish at h
          split at h <;> cases h

/-- A machine that comes to need data asks for what is the head of its term. -/
theorem Represents.asks_of_run {code : String → Option Term} {t : Term} {limit : Nat} {name : String}
    (hm : m.Represents code t)
    (hcode : ∀ x c, m.externals.lookup x = some (.code c) → code x = some c)
    (h : m.run limit = (.ok (.suspended name), m')) :
    ∃ m₁ : Machine, m₁.Asks name ∧ m₁.Represents code t ∧ m₁.externals = m.externals ∧
      m' = { m₁ with control := .await name } := by
  fun_induction run limit m with
  | case1 => cases h
  | case2 => cases h
  | case3 m name' m₁ hs =>
    cases h
    exact ⟨m, asks_of_step_suspend hm.reduces hs, hm, rfl, control_of_step_suspend hs⟩
  | case4 => cases h
  | case5 m m₁ hs hcount hlimit ih =>
    obtain ⟨hm₁, hexternals⟩ := hm.next hcode hs
    rw [hexternals] at ih
    exact ih hm₁ hcode h

/-- What a machine asks for is the head of a term with arguments. -/
theorem Represents.exists_applied {code : String → Option Term} {t : Term} {name : String}
    (hm : m.Represents code t) (h : m.Asks name) :
    ∃ args, t.ReducesWith code ((Term.var name).applied args) := by
  obtain ⟨u, hreached, hu⟩ := hm.reached
  obtain ⟨env, hcontrol, hlookup⟩ := h.control
  have hfree : Closure.meaning ⟨.var name, env⟩ = .free name := Env.meaning_of_lookup_eq_none hlookup
  rw [meaning, hcontrol, Control.meaning, hfree] at hu
  obtain ⟨args, rfl, -⟩ := Term.exists_applied_of_nameless hu
  exact ⟨args, hreached⟩

/-- To hand a machine the data of a name leaves its term as it is. -/
theorem Represents.supplied {code code' : String → Option Term} {t : Term} {name : String}
    (hm : m.Represents code t) (h : m.Asks name) (hcode : ∀ x c, code x = some c → code' x = some c)
    (payload : Bytes) : (m.supplied name payload).Represents code' t := by
  obtain ⟨u, hreached, hu⟩ := hm.reached
  obtain ⟨env, hcontrol, hlookup⟩ := h.control
  have hfree : Closure.meaning ⟨.var name, env⟩ = .free name := Env.meaning_of_lookup_eq_none hlookup
  refine ⟨⟨_, rfl⟩, u, hreached.mono hcode, ?_⟩
  rw [hu, meaning, hcontrol, Control.meaning, hfree]
  rfl

section Asked

variable {payload : String → Bytes} {names : List String}

private theorem Holds.code (h : m.Holds payload names) (x : String) (c : Term)
    (hx : m.externals.lookup x = some (.code c)) : suppliedCode payload names x = some c := by
  rw [h x] at hx
  split at hx
  · next hmem =>
    rw [suppliedCode, if_pos hmem, Option.some.inj hx]
    rfl
  · cases hx

private theorem Holds.not_mem {name : String} (h : m.Holds payload names)
    (hname : m.externals.lookup name = none) : name ∉ names := by
  intro hmem
  rw [h name, if_pos hmem] at hname
  cases hname

private theorem Holds.supplied (h : m.Holds payload names) (name : String) :
    (m.supplied name (payload name)).Holds payload (names ++ [name]) := by
  intro x
  rw [lookup_supplied, h x]
  rcases eq_or_ne x name with rfl | hne
  · simp
  · simp [hne]

private theorem suppliedCode_append {x : String} {c : Term} (h : suppliedCode payload names x = some c)
    (more : List String) : suppliedCode payload (names ++ more) x = some c := by
  unfold suppliedCode at h ⊢
  split at h
  · next hmem =>
    rw [if_pos (List.mem_append_left more hmem)]
    exact h
  · cases h

/-- A machine never asks twice, and only for the head of what its term comes to with the data that it
was handed before. -/
theorem Answered.asked {limit : Nat} {t : Term} {answers : List (String × Bytes)}
    {result : Except ComputationError Value} {last : Machine}
    (h : Answered limit m answers result last)
    (hanswers : answers = names.map fun name => (name, payload name)) {before : List String}
    (hholds : m.Holds payload before) (hm : m.Represents (suppliedCode payload before) t) :
    names.Nodup ∧ (∀ name ∈ names, name ∉ before) ∧
      ∀ front name back, names = front ++ name :: back →
        Term.isExternal name = true ∧
          ∃ args, t.ReducesWith (suppliedCode payload (before ++ front))
            ((Term.var name).applied args) := by
  induction h generalizing names before with
  | done | failed =>
    cases names with
    | nil => simp
    | cons name rest => cases hanswers
  | resumed hrun hresume rest ih =>
    cases names with
    | nil => cases hanswers
    | cons name names =>
      injection hanswers with hfirst hanswers
      obtain ⟨rfl, rfl⟩ := Prod.mk.inj hfirst.symm
      obtain ⟨m₁, hasks, hm₁, hexternals, rfl⟩ := hm.asks_of_run hholds.code hrun
      cases hresume
      have hholds₁ : m₁.Holds payload before := by
        intro x
        rw [hexternals]
        exact hholds x
      have hnew : name ∉ before := hholds₁.not_mem hasks.unknown
      have hmore (x : String) (c : Term) (hx : suppliedCode payload before x = some c) :
          suppliedCode payload (before ++ [name]) x = some c := suppliedCode_append hx [name]
      obtain ⟨hnodup, hapart, hheads⟩ :=
        ih hanswers (hholds₁.supplied name) (hm₁.supplied hasks hmore (payload name))
      refine ⟨List.nodup_cons.mpr ⟨?_, hnodup⟩, ?_, ?_⟩
      · intro hmem
        exact hapart name hmem (by simp)
      · intro x hx
        rcases List.mem_cons.mp hx with rfl | hx
        · exact hnew
        · intro hmem
          exact hapart x hx (List.mem_append_left _ hmem)
      · intro front x back hsplit
        cases front with
        | nil =>
          cases hsplit
          rw [List.append_nil]
          exact ⟨hasks.external, hm₁.exists_applied hasks⟩
        | cons first front =>
          cases hsplit
          have hheads := hheads front x back rfl
          rwa [List.append_assoc] at hheads

end Asked

private theorem represents_ofTerm (t : Term) (code : String → Option Term) :
    (ofTerm t).Represents code t :=
  ⟨⟨_, rfl⟩, t, .refl, rfl⟩

/-- To stop for data makes no difference. Whatever data there is for each name, a machine that is handed
it when it asks comes to a result or an error, and a machine that has the data from the start comes to
the same in one run with the same counts. No name is asked for twice, and only one that is the head of
what the term is reduced to by name, with the functions in the place of names that were asked for
before. -/
theorem run_eq_of_answered (payload : String → Bytes) (t : Term) (limit : Nat) :
    (∃ (names : List String) (result : _) (last : Machine),
      Answered limit (ofTerm t) (names.map fun name => (name, payload name)) result last) ∧
    ∀ (names : List String) result last,
      Answered limit (ofTerm t) (names.map fun name => (name, payload name)) result last →
      (∀ held : List (String × External),
        (∀ name ∈ names, held.lookup name = some (.ofPayload (payload name))) →
        (∀ name e, held.lookup name = some e → Term.isExternal name = true) →
        ∃ last', run limit { ofTerm t with externals := held } = (result.map .done, last') ∧
          last'.transitions = last.transitions ∧ last'.lookups = last.lookups) ∧
      names.Nodup ∧
      ∀ before name after, names = before ++ name :: after →
        Term.isExternal name = true ∧
          ∃ args, t.ReducesWith (suppliedCode payload before) ((Term.var name).applied args) := by
  refine ⟨exists_answered payload limit (ofTerm t), ?_⟩
  intro names result last h
  refine ⟨?_, ?_⟩
  · intro held hheld hexternal
    have halike : (ofTerm t).Alike { ofTerm t with externals := held } :=
      ⟨⟨_, _, rfl, rfl, .inl rfl⟩, rfl, rfl, rfl⟩
    have hcovers : Covers { ofTerm t with externals := held } (ofTerm t) :=
      ⟨fun name e he => absurd he (by simp [ofTerm]), hexternal⟩
    apply h.held halike hcovers
    intro name bytes hmem
    obtain ⟨x, hx, heq⟩ := List.mem_map.mp hmem
    cases heq
    exact hheld name hx
  · have hholds : (ofTerm t).Holds payload [] := fun x => rfl
    obtain ⟨hnodup, -, hheads⟩ := h.asked rfl hholds (represents_ofTerm t _)
    exact ⟨hnodup, hheads⟩

end Machine

end NamedFunctions
