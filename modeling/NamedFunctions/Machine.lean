import NamedFunctions.Machine.Readback
import NamedFunctions.Name.Uri
import NamedFunctions.Term.Parser
import NamedFunctions.Text.Utf8

/-!
# The abstract machine

A machine reduces a term to weak head normal form, by name: an argument is put on the stack with its
environment and looked at only when its variable comes first. A name without a binding that stands
for data elsewhere suspends the machine until the data is supplied. Steps are counted, and a run
ends once more than a limit have been taken in total.
-/

namespace NamedFunctions

/-- The number of a computation, which is never given twice. `nfn-relay/src/computation/mod:22–25`. -/
structure ComputationId where
  val : Nat
deriving DecidableEq, Repr

/-- The identity of a computation as it is shown. `nfn-relay/src/computation/mod:27–31`. -/
def ComputationId.toString (id : ComputationId) : String :=
  "config#" ++ ToString.toString id.val

/-- Why a computation fails. `nfn-relay/src/error:27–44`. -/
inductive ComputationError where
  /-- The text is no expression. -/
  | parse (error : Term.ParseError)
  /-- The name requests no computation. -/
  | notAnExpression (name : String)
  /-- The name of the data that is needed cannot be read. -/
  | badName (error : NameError)
  /-- What is no function has an argument. -/
  | stuck (name : String)
  /-- No suspended computation has this number. -/
  | unknownComputation (id : ComputationId)
  /-- More steps than allowed were taken. -/
  | stepLimit (limit : Nat)
  /-- No data is awaited. -/
  | notSuspended
  /-- The result has too many levels. -/
  | tooDeep
deriving DecidableEq, Repr

/-- The text of an error. `nfn-relay/src/error:30–43`. -/
def ComputationError.message : ComputationError → String
  | parse error => error.message
  | notAnExpression name => "malformed expression: " ++ name ++ " is not an expression"
  | badName error => "malformed expression: " ++ error.message
  | stuck name => "cannot apply " ++ name ++ " to an argument"
  | unknownComputation id => "no suspended computation with id " ++ id.toString
  | stepLimit limit => "reduction exceeded " ++ toString limit ++ " steps"
  | notSuspended => "machine is not waiting for external data"
  | tooDeep => Term.tooDeepMessage

/-- What is known about a name of data elsewhere. `nfn-relay/src/computation/machine:78–83`. -/
inductive External where
  /-- The data is a function. -/
  | code (term : Term)
  /-- The data is taken as it is. -/
  | data (bytes : Bytes)
deriving Repr

/-- Data that spells an abstraction is a function; all other data is taken as it is.
`nfn-relay/src/computation/machine:240–247`. -/
def External.ofPayload (payload : Bytes) : External :=
  match Utf8.decode? payload with
  | none => .data payload
  | some text =>
    match Term.parse (String.ofList text) with
    | .ok (.abs param body) => .code (.abs param body)
    | _ => .data payload

/-- The result of a reduction. `nfn-relay/src/computation/machine:85–94`. -/
inductive Value where
  /-- An abstraction with the meanings of its variables in their place. -/
  | function (term : Term)
  /-- A name that stands for itself. -/
  | literal (name : String)
  /-- The data of a name. -/
  | data (bytes : Bytes)
deriving DecidableEq, Repr

/-- The octets of a result. `nfn-relay/src/computation/machine:96–104`. -/
def Value.bytes : Value → Bytes
  | function term => Utf8.encode term.chars
  | literal name => Utf8.encode name.toList
  | data bytes => bytes

/-- What a machine is about to do. `nfn-relay/src/computation/machine:123–131`. -/
inductive Control where
  /-- Reduce a term in an environment. -/
  | reduce (closure : Closure)
  /-- Wait for the data of a name. -/
  | await (name : String)
deriving Repr

/-- The state of a reduction. `nfn-relay/src/computation/machine:122–131`. -/
structure Machine where
  control : Control
  /-- The arguments of the term in control, the first of them first. -/
  stack : List Closure := []
  /-- The data that was supplied, by name. -/
  externals : List (String × External) := []
  /-- How often an argument was put on the stack or bound. -/
  transitions : Nat := 0
  /-- How often a variable was replaced by its meaning. -/
  lookups : Nat := 0
deriving Repr

/-- What a single step comes to. `nfn-relay/src/computation/machine:106–113`. -/
inductive Step where
  | next
  | done (value : Value)
  | suspend (name : String)
deriving DecidableEq, Repr

/-- What a run comes to. `nfn-relay/src/computation/machine:115–120`. -/
inductive Outcome where
  | done (value : Value)
  | suspended (name : String)
deriving DecidableEq, Repr

namespace Machine

/-- The machine that is about to reduce a closed term. `nfn-relay/src/computation/machine:134–144`. -/
def ofTerm (term : Term) : Machine := { control := .reduce ⟨term, .empty⟩ }

/-- All steps that were counted. `nfn-relay/src/computation/machine:225`. -/
def steps (m : Machine) : Nat := m.transitions + m.lookups

/-- The name of the data that is awaited. `nfn-relay/src/computation/machine:156–159`. -/
def awaiting (m : Machine) : Option String :=
  match m.control with
  | .reduce _ => none
  | .await name => some name

/-- End with a value, which cannot take arguments. `nfn-relay/src/computation/machine:211–217`. -/
def finish (m : Machine) (name : String) (value : Value) :
    Except ComputationError (Step × Machine) :=
  if m.stack.isEmpty then .ok (.done value, m) else .error (.stuck name)

/-- Replace the variable in control by its meaning. `nfn-relay/src/computation/machine:187–192`. -/
def jump (m : Machine) (closure : Closure) : Machine :=
  { m with control := .reduce closure, lookups := m.lookups + 1 }

/-- Take a step. A machine that is done, waits or fails stays as it is.
`nfn-relay/src/computation/machine:161–209`. -/
def step (m : Machine) : Except ComputationError (Step × Machine) :=
  match m.control with
  | .await name => .ok (.suspend name, m)
  | .reduce ⟨.app function argument, env⟩ =>
    .ok (.next,
      { m with
        control := .reduce ⟨function, env⟩
        stack := ⟨argument, env⟩ :: m.stack
        transitions := m.transitions + 1 })
  | .reduce ⟨.abs param body, env⟩ =>
    match m.stack with
    | argument :: stack =>
      .ok (.next,
        { m with
          control := .reduce ⟨body, env.extend param argument⟩
          stack
          transitions := m.transitions + 1 })
    | [] =>
      match Closure.readback ⟨.abs param body, env⟩ with
      | some term => .ok (.done (.function term), m)
      | none => .error .tooDeep
  | .reduce ⟨.var name, env⟩ =>
    match env.lookup name with
    | some closure => .ok (.next, m.jump closure)
    | none =>
      match m.externals.lookup name with
      | some (.code term) => .ok (.next, m.jump ⟨term, .empty⟩)
      | some (.data bytes) => m.finish name (.data bytes)
      | none =>
        if Term.isExternal name then .ok (.suspend name, { m with control := .await name })
        else m.finish name (.literal name)

/-- Each step that goes on is counted once. -/
theorem steps_of_step_next {m m' : Machine} (h : m.step = .ok (.next, m')) :
    m'.steps = m.steps + 1 := by
  unfold step at h
  split at h
  · cases h
  · cases h
    simp only [steps]
    omega
  · split at h
    · cases h
      simp only [steps]
      omega
    · split at h <;> cases h
  · split at h
    · cases h
      simp only [steps, jump]
      omega
    · split at h
      · cases h
        simp only [steps, jump]
        omega
      · unfold finish at h
        split at h <;> cases h
      · split at h
        · cases h
        · unfold finish at h
          split at h <;> cases h

/-- Take steps until the machine is done, waits or fails, or more than `limit` were taken in total, with the
machine as it is then. `nfn-relay/src/computation/machine:219–233`. -/
def run (limit : Nat) (m : Machine) : Except ComputationError Outcome × Machine :=
  match h : m.step with
  | .error error => (.error error, m)
  | .ok (.done value, m') => (.ok (.done value), m')
  | .ok (.suspend name, m') => (.ok (.suspended name), m')
  | .ok (.next, m') =>
    have := steps_of_step_next h
    if m'.steps > limit then (.error (.stepLimit limit), m') else run limit m'
termination_by limit + 1 - m.steps

/-- Supply the data that is awaited. `nfn-relay/src/computation/machine:235–250`. -/
def resume (m : Machine) (payload : Bytes) : Except ComputationError Machine :=
  match m.control with
  | .reduce _ => .error .notSuspended
  | .await name =>
    .ok { m with
      control := .reduce ⟨.var name, .empty⟩
      externals := (name, .ofPayload payload) :: m.externals }

/-- Waiting for data takes no step. -/
theorem steps_of_step_suspend {m m' : Machine} {name : String}
    (h : m.step = .ok (.suspend name, m')) : m'.steps = m.steps := by
  have finished {name' : String} {value : Value}
      (h : m.finish name' value = .ok (.suspend name, m')) : m'.steps = m.steps := by
    unfold finish at h
    split at h <;> cases h
  unfold step at h
  split at h
  · cases h
    rfl
  · cases h
  · split at h
    · cases h
    · split at h <;> cases h
  · split at h
    · cases h
    · split at h
      · cases h
      · exact finished h
      · split at h
        · cases h
          rfl
        · exact finished h

/-- A run that comes to need data has not gone beyond the limit, unless it began there. -/
theorem steps_of_run_suspended {limit : Nat} {m m' : Machine} {name : String}
    (h : m.run limit = (.ok (.suspended name), m')) :
    m.steps ≤ m'.steps ∧ (m.steps ≤ limit → m'.steps ≤ limit) := by
  fun_induction run limit m with
  | case1 => cases h
  | case2 => cases h
  | case3 m name' m₁ hs =>
    cases h
    rw [steps_of_step_suspend hs]
    exact ⟨Nat.le_refl _, id⟩
  | case4 => cases h
  | case5 m m₁ hs hcount hlimit ih =>
    have := ih h
    omega

/-- After a machine was handed its data, its first step is counted or its last. -/
theorem step_resumed {m m₁ : Machine} {payload : Bytes} (h : m.resume payload = .ok m₁)
    {name : String} {m' : Machine} : m₁.step ≠ .ok (.suspend name, m') := by
  intro hs
  unfold resume at h
  split at h
  · cases h
  next awaited _ =>
    cases h
    simp only [step, Env.lookup, List.lookup_cons_self] at hs
    split at hs
    · cases hs
    · unfold finish at hs
      split at hs <;> cases hs
    next hl => cases hl

/-- A machine that was handed its data and comes to need more has taken a step, within the limit. -/
theorem steps_of_run_resumed {limit : Nat} {m m₁ m' : Machine} {payload : Bytes} {name : String}
    (hr : m.resume payload = .ok m₁) (h : m₁.run limit = (.ok (.suspended name), m')) :
    m.steps < m'.steps ∧ m'.steps ≤ limit := by
  have hsame : m₁.steps = m.steps := by
    unfold resume at hr
    split at hr
    · cases hr
    · cases hr
      rfl
  rw [run] at h
  split at h
  · cases h
  · cases h
  next hs => exact absurd hs (step_resumed hr)
  next m₂ hs =>
    have hcount := steps_of_step_next hs
    dsimp only at h
    split at h
    · cases h
    · have := steps_of_run_suspended h
      omega

end Machine

end NamedFunctions
