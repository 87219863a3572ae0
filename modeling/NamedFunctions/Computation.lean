import NamedFunctions.Machine
import NamedFunctions.Packet

/-!
# Computations

A computation reduces the expression in the name of an Interest. When its machine needs data from
elsewhere the computation is suspended under its number, until the data is handed to it.
-/

namespace NamedFunctions

/-- A reduction on behalf of an Interest. `nfn-relay/src/computation/mod:33–42`. -/
structure Computation where
  id : ComputationId
  /-- The Interest that asked for the result. -/
  origin : Interest
  /-- The name of the data that is awaited. -/
  awaiting : Option Name := none
  machine : Machine
deriving Repr

/-- Where a computation stands once its machine has stopped. `nfn-relay/src/computation/mod:50–62`. -/
inductive Progress where
  /-- It has a result. -/
  | done (origin : Interest) (result : Bytes) (transitions : Nat)
  /-- It needs the data of a name. -/
  | suspended (computation : Computation) (name : Name)
deriving Repr

namespace Computation

/-- Run the machine of a computation. `nfn-relay/src/computation/mod:125–146`. -/
def drive (limit : Nat) (c : Computation) : Except ComputationError Progress :=
  match c.machine.run limit with
  | (.error error, _) => .error error
  | (.ok (.done value), machine) => .ok (.done c.origin value.bytes machine.transitions)
  | (.ok (.suspended external), machine) =>
    match Name.ofUri external c.origin.name.suite with
    | .error error => .error (.badName error)
    | .ok name => .ok (.suspended { c with awaiting := some name, machine } name)

/-- Hand a computation the data that it needs, and run it on. `nfn-relay/src/computation/mod:111–113`. -/
def resume (limit : Nat) (c : Computation) (payload : Bytes) : Except ComputationError Progress :=
  match c.machine.resume payload with
  | .error error => .error error
  | .ok machine => drive limit { c with awaiting := none, machine }

/-- A computation that was handed its data and comes to need more has taken a step, within the
limit. -/
theorem steps_of_resume_suspended {limit : Nat} {c c' : Computation} {payload : Bytes} {name : Name}
    (h : c.resume limit payload = .ok (.suspended c' name)) :
    c.machine.steps < c'.machine.steps ∧ c'.machine.steps ≤ limit := by
  unfold resume at h
  split at h
  · cases h
  next machine hr =>
    unfold drive at h
    split at h
    · cases h
    · cases h
    next hrun =>
      split at h
      · cases h
      · cases h
        exact Machine.steps_of_run_resumed hr hrun

/-- The expression that an Interest asks to be reduced. `nfn-relay/src/computation/mod:82–90`. -/
def expression (interest : Interest) : Except ComputationError Term :=
  match interest.name.expression? with
  | none => .error (.notAnExpression interest.name.toString)
  | some text => (Term.parse text).mapError .parse

end Computation

/-- The suspended computations, in the order of their numbers. `nfn-relay/src/computation/mod:64–70`. -/
structure ComputationTable where
  suspended : List Computation := []
  nextId : Nat := 0
  /-- How many steps a computation may take in total. -/
  stepLimit : Nat
deriving Repr

namespace ComputationTable

/-- The suspended computation with a number. `nfn-relay/src/computation/mod:148–150`. -/
def get? (table : ComputationTable) (id : ComputationId) : Option Computation :=
  table.suspended.find? (·.id == id)

/-- Whether a suspended computation has a number. `nfn-relay/src/computation/mod:152–154`. -/
def contains (table : ComputationTable) (id : ComputationId) : Bool := (table.get? id).isSome

/-- How many computations are suspended. `nfn-relay/src/computation/mod:156–158`. -/
def size (table : ComputationTable) : Nat := table.suspended.length

/-- The table without the computation that has a number. `nfn-relay/src/computation/mod:106–108`. -/
def erase (table : ComputationTable) (id : ComputationId) : ComputationTable :=
  { table with suspended := table.suspended.filter (·.id != id) }

/-- The table with a computation in its place. `nfn-relay/src/computation/mod:142`. -/
def insert (table : ComputationTable) (c : Computation) : ComputationTable :=
  { table with
    suspended := table.suspended.filter (·.id.val < c.id.val) ++
      c :: table.suspended.filter (c.id.val < ·.id.val) }

/-- Give out the next number for a computation of the expression in an Interest. A number is used up only if
the expression can be read. `nfn-relay/src/computation/mod:82–102`. -/
def create (table : ComputationTable) (interest : Interest) :
    Except ComputationError (Computation × ComputationTable) :=
  (Computation.expression interest).map fun term =>
    ({ id := ⟨table.nextId⟩, origin := interest, machine := .ofTerm term },
      { table with nextId := table.nextId + 1 })

/-- Keep a computation that has come to need data. `nfn-relay/src/computation/mod:136–144`. -/
def keep (table : ComputationTable) : Except ComputationError Progress → ComputationTable
  | .ok (.suspended c _) => table.insert c
  | _ => table

/-- Begin to reduce the expression in an Interest. `nfn-relay/src/computation/mod:82–102`. -/
def start (table : ComputationTable) (interest : Interest) :
    Except ComputationError Progress × ComputationTable :=
  match table.create interest with
  | .error error => (.error error, table)
  | .ok (c, table) =>
    let progress := c.drive table.stepLimit
    (progress, table.keep progress)

/-- Hand a suspended computation the data that it needs. `nfn-relay/src/computation/mod:105–114`. -/
def resume (table : ComputationTable) (id : ComputationId) (payload : Bytes) :
    Except ComputationError Progress × ComputationTable :=
  match table.get? id with
  | none => (.error (.unknownComputation id), table)
  | some c =>
    let progress := c.resume table.stepLimit payload
    (progress, (table.erase id).keep progress)

/-- Forget a suspended computation; whether there was one. `nfn-relay/src/computation/mod:117–123`. -/
def discard (table : ComputationTable) (id : ComputationId) : Bool × ComputationTable :=
  (table.contains id, table.erase id)

private theorem length_filter_add_filter_le (n : Nat) (cs : List Computation) :
    (cs.filter (·.id.val < n)).length + (cs.filter (n < ·.id.val)).length ≤ cs.length := by
  induction cs with
  | nil => simp
  | cons c cs ih =>
    by_cases h₁ : c.id.val < n
    · have h₂ : ¬ n < c.id.val := by omega
      simp only [List.filter_cons, h₁, h₂, decide_true, decide_false, if_true, List.length_cons]
      simp only [Bool.false_eq_true, if_false]
      omega
    · simp only [List.filter_cons, h₁, decide_false, Bool.false_eq_true, if_false, List.length_cons]
      split
      · rw [List.length_cons]
        omega
      · omega

/-- A computation takes at most one place. -/
theorem size_insert_le (table : ComputationTable) (c : Computation) :
    (table.insert c).size ≤ table.size + 1 := by
  have := length_filter_add_filter_le c.id.val table.suspended
  simp only [size, insert, List.length_append, List.length_cons]
  omega

/-- Removing a computation that is there makes the table smaller. -/
theorem size_erase_lt {table : ComputationTable} {id : ComputationId} {c : Computation}
    (h : table.get? id = some c) : (table.erase id).size < table.size := by
  have hmem := List.mem_of_find?_eq_some h
  have hid := List.find?_some h
  simp only [size, erase]
  apply List.length_filter_lt_length_iff_exists.mpr
  exact ⟨c, hmem, by simpa using hid⟩

end ComputationTable

end NamedFunctions
