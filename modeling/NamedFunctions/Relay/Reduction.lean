import NamedFunctions.Relay.Delivery

/-!
# Computations in a relay

A computation that needs data takes it from the content store, joins a pending Interest for it, or
sends an Interest of its own. Its result is cached for good and delivered like data from elsewhere,
which can resume other computations; what they yield is delivered in turn.

This ends. A computation that goes on with cached data has taken a step since it last needed some, and
its steps are limited in total. Each result that is delivered removes a suspended computation, and
none is created on the way.
-/

namespace NamedFunctions.Relay

/-- What a computation comes to. `nfn-relay/src/engine:389–392,415–420`. -/
inductive Settled where
  /-- It has a result for an Interest. -/
  | finished (origin : Interest) (result : Bytes)
  /-- It is suspended. -/
  | waiting (id : ComputationId)

/-- Send an Interest for the data that a computation needs and let it wait. Without a way for the Interest the
computation is given up. `nfn-relay/src/engine:407–420`. -/
def issue (r : Relay) (c : Computation) (name : Name) : Except RelayError Settled × Relay :=
  let (nonce, source) := r.source.next
  let nonces := (r.nonces.record nonce r.clock).2
  let sub := (Interest.ofName name).withNonce nonce
  let (id, pending) := r.pending.insert sub (.computation c.id) r.clock
  let r := { r with source, nonces, pending }.count fun s =>
    { s with subInterests := s.subInterests + 1 }
  match r.propagate id with
  | (some _, r) => (.ok (.waiting c.id), { r with computations := r.computations.insert c })
  | (none, r) =>
    (.error (.noRoute name.toString),
      { r with pending := r.pending.erase id, nonces := r.nonces.erase nonce })

/-- Let a computation wait for data that is not cached: with a pending Interest for it, or with a new one.
`nfn-relay/src/engine:402–420`. -/
def await (r : Relay) (c : Computation) (name : Name) : Except RelayError Settled × Relay :=
  match r.pending.findSame (Interest.ofName name) with
  | some id =>
    (.ok (.waiting c.id),
      { r with
        pending := (r.pending.addRequester id (.computation c.id) none r.clock).2
        computations := r.computations.insert c })
  | none => r.issue c name

/-- Take a computation that needs the data of a name as far as cached data takes it.
`nfn-relay/src/engine:382–422`. -/
def advance (r : Relay) (c : Computation) (name : Name) : Except RelayError Settled × Relay :=
  match r.store.lookup (Interest.ofName name) r.clock with
  | none => r.await c name
  | some (content, store) =>
    let r' := { r with store }.count fun s => { s with cacheHits := s.cacheHits + 1 }
    match h : c.resume r.computations.stepLimit content.payload with
    | .error error => (.error (.computation error), r')
    | .ok (.done origin result _) => (.ok (.finished origin result), r')
    | .ok (.suspended c' name') =>
      have := Computation.steps_of_resume_suspended h
      advance r' c' name'
termination_by r.computations.stepLimit + 1 - c.machine.steps
decreasing_by
  simp only [computations_count]
  omega

/-- Take a computation further from where its machine has stopped. `nfn-relay/src/engine:384–392`. -/
def settle (r : Relay) : Except ComputationError Progress → Except RelayError Settled × Relay
  | .error error => (.error (.computation error), r)
  | .ok (.done origin result _) => (.ok (.finished origin result), r)
  | .ok (.suspended c name) => r.advance c name

/-- Take a computation further from where its machine has stopped. One that fails is counted.
`nfn-relay/src/engine:370–380`. -/
def carryOn (r : Relay) (progress : Except ComputationError Progress) :
    Except RelayError Settled × Relay :=
  match r.settle progress with
  | (.ok settled, r) => (.ok settled, r)
  | (.error error, r) =>
    (.error error, r.count fun s => { s with computationsFailed := s.computationsFailed + 1 })

/-- Hand a suspended computation its data. The result, if it comes to one; that there is no such computation
is a failure too. `nfn-relay/src/engine:370–380`. -/
def resumeComputation (r : Relay) (id : ComputationId) (payload : Bytes) :
    Option (Interest × Bytes) × Relay :=
  match r.computations.get? id with
  | none => (none, r.count fun s => { s with computationsFailed := s.computationsFailed + 1 })
  | some c =>
    let progress := c.resume r.computations.stepLimit payload
    match { r with computations := r.computations.erase id }.carryOn progress with
    | (.ok (.finished origin result), r) => (some (origin, result), r)
    | (_, r) => (none, r)

/-- Cache the result of a computation for good and deliver it to those who wait. The computations to be
resumed, with the data for them. `nfn-relay/src/engine:424–434`. -/
def announce (r : Relay) (origin : Interest) (result : Bytes) :
    List (ComputationId × Bytes) × Relay :=
  let name := { origin.name with flags := { origin.name.flags with computed := true } }
  let content := Content.ofPayload name result
  let r := (r.count fun s => { s with computationsCompleted := s.computationsCompleted + 1 }).cache
    content true
  let (entries, pending) := r.pending.takeAnswered content
  let ((_, waiting), r) := { r with pending }.serve content entries
  (waiting.map fun id => (id, result), r)

private theorem size_computations_issue (r : Relay) (c : Computation) (name : Name) :
    (r.issue c name).2.computations.size ≤ r.computations.size + 1 := by
  unfold issue
  dsimp only
  split
  next heq =>
    have h := congrArg (fun x => x.2.computations) heq
    simp only [computations_propagate] at h
    simp only [← h]
    exact ComputationTable.size_insert_le _ _
  next heq =>
    have h := congrArg (fun x => x.2.computations) heq
    simp only [computations_propagate] at h
    simp only [← h]
    exact Nat.le_succ _

private theorem size_computations_await (r : Relay) (c : Computation) (name : Name) :
    (r.await c name).2.computations.size ≤ r.computations.size + 1 := by
  unfold await
  split
  · exact ComputationTable.size_insert_le _ _
  · exact size_computations_issue r c name

private theorem issue_ne_finished (r : Relay) (c : Computation) (name : Name) (origin : Interest)
    (result : Bytes) : (r.issue c name).1 ≠ .ok (.finished origin result) := by
  unfold issue
  dsimp only
  split <;> exact fun h => by cases h

/-- A computation that waits has not finished. -/
theorem await_ne_finished (r : Relay) (c : Computation) (name : Name) (origin : Interest)
    (result : Bytes) : (r.await c name).1 ≠ .ok (.finished origin result) := by
  unfold await
  split
  · exact fun h => by cases h
  · exact issue_ne_finished r c name origin result

private theorem size_computations_advance (r : Relay) (c : Computation) (name : Name) :
    (r.advance c name).2.computations.size ≤ r.computations.size + 1 := by
  fun_induction advance r c name with
  | case1 r c name => exact size_computations_await r c name
  | case2 => exact Nat.le_succ _
  | case3 => exact Nat.le_succ _
  | case4 r c name content store _ r' c' name' _ _ ih => exact ih

private theorem size_computations_advance_finished {r r' : Relay} {c : Computation} {name : Name}
    {origin : Interest} {result : Bytes} (h : r.advance c name = (.ok (.finished origin result), r')) :
    r'.computations.size = r.computations.size := by
  fun_induction advance r c name with
  | case1 r c name => exact absurd (congrArg Prod.fst h) (await_ne_finished r c name origin result)
  | case2 => cases h
  | case3 => exact (congrArg (fun x => x.2.computations.size) h).symm
  | case4 r c name content store _ r₁ c' name' _ _ ih => exact ih h

private theorem size_computations_settle (r : Relay) (progress : Except ComputationError Progress) :
    (r.settle progress).2.computations.size ≤ r.computations.size + 1 := by
  unfold settle
  split
  · exact Nat.le_succ _
  · exact Nat.le_succ _
  · exact size_computations_advance _ _ _

private theorem size_computations_settle_finished {r r' : Relay}
    {progress : Except ComputationError Progress} {origin : Interest} {result : Bytes}
    (h : r.settle progress = (.ok (.finished origin result), r')) :
    r'.computations.size = r.computations.size := by
  unfold settle at h
  split at h
  · cases h
  · cases h
    rfl
  · exact size_computations_advance_finished h

private theorem size_computations_carryOn (r : Relay) (progress : Except ComputationError Progress) :
    (r.carryOn progress).2.computations.size ≤ r.computations.size + 1 := by
  have h := size_computations_settle r progress
  unfold carryOn
  split
  next heq =>
    rw [heq] at h
    exact h
  next heq =>
    rw [heq] at h
    exact h

private theorem size_computations_carryOn_finished {r r' : Relay}
    {progress : Except ComputationError Progress} {origin : Interest} {result : Bytes}
    (h : r.carryOn progress = (.ok (.finished origin result), r')) :
    r'.computations.size = r.computations.size := by
  unfold carryOn at h
  split at h
  next heq =>
    cases h
    exact size_computations_settle_finished heq
  · cases h

/-- Resuming a computation suspends no more than were suspended before. -/
theorem size_computations_resume (r : Relay) (id : ComputationId) (payload : Bytes) :
    (r.resumeComputation id payload).2.computations.size ≤ r.computations.size := by
  unfold resumeComputation
  split
  · exact Nat.le_refl _
  next c hc =>
    have hlt := ComputationTable.size_erase_lt hc
    have hle := size_computations_carryOn { r with computations := r.computations.erase id }
      (c.resume r.computations.stepLimit payload)
    dsimp only
    split
    next heq =>
      rw [heq] at hle
      exact Nat.le_trans hle hlt
    next heq =>
      rw [heq] at hle
      exact Nat.le_trans hle hlt

/-- A computation that comes to a result is no longer suspended. -/
theorem size_computations_resume_finished {r r' : Relay} {id : ComputationId} {payload : Bytes}
    {finished : Interest × Bytes} (h : r.resumeComputation id payload = (some finished, r')) :
    r'.computations.size < r.computations.size := by
  unfold resumeComputation at h
  split at h
  · cases h
  next c hc =>
    have hlt := ComputationTable.size_erase_lt hc
    dsimp only at h
    split at h
    next heq =>
      cases h
      rw [size_computations_carryOn_finished heq]
      exact hlt
    · cases h

/-- Announcing a result leaves the computations. -/
@[simp] theorem computations_announce (r : Relay) (origin : Interest) (result : Bytes) :
    (r.announce origin result).2.computations = r.computations := by
  simp only [announce, computations_serve, computations_cache, computations_count]

/-- Resume computations in turn. Those that a result resumes come before those that are left.
`nfn-relay/src/engine:370–438`. -/
def wake (r : Relay) (agenda : List (ComputationId × Bytes)) : Relay :=
  match agenda with
  | [] => r
  | (id, payload) :: rest =>
    match h : r.resumeComputation id payload with
    | (none, r') =>
      have : r'.computations.size ≤ r.computations.size := by
        simpa only [h] using size_computations_resume r id payload
      wake r' rest
    | (some (origin, result), r') =>
      have := size_computations_resume_finished h
      wake (r'.announce origin result).2 ((r'.announce origin result).1 ++ rest)
termination_by (r.computations.size, agenda.length)
decreasing_by
  · rcases Nat.lt_or_eq_of_le this with hlt | heq
    · exact Prod.Lex.left _ _ hlt
    · rw [heq]
      exact Prod.Lex.right _ (Nat.lt_succ_self _)
  · simp only [computations_announce]
    exact Prod.Lex.left _ _ this

/-- Deliver the result of a computation, and all that follows from it. `nfn-relay/src/engine:424–438`. -/
def publish (r : Relay) (origin : Interest) (result : Bytes) : Relay :=
  (r.announce origin result).2.wake (r.announce origin result).1

end NamedFunctions.Relay
