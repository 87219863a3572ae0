import NamedFunctions.Proofs.ComputationTable
import NamedFunctions.Proofs.Relay.Delivery
import NamedFunctions.Relay.Reduction

/-!
# What taking a computation further does

A computation that is taken further by cached data stops for good, joins a pending Interest, or has one
issued for it. `Carried` says what that does to the relay in each case, so that the loop through cached
data need not be looked into again.
-/

namespace NamedFunctions.Relay

/-- What a relay comes to, and with which outcome, when the computation of some number is taken
further. Besides, cached data may have been used and counters have changed. -/
inductive Carried (r : Relay) (id : ComputationId) : Except RelayError Settled → Relay → Prop where
  /-- The computation has come to a result or has failed. -/
  | stopped {outcome : Except RelayError Settled} (store : ContentStore) (stats : RelayStats)
      (hne : ∀ x, outcome ≠ .ok (.waiting x)) : Carried r id outcome { r with store, stats }
  /-- The computation waits with a pending Interest for the same data. -/
  | joined (store : ContentStore) (stats : RelayStats) {c : Computation} {name : Name}
      {entry : PendingId} (hid : c.id = id) (hawaiting : c.awaiting = some name)
      (hsame : r.pending.findSame (.ofName name) = some entry) :
      Carried r id (.ok (.waiting id))
        { r with
          store, stats
          pending := (r.pending.addRequester entry (.computation id) none r.clock).2
          computations := r.computations.insert c }
  /-- The computation waits with an Interest of its own, which was sent on. -/
  | issued (store : ContentStore) (stats : RelayStats) (source : NonceSource) (nonces : NonceTable)
      (faces : FaceTable) {c : Computation} {name : Name} (nonce : UInt32) (hid : c.id = id)
      (hawaiting : c.awaiting = some name) (hnone : r.pending.findSame (.ofName name) = none)
      (hquiet : r.faces.Quiet faces) :
      Carried r id (.ok (.waiting id))
        { r with
          store, stats, source, nonces, faces
          pending :=
            (r.pending.insert ((Interest.ofName name).withNonce nonce) (.computation id) r.clock).2
          computations := r.computations.insert c }
  /-- There was no way for the Interest of the computation. -/
  | stranded (error : RelayError) (store : ContentStore) (stats : RelayStats) (source : NonceSource)
      (nonces : NonceTable) (faces : FaceTable) (interest : Interest)
      (hquiet : r.faces.Quiet faces) :
      Carried r id (.error error)
        { r with
          store, stats, source, nonces, faces
          pending :=
            (r.pending.insert interest (.computation id) r.clock).2.erase
              (r.pending.insert interest (.computation id) r.clock).1 }

namespace Carried

/-- Cached data may have been used before. -/
theorem of_store {r r' : Relay} {id : ComputationId} {outcome : Except RelayError Settled}
    (store : ContentStore) (stats : RelayStats)
    (h : Carried { r with store, stats } id outcome r') : Carried r id outcome r' := by
  cases h with
  | stopped store' stats' hne => exact .stopped store' stats' hne
  | joined store' stats' hid hawaiting hsame => exact .joined store' stats' hid hawaiting hsame
  | issued store' stats' source nonces faces nonce hid hawaiting hnone hquiet =>
    exact .issued store' stats' source nonces faces nonce hid hawaiting hnone hquiet
  | stranded error store' stats' source nonces faces interest hquiet =>
    exact .stranded error store' stats' source nonces faces interest hquiet

/-- Counters may change afterwards. -/
theorem count {r r' : Relay} {id : ComputationId} {outcome : Except RelayError Settled}
    (h : Carried r id outcome r') (change : RelayStats → RelayStats) :
    Carried r id outcome (r'.count change) := by
  cases h with
  | stopped store stats hne => exact .stopped store _ hne
  | joined store stats hid hawaiting hsame => exact .joined store _ hid hawaiting hsame
  | issued store stats source nonces faces nonce hid hawaiting hnone hquiet =>
    exact .issued store _ source nonces faces nonce hid hawaiting hnone hquiet
  | stranded error store stats source nonces faces interest hquiet =>
    exact .stranded error store _ source nonces faces interest hquiet

end Carried

/-- The relay that has found data in its content store. -/
def fetched (r : Relay) (store : ContentStore) : Relay :=
  { r with store }.count fun s => { s with cacheHits := s.cacheHits + 1 }

/-- The relay in which an Interest of a computation's own, for the data of a name, is about to be
sent. -/
def asking (r : Relay) (c : Computation) (name : Name) : Relay :=
  count
    { r with
      source := r.source.next.2
      nonces := (r.nonces.record r.source.next.1 r.clock).2
      pending := (r.pending.insert ((Interest.ofName name).withNonce r.source.next.1)
        (.computation c.id) r.clock).2 }
    fun s => { s with subInterests := s.subInterests + 1 }

/-- That Interest sent along its route: the face that it was queued on, if it was. -/
def asked (r : Relay) (c : Computation) (name : Name) : Option FaceId × Relay :=
  (r.asking c name).propagate ⟨r.pending.nextId⟩

/-- A computation asks for a name, and waits if the Interest could be sent or was pending already. -/
theorem issue_eq (r : Relay) (c : Computation) (name : Name) :
    r.issue c name =
      if (r.asked c name).1.isSome then
        (.ok (.waiting c.id),
          { (r.asked c name).2 with
            computations := (r.asked c name).2.computations.insert c })
      else
        (.error (.noRoute name.toString),
          { (r.asked c name).2 with
            pending := (r.asked c name).2.pending.erase ⟨r.pending.nextId⟩
            nonces := (r.asked c name).2.nonces.erase r.source.next.1 }) := by
  unfold issue
  dsimp only
  split
  · next face s heq =>
    have hasked : r.asked c name = (some face, s) := heq
    rw [hasked]
    rfl
  · next s heq =>
    have hasked : r.asked c name = (none, s) := heq
    rw [hasked]
    rfl

/-- An Interest of its own lets the computation wait, if there is a way for it. -/
theorem carried_issue {r : Relay} {c : Computation} {name : Name}
    (hawaiting : c.awaiting = some name)
    (hnone : r.pending.findSame (.ofName name) = none) :
    Carried r c.id (r.issue c name).1 (r.issue c name).2 := by
  obtain ⟨faces, stats, hasked, hquiet⟩ := (r.asking c name).propagate_eq ⟨r.pending.nextId⟩
  change (r.asked c name).2 = _ at hasked
  rw [issue_eq, hasked]
  split
  · exact .issued r.store stats _ _ faces _ rfl hawaiting hnone hquiet
  · exact .stranded _ r.store stats _ _ faces _ hquiet

private theorem carried_await {r : Relay} {c : Computation} {name : Name}
    (hawaiting : c.awaiting = some name) :
    Carried r c.id (r.await c name).1 (r.await c name).2 := by
  unfold await
  split
  · next entry hsame => exact .joined r.store r.stats rfl hawaiting hsame
  · next hnone => exact carried_issue hawaiting hnone

private theorem carried_advance {r : Relay} {c : Computation} {name : Name}
    (hawaiting : c.awaiting = some name) :
    Carried r c.id (r.advance c name).1 (r.advance c name).2 := by
  fun_induction advance r c name with
  | case1 r c name => exact carried_await hawaiting
  | case2 r c name content store hlookup r' error hresume =>
    exact .stopped store _ (by simp)
  | case3 r c name content store hlookup r' origin result transitions hresume =>
    exact .stopped store _ (by simp)
  | case4 r c name content store hlookup r' c' name' hresume hsteps ih =>
    obtain ⟨hid, hawaiting'⟩ := Computation.awaiting_of_resume hresume
    rw [← hid]
    exact .of_store store _ (ih hawaiting')

/-- The result that a computation has come to, if any. -/
def Settled.result? : Except RelayError Settled → Option (Interest × Bytes)
  | .ok (.finished origin result) => some (origin, result)
  | _ => none

/-- Only what has finished has a result. -/
theorem eq_finished_of_result? {outcome : Except RelayError Settled} {origin : Interest}
    {result : Bytes} (h : Settled.result? outcome = some (origin, result)) :
    outcome = .ok (.finished origin result) := by
  unfold Settled.result? at h
  split at h
  · cases h
    rfl
  · cases h

/-- A computation that has failed is counted. -/
def countFailure (r : Relay) : Except RelayError Settled → Relay
  | .ok _ => r
  | .error _ => r.count fun s => { s with computationsFailed := s.computationsFailed + 1 }

/-- Taking a computation further settles it and counts a failure. -/
theorem carryOn_eq (r : Relay) (progress : Except ComputationError Progress) :
    r.carryOn progress =
      ((r.settle progress).1, (r.settle progress).2.countFailure (r.settle progress).1) := by
  unfold carryOn
  rcases r.settle progress with ⟨_ | _, _⟩
  · rfl
  · rfl

/-- A computation that is not there fails, and that is counted. -/
theorem resumeComputation_of_none {r : Relay} {id : ComputationId}
    (h : r.computations.get? id = none) (payload : Bytes) :
    r.resumeComputation id payload =
      (none, r.countFailure (.error (.computation (.unknownComputation id)))) := by
  rw [resumeComputation, h]
  rfl

/-- A computation that is resumed is no longer suspended, and carried on. -/
theorem resumeComputation_of_some {r : Relay} {id : ComputationId} {c : Computation}
    (h : r.computations.get? id = some c) (payload : Bytes) :
    r.resumeComputation id payload =
      (Settled.result? ({ r with computations := r.computations.erase id }.carryOn
          (c.resume r.computations.stepLimit payload)).1,
        ({ r with computations := r.computations.erase id }.carryOn
          (c.resume r.computations.stepLimit payload)).2) := by
  rw [resumeComputation, h]
  dsimp only
  rcases carryOn _ _ with ⟨_ | settled, _⟩
  · rfl
  · cases settled with
    | finished => rfl
    | waiting => rfl

namespace Carried

/-- A failure is counted. -/
theorem countFailure {r r' : Relay} {id : ComputationId} {outcome : Except RelayError Settled}
    (h : Carried r id outcome r') : Carried r id outcome (r'.countFailure outcome) := by
  cases outcome with
  | ok => exact h
  | error => exact h.count fun s => { s with computationsFailed := s.computationsFailed + 1 }

end Carried

/-- Taking a computation further comes to one of the four ends. -/
theorem carried_carryOn (r : Relay) {id : ComputationId}
    {progress : Except ComputationError Progress}
    (h : ∀ c name, progress = .ok (.suspended c name) → c.id = id ∧ c.awaiting = some name) :
    Carried r id (r.carryOn progress).1 (r.carryOn progress).2 := by
  rw [carryOn_eq]
  apply Carried.countFailure
  unfold settle
  split
  · exact .stopped r.store r.stats (by simp)
  · exact .stopped r.store r.stats (by simp)
  · next c name =>
    obtain ⟨hid, hawaiting⟩ := h c name rfl
    rw [← hid]
    exact carried_advance hawaiting

end NamedFunctions.Relay
