import NamedFunctions.Proofs.Relay.Cascade

/-!
# What the handling of a packet comes to

An Interest whose nonce is new is accepted, and its expression is reduced if nothing answers it. Data that
satisfies pending Interests is handed over to the faces that wait for it, and then resumes the computations
that do. Where none does, that is all.
-/

namespace NamedFunctions.Relay

variable {r r' s : Relay} {source : FaceId}

/-- Nothing is resumed where nothing waits. -/
theorem wake_nil (r : Relay) : r.wake [] = r := by
  rw [wake]

/-- A computation that comes to no result leaves the rest to be resumed. -/
theorem wake_of_none {id : ComputationId} {payload : Bytes}
    (rest : List (ComputationId × Bytes)) (h : r.resumeComputation id payload = (none, r')) :
    r.wake ((id, payload) :: rest) = r'.wake rest := by
  rw [wake]
  split
  · next heq =>
    rw [h] at heq
    cases heq
    rfl
  · next heq =>
    rw [h] at heq
    cases heq

/-- A result is announced, and what it resumes comes before the rest. -/
theorem wake_of_some {id : ComputationId} {payload : Bytes} {origin : Interest}
    {result : Bytes} (rest : List (ComputationId × Bytes))
    (h : r.resumeComputation id payload = (some (origin, result), r')) :
    r.wake ((id, payload) :: rest) =
      (r'.announce origin result).2.wake ((r'.announce origin result).1 ++ rest) := by
  rw [wake]
  split
  · next heq =>
    rw [h] at heq
    cases heq
  · next heq =>
    rw [h] at heq
    cases heq
    rfl

section

variable {interest accepted origin : Interest} {result : Bytes}

/-- An Interest that is accepted finds an answer or a way. -/
theorem handleInterest_of_accept (hsource : r.faces.contains source = true)
    (haccept : (r.interestReceived source).accept interest = (some accepted, r')) :
    r.handleInterest source interest = r'.resolve source accepted := by
  unfold interestReceived at haccept
  rw [handleInterest, if_pos hsource]
  dsimp only
  rw [haccept]

/-- The relay in which an Interest of a face is pending. -/
def withInterest (r : Relay) (source : FaceId) (interest : Interest) : Relay :=
  { r with pending := (r.pending.insert interest (.face source) r.clock).2 }

/-- The computation for an Interest of a face, of which the expression is read but not reduced. -/
def begun (r : Relay) (source : FaceId) (interest : Interest) :
    Except ComputationError Progress × Relay :=
  (r.withInterest source interest).reductionStarted.beginComputation interest

/-- What an Interest comes to whose expression is reduced. -/
theorem resolve_of_begun (h : r.Reduces interest) (source : FaceId) :
    r.resolve source interest =
      match (r.begun source interest).2.carryOn (r.begun source interest).1 with
      | (.error error, r) => (.error error, r)
      | (.ok (.waiting id), r) => (.ok (.suspended id), r)
      | (.ok (.finished origin result), r) => (.ok .computed, r.publish origin result) :=
  resolve_of_reduces h source

/-- A result at once that no computation waits for is announced, and that is all. -/
theorem handleInterest_of_finished (hsource : r.faces.contains source = true)
    (haccept : (r.interestReceived source).accept interest = (some accepted, r'))
    (hreduces : r'.Reduces accepted)
    (hfinished : (r'.begun source accepted).2.carryOn (r'.begun source accepted).1 =
      (.ok (.finished origin result), s))
    (hnone : (s.announce origin result).1 = []) :
    r.handleInterest source interest = (.ok .computed, (s.announce origin result).2) := by
  rw [handleInterest_of_accept hsource haccept, resolve_of_begun hreduces, hfinished]
  dsimp only
  rw [publish, hnone, wake_nil]

end

section

variable {content : Content}

/-- The relay once data that arrived is in the content store and on the queues of those who wait for it,
before any computation is resumed: how many faces have it in their queues, and the computations to be
resumed. -/
def handedOver (r : Relay) (source : FaceId) (content : Content) : (Nat × List ComputationId) × Relay :=
  ({ r.contentReceived source with pending := (r.pending.takeAnswered content).2 }.cache content false).serve
    content (r.pending.takeAnswered content).1

/-- The computations that wait for data that arrived, each with the payload that it is resumed with. -/
def awaitedBy (r : Relay) (source : FaceId) (content : Content) : List (ComputationId × Bytes) :=
  (r.handedOver source content).1.2.map fun id => (id, content.payload)

/-- Data that satisfies a pending Interest answers it. -/
theorem answered_of_satisfied {e : PendingEntry} (he : e ∈ r.pending.entries)
    (hsatisfied : e.interest.satisfiedBy content false = true) :
    (r.pending.takeAnswered content).1 ≠ [] :=
  List.ne_nil_of_mem (List.mem_filter.mpr ⟨he, hsatisfied⟩)

/-- Data that answers pending Interests is delivered, and then the computations that wait for it are resumed
in turn. -/
theorem handleContent_of_answered (hsource : r.faces.contains source = true)
    (hanswered : (r.pending.takeAnswered content).1 ≠ []) :
    r.handleContent source content =
        (.ok (.delivered (r.handedOver source content).1.1 (r.awaitedBy source content).length),
          (r.handedOver source content).2.wake (r.awaitedBy source content)) ∧
      r.contentJournal source content =
        .deliver (r.contentReceived source) content ::
          (r.handedOver source content).2.cascade (r.awaitedBy source content) := by
  unfold handleContent contentJournal
  rw [if_pos hsource, if_pos hsource]
  dsimp only
  rcases heq : PendingTable.takeAnswered _ content with ⟨_ | ⟨first, entries⟩, pending⟩
  · exact absurd (congrArg Prod.fst heq) hanswered
  · have hpending : r.pending.takeAnswered content = (first :: entries, pending) := heq
    have hserved : r.handedOver source content =
        ({ r.contentReceived source with pending }.cache content false).serve content
          (first :: entries) := by
      rw [handedOver, hpending]
    rw [awaitedBy, hserved, List.length_map]
    exact ⟨rfl, rfl⟩

/-- Data that no computation waits for is handed over to faces, and that is all. -/
theorem perform_handleContent_of_unawaited (hsource : r.faces.contains source = true)
    (hanswered : (r.pending.takeAnswered content).1 ≠ []) (hnone : r.awaitedBy source content = []) :
    r.perform (.handleContent source content) = (r.handedOver source content).2 ∧
      r.journal (.handleContent source content) = [.deliver (r.contentReceived source) content] := by
  obtain ⟨hhandled, hjournal⟩ := handleContent_of_answered hsource hanswered
  rw [perform, journal, hhandled, hjournal, hnone, wake_nil, cascade]
  exact ⟨rfl, rfl⟩

end

end NamedFunctions.Relay
