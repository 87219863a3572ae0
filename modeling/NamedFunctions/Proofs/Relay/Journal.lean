import NamedFunctions.Proofs.Relay.Delivery
import NamedFunctions.Proofs.Relay.Operation

/-!
# The journal of an operation

An operation can set off a cascade: data resumes computations, whose results are data for others. The
journal lists what happens on the way, each event with the relay at that moment. What an event places
on the queue of a face is the difference that it makes to the data there, and the journal accounts for
all data that an operation places.
-/

namespace NamedFunctions.Relay

/-- Something that happens in the course of an operation, with the relay that it happens to. -/
inductive Event where
  /-- The Interest of a face is answered from the content store. -/
  | answer (before : Relay) (face : FaceId) (interest : Interest) (content : Content)
  /-- Data goes to all who wait for it in the pending table. -/
  | deliver (before : Relay) (content : Content)
  /-- A computation is handed the data that it waits for. -/
  | resume (before : Relay) (id : ComputationId) (payload : Bytes)

namespace Event

/-- The relay that an event happens to. -/
def before : Event → Relay
  | answer r .. => r
  | deliver r _ => r
  | resume r .. => r

/-- The faces once the event has happened. -/
def faces : Event → FaceTable
  | answer r id _ content => (r.send id (.content content)).2.faces
  | deliver r content => (r.serve content (r.pending.takeAnswered content).1).2.faces
  | resume r .. => r.faces

/-- The data that an event places on the queue of a face. -/
def placed (event : Event) (id : FaceId) : List Content :=
  (event.faces.contents id).drop (event.before.faces.contents id).length

end Event

/-- The data that the result of a computation becomes. -/
def resultContent (origin : Interest) (result : Bytes) : Content :=
  .ofPayload { origin.name with flags := { origin.name.flags with computed := true } } result

/-- The relay that has cached the result of a computation and is about to deliver it. -/
def withResult (r : Relay) (origin : Interest) (result : Bytes) : Relay :=
  (r.count fun s => { s with computationsCompleted := s.computationsCompleted + 1 }).cache
    (resultContent origin result) true

/-- What happens while computations are resumed in turn. -/
def cascade (r : Relay) (agenda : List (ComputationId × Bytes)) : List Event :=
  match agenda with
  | [] => []
  | (id, payload) :: rest =>
    .resume r id payload ::
      match h : r.resumeComputation id payload with
      | (none, r') =>
        have : r'.computations.size ≤ r.computations.size := by
          simpa only [h] using size_computations_resume r id payload
        cascade r' rest
      | (some (origin, result), r') =>
        have := size_computations_resume_finished h
        .deliver (r'.withResult origin result) (resultContent origin result) ::
          cascade (r'.announce origin result).2 ((r'.announce origin result).1 ++ rest)
termination_by (r.computations.size, agenda.length)
decreasing_by
  · rcases Nat.lt_or_eq_of_le this with hlt | heq
    · exact Prod.Lex.left _ _ hlt
    · rw [heq]
      exact Prod.Lex.right _ (Nat.lt_succ_self _)
  · simp only [computations_announce]
    exact Prod.Lex.left _ _ this

/-- What happens while the result of a computation is delivered, and all that follows from it. -/
def publication (r : Relay) (origin : Interest) (result : Bytes) : List Event :=
  .deliver (r.withResult origin result) (resultContent origin result) ::
    (r.announce origin result).2.cascade (r.announce origin result).1

/-- What happens while the expression in the name of an Interest is reduced. -/
def reductionJournal (r : Relay) (interest : Interest) : List Event :=
  let (progress, r) := (r.count fun s =>
    { s with computationsStarted := s.computationsStarted + 1 }).beginComputation interest
  match r.carryOn progress with
  | (.ok (.finished origin result), r) => r.publication origin result
  | _ => []

/-- What happens while an Interest whose nonce is recorded finds an answer or a way. -/
def resolutionJournal (r : Relay) (source : FaceId) (interest : Interest) : List Event :=
  match r.store.lookup interest r.clock with
  | some (content, _) => [.answer r source interest content]
  | none =>
    match r.pending.findSame interest with
    | some _ => []
    | none =>
      if interest.name.flags.expression then
        { r with pending := (r.pending.insert interest (.face source) r.clock).2 }.reductionJournal
          interest
      else []

/-- What happens while an Interest that arrived on a face is handled. -/
def interestJournal (r : Relay) (source : FaceId) (interest : Interest) : List Event :=
  if r.faces.contains source then
    let r := (r.touch source).count fun s => { s with interestsReceived := s.interestsReceived + 1 }
    match r.accept interest with
    | (some interest, r) => r.resolutionJournal source interest
    | (none, _) => []
  else []

/-- What happens while data that arrived on a face is handled. -/
def contentJournal (r : Relay) (source : FaceId) (content : Content) : List Event :=
  if r.faces.contains source then
    let r := (r.touch source).count fun s => { s with contentReceived := s.contentReceived + 1 }
    match r.pending.takeAnswered content with
    | ([], _) => []
    | (entries, pending) =>
      let ((_, waiting), r') := ({ r with pending }.cache content false).serve content entries
      .deliver r content :: r'.cascade (waiting.map fun id => (id, content.payload))
  else []

/-- What happens in the course of an operation. Operations other than the handling of packets neither
place data nor resume computations. -/
def journal (r : Relay) : Operation → List Event
  | .handleInterest source interest => r.interestJournal source interest
  | .handleContent source content => r.contentJournal source content
  | _ => []

end NamedFunctions.Relay
