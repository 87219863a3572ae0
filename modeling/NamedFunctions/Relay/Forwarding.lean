import NamedFunctions.Relay.Reduction

/-!
# Incoming packets

An Interest is answered from the content store, joined to a pending one, reduced if its name is an
expression, or sent on. Data goes to those who wait for it and is dropped if nobody does.
-/

namespace NamedFunctions

/-- What became of an Interest. `nfn-relay/src/engine:16–29`. -/
inductive InterestOutcome where
  /-- It was answered from the content store. -/
  | cacheHit
  /-- It was joined to a pending one. -/
  | aggregated
  /-- It was sent on through a face. -/
  | forwarded (face : FaceId)
  /-- Its expression was reduced and the result delivered. -/
  | computed
  /-- The reduction of its expression needs data from elsewhere. -/
  | suspended (id : ComputationId)
deriving DecidableEq, Repr

/-- What became of data. `nfn-relay/src/engine:31–37`. -/
inductive ContentOutcome where
  /-- Nobody waited for it. -/
  | unsolicited
  /-- So many faces have it in their queues, and so many computations were resumed. -/
  | delivered (faces computations : Nat)
deriving DecidableEq, Repr

namespace Relay

/-- Note that a face was used. `nfn-relay/src/engine:180–184`. -/
def touch (r : Relay) (id : FaceId) : Relay := { r with faces := r.faces.touch id r.clock }

/-- Record the nonce of an Interest, which has one afterwards; `none` if its nonce is known.
`nfn-relay/src/engine:192–205`. -/
def accept (r : Relay) (interest : Interest) : Option Interest × Relay :=
  match interest.nonce with
  | some nonce =>
    match r.nonces.record nonce r.clock with
    | (true, nonces) => (some interest, { r with nonces })
    | (false, _) => (none, r)
  | none =>
    let (nonce, source) := r.source.next
    let nonces := (r.nonces.record nonce r.clock).2
    (some (interest.withNonce nonce), { r with source, nonces })

/-- Begin to reduce the expression in the name of an Interest. `nfn-relay/src/engine:358–360`. -/
def beginComputation (r : Relay) (interest : Interest) : Except ComputationError Progress × Relay :=
  match r.computations.create interest with
  | .error error => (.error error, r)
  | .ok (c, computations) => (c.drive computations.stepLimit, { r with computations })

/-- Reduce the expression in the name of an Interest. `nfn-relay/src/engine:356–368`. -/
def startComputation (r : Relay) (interest : Interest) :
    Except RelayError InterestOutcome × Relay :=
  let (progress, r) := (r.count fun s =>
    { s with computationsStarted := s.computationsStarted + 1 }).beginComputation interest
  match r.carryOn progress with
  | (.error error, r) => (.error error, r)
  | (.ok (.waiting id), r) => (.ok (.suspended id), r)
  | (.ok (.finished origin result), r) => (.ok .computed, r.publish origin result)

/-- Join an Interest to the pending one that asks for the same. It is sent on all the same if the face says
so. `nfn-relay/src/engine:216–228`. -/
def aggregate (r : Relay) (source : FaceId) (interest : Interest) (id : PendingId) :
    InterestOutcome × Relay :=
  let pending := (r.pending.addRequester id (.face source) interest.nonce r.clock).2
  let r := { r with pending }.count fun s =>
    { s with interestsAggregated := s.interestsAggregated + 1 }
  if (r.faces.get? source).any (·.flags.forwardAll) then
    match r.propagate id with
    | (some face, r) => (.forwarded face, r)
    | (none, r) => (.aggregated, r)
  else (.aggregated, r)

/-- Count an Interest that is dropped. `nfn-relay/src/engine:195,238`. -/
def drop (r : Relay) : Relay :=
  r.count fun s => { s with interestsDropped := s.interestsDropped + 1 }

/-- Send an Interest on along its route. `nfn-relay/src/engine:235–243`. -/
def forward (r : Relay) (source : FaceId) (interest : Interest) :
    Except RelayError InterestOutcome × Relay :=
  let (id, pending) := r.pending.insert interest (.face source) r.clock
  match { r with pending }.propagate id with
  | (some face, r) => (.ok (.forwarded face), r)
  | (none, r) =>
    (.error (.noRoute interest.name.toString), { r with pending := r.pending.erase id }.drop)

/-- Find an answer or a way for an Interest whose nonce is recorded. `nfn-relay/src/engine:207–243`. -/
def resolve (r : Relay) (source : FaceId) (interest : Interest) :
    Except RelayError InterestOutcome × Relay :=
  match r.store.lookup interest r.clock with
  | some (content, store) =>
    let r := { r with store }.count fun s => { s with cacheHits := s.cacheHits + 1 }
    match r.send source (.content content) with
    | (true, r) => (.ok .cacheHit, r.count fun s => { s with contentServed := s.contentServed + 1 })
    | (false, r) => (.ok .cacheHit, r)
  | none =>
    match r.pending.findSame interest with
    | some id =>
      let (outcome, r) := r.aggregate source interest id
      (.ok outcome, r)
    | none =>
      if interest.name.flags.expression then
        { r with pending := (r.pending.insert interest (.face source) r.clock).2 }.startComputation
          interest
      else r.forward source interest

/-- Handle an Interest that arrived on a face. `nfn-relay/src/engine:186–244`. -/
def handleInterest (r : Relay) (source : FaceId) (interest : Interest) :
    Except RelayError InterestOutcome × Relay :=
  if r.faces.contains source then
    let r := (r.touch source).count fun s => { s with interestsReceived := s.interestsReceived + 1 }
    match r.accept interest with
    | (some interest, r) => r.resolve source interest
    | (none, r) => (.error (.duplicateNonce (interest.nonce.getD 0)), r.drop)
  else (.error (.unknownFace source), r)

/-- Handle data that arrived on a face. `nfn-relay/src/engine:246–266`. -/
def handleContent (r : Relay) (source : FaceId) (content : Content) :
    Except RelayError ContentOutcome × Relay :=
  if r.faces.contains source then
    let r := (r.touch source).count fun s => { s with contentReceived := s.contentReceived + 1 }
    match r.pending.takeAnswered content with
    | ([], _) =>
      (.ok .unsolicited, r.count fun s => { s with contentUnsolicited := s.contentUnsolicited + 1 })
    | (entries, pending) =>
      let ((faces, waiting), r) := ({ r with pending }.cache content false).serve content entries
      (.ok (.delivered faces waiting.length), r.wake (waiting.map fun id => (id, content.payload)))
  else (.error (.unknownFace source), r)

end Relay

end NamedFunctions
