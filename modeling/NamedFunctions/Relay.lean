import NamedFunctions.Computation
import NamedFunctions.ContentStore
import NamedFunctions.Face.Table
import NamedFunctions.NonceTable
import NamedFunctions.PendingTable
import NamedFunctions.Relay.Error
import NamedFunctions.RouteTable

/-!
# Relays

The state of a relay: its tables, its clock and its counters. All that it does is a function from
the state before to the state after. The nonces that it chooses itself come from a source that is
part of the state, so that nothing is left to chance.
-/

namespace NamedFunctions

/-- Counters of what a relay has done. `nfn-relay/src/engine:39–55`. -/
structure RelayStats where
  interestsReceived : Nat := 0
  interestsForwarded : Nat := 0
  interestsAggregated : Nat := 0
  interestsDropped : Nat := 0
  contentReceived : Nat := 0
  contentCached : Nat := 0
  contentServed : Nat := 0
  contentUnsolicited : Nat := 0
  cacheHits : Nat := 0
  computationsStarted : Nat := 0
  computationsCompleted : Nat := 0
  computationsFailed : Nat := 0
  subInterests : Nat := 0
deriving DecidableEq, Repr, Inhabited

/-- Where a relay takes its nonces from: a sequence, and how many have been taken.
`nfn-core/src/packets:148–151`. -/
structure NonceSource where
  draw : Nat → UInt32
  used : Nat := 0

/-- Nonces that a seed scatters; no two of the first 2 ^ 32 are the same. -/
def NonceSource.ofSeed (seed : UInt32) : NonceSource :=
  { draw := fun n => (UInt32.ofNat n + seed) * 0x9E3779B1 }

/-- The next nonce of a source. -/
def NonceSource.next (source : NonceSource) : UInt32 × NonceSource :=
  (source.draw source.used, { source with used := source.used + 1 })

/-- The state of a relay. `nfn-relay/src/engine:57–73`. -/
structure Relay where
  config : RelayConfig
  /-- The ticks since the start. -/
  clock : Nat := 0
  faces : FaceTable
  store : ContentStore
  pending : PendingTable := {}
  routes : RouteTable := {}
  nonces : NonceTable
  computations : ComputationTable
  stats : RelayStats := {}
  source : NonceSource

namespace Relay

/-- A relay with the given settings, unless one of them is zero that may not be.
`nfn-relay/src/engine:76–96`. -/
def new (config : RelayConfig) (source : NonceSource) : Except RelayError Relay :=
  match config.firstZero with
  | some setting => .error (.invalidConfig setting)
  | none =>
    .ok
      { config
        faces := { queueCapacity := config.faceQueueCapacity, interval := config.interInterestInterval }
        store := { capacity := config.maxCacheEntries }
        nonces := { capacity := config.maxNonces }
        computations := { stepLimit := config.stepLimit }
        source }

/-- Change the counters. -/
def count (r : Relay) (change : RelayStats → RelayStats) : Relay := { r with stats := change r.stats }

/-- The face of a peer on an interface, which is added on first contact. `nfn-relay/src/engine:140–143`. -/
def faceForPeer (r : Relay) (interface : Nat) (peer : Peer) : FaceId × Relay :=
  let (id, faces) := r.faces.getOrCreate interface peer r.clock
  (id, { r with faces })

/-- A face that stays however long it is idle. `nfn-relay/src/engine:145–152`. -/
def addStaticFace (r : Relay) (interface : Nat) (peer : Peer) (flags : FaceFlags) :
    FaceId × Relay :=
  let (id, faces) := r.faces.create interface peer { flags with isStatic := true } r.clock
  (id, { r with faces })

/-- Add a route through a face that is there; whether it took the place of another.
`nfn-relay/src/engine:168–173`. -/
def addRoute (r : Relay) (name : Name) (face : FaceId) (suite : Suite) :
    Except RelayError Bool × Relay :=
  if r.faces.contains face then
    let (replaced, routes) := r.routes.insert name face suite
    (.ok replaced, { r with routes })
  else (.error (.unknownFace face), r)

/-- Put data into the content store. `nfn-relay/src/engine:115–118`. -/
def cacheContent (r : Relay) (content : Content) (isStatic : Bool) :
    Except RelayError PutOutcome × Relay :=
  match r.store.put content isStatic r.clock with
  | some (outcome, store) => (.ok outcome, { r with store })
  | none => (.error .resourceExhausted, r)

/-- Release the packets that may be sent at an instant, at most one of each face.
`nfn-relay/src/engine:175–178`. -/
def drainReady (r : Relay) (now : Nat) : List Outbound × Relay :=
  let (packets, faces) := r.faces.popReady now
  (packets, { r with faces })

/-- A packet that is released leaves the queues. -/
theorem queued_drainReady (r : Relay) (now : Nat) :
    (r.drainReady now).2.faces.queued + (r.drainReady now).1.length = r.faces.queued :=
  r.faces.queued_popReady now

/-- Release all packets that may be sent at an instant, in rounds of at most one of each face.
`nfnd/src/daemon:169–187`. -/
def drainAll (r : Relay) (now : Nat) : List (List Outbound) × Relay :=
  match h : r.drainReady now with
  | ([], r') => ([], r')
  | (outbound :: round, r') =>
    have : r'.faces.queued < r.faces.queued := by
      have := r.queued_drainReady now
      simp only [h, List.length_cons] at this
      omega
    let (rounds, r'') := drainAll r' now
    ((outbound :: round) :: rounds, r'')
termination_by r.faces.queued

/-- Forget what belongs to a pending Interest that goes away: its nonces and the computations that wait for
it. How many computations were suspended. `nfn-relay/src/engine:344–354`. -/
def forget (r : Relay) (e : PendingEntry) : Nat × Relay :=
  let nonces := e.nonces.foldl NonceTable.erase r.nonces
  let discard := fun (n, table) id =>
    let (found, table) := ComputationTable.discard table id
    (if found then n + 1 else n, table)
  let (discarded, computations) := e.computations.foldl discard (0, r.computations)
  (discarded, { r with nonces, computations })

/-- Forget what belongs to several pending Interests. `nfn-relay/src/engine:165`. -/
def forgetAll (r : Relay) : List PendingEntry → Nat × Relay
  | [] => (0, r)
  | e :: entries =>
    let (n, r) := r.forget e
    let (m, r) := r.forgetAll entries
    (n + m, r)

/-- Remove a face with its routes and its requests; how many computations were discarded.
`nfn-relay/src/engine:154–166`. -/
def removeFace (r : Relay) (id : FaceId) : Except RelayError Nat × Relay :=
  if r.faces.contains id then
    let (emptied, pending) := r.pending.dropRequester (.face id)
    let (discarded, r) :=
      { r with faces := r.faces.erase id, routes := r.routes.eraseFace id, pending }.forgetAll emptied
    (.ok discarded, r)
  else (.error (.unknownFace id), r)

end Relay

end NamedFunctions
