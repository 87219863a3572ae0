import NamedFunctions.Computation
import NamedFunctions.Face
import NamedFunctions.Packet.Matching

/-!
# Pending Interests

The Interests that have been sent on and not answered, each with those who wait for the answer.
-/

namespace NamedFunctions

/-- The number of a pending Interest, which is never given twice. `nfn-relay/src/pit:11–13`. -/
structure PendingId where
  val : Nat
deriving DecidableEq, Repr

/-- Who waits for data. `nfn-relay/src/pit:21–28`. -/
inductive Requester where
  | face (id : FaceId)
  | computation (id : ComputationId)
deriving DecidableEq, Repr

/-- A requester and the tick of its request. `nfn-relay/src/pit:30–35`. -/
structure Request where
  requester : Requester
  arrivedAt : Nat
deriving DecidableEq, Repr

/-- An Interest that has not been answered. `nfn-relay/src/pit:37–52`. -/
structure PendingEntry where
  id : PendingId
  /-- The Interest as it is sent on. -/
  interest : Interest
  /-- The nonces of all Interests that were joined to it, in the order of their arrival. -/
  nonces : List UInt32
  /-- How often it has been sent again. -/
  retries : Nat := 0
  /-- The tick of the last request. -/
  lastUsed : Nat
  /-- In the order of their arrival. -/
  requests : List Request
deriving Repr, DecidableEq

namespace PendingEntry

/-- The faces that wait. `nfn-relay/src/pit:55–60`. -/
def faces (e : PendingEntry) : List FaceId :=
  e.requests.filterMap fun r =>
    match r.requester with
    | .face id => some id
    | .computation _ => none

/-- The computations that wait. `nfn-relay/src/pit:62–67`. -/
def computations (e : PendingEntry) : List ComputationId :=
  e.requests.filterMap fun r =>
    match r.requester with
    | .face _ => none
    | .computation id => some id

/-- Whether a requester waits. `nfn-relay/src/pit:69–71`. -/
def hasRequester (e : PendingEntry) (requester : Requester) : Bool :=
  e.requests.any (·.requester == requester)

/-- The entry once a requester has joined, with the nonce that it came with. A requester and a nonce are kept
once. `nfn-relay/src/pit:121–134`. -/
def join (e : PendingEntry) (requester : Requester) (nonce : Option UInt32) (now : Nat) :
    PendingEntry :=
  { e with
    lastUsed := now
    nonces := e.nonces ++ nonce.toList.filter (· ∉ e.nonces)
    requests := if e.hasRequester requester then e.requests else e.requests ++ [⟨requester, now⟩] }

/-- The entry without a requester. `nfn-relay/src/pit:153`. -/
def leave (e : PendingEntry) (requester : Requester) : PendingEntry :=
  { e with requests := e.requests.filter (·.requester != requester) }

end PendingEntry

/-- The pending Interests. `nfn-relay/src/pit:74–79`. -/
structure PendingTable where
  /-- In the order of their numbers. -/
  entries : List PendingEntry := []
  nextId : Nat := 0
deriving Repr, DecidableEq

namespace PendingTable

/-- The entry with a number. `nfn-relay/src/pit:161–163`. -/
def get? (table : PendingTable) (id : PendingId) : Option PendingEntry :=
  table.entries.find? (·.id == id)

/-- The numbers of all entries. `nfn-relay/src/pit:173–175`. -/
def ids (table : PendingTable) : List PendingId := table.entries.map (·.id)

/-- The entry whose Interest asks for the same. `nfn-relay/src/pit:86–92`. -/
def findSame (table : PendingTable) (interest : Interest) : Option PendingId :=
  (table.entries.find? (·.interest.asksSame interest)).map (·.id)

/-- Add an Interest and its first requester. `nfn-relay/src/pit:94–113`. -/
def insert (table : PendingTable) (interest : Interest) (requester : Requester) (now : Nat) :
    PendingId × PendingTable :=
  let id := ⟨table.nextId⟩
  let entry : PendingEntry :=
    { id, interest, nonces := interest.nonce.toList, lastUsed := now, requests := [⟨requester, now⟩] }
  (id, { entries := table.entries ++ [entry], nextId := table.nextId + 1 })

/-- Change the entry with a number. `nfn-relay/src/pit:165–167`. -/
def modify (table : PendingTable) (id : PendingId) (change : PendingEntry → PendingEntry) :
    PendingTable :=
  { table with entries := table.entries.map fun e => if e.id = id then change e else e }

/-- Let a requester join an entry; whether it did not wait there before. `nfn-relay/src/pit:115–135`. -/
def addRequester (table : PendingTable) (id : PendingId) (requester : Requester)
    (nonce : Option UInt32) (now : Nat) : Bool × PendingTable :=
  ((table.get? id).any (!·.hasRequester requester), table.modify id (·.join requester nonce now))

/-- Remove the entry with a number. `nfn-relay/src/pit:169–171`. -/
def erase (table : PendingTable) (id : PendingId) : PendingTable :=
  { table with entries := table.entries.filter (·.id != id) }

/-- Remove the entries whose Interests are answered by fresh data. `nfn-relay/src/pit:137–146`. -/
def takeAnswered (table : PendingTable) (content : Content) : List PendingEntry × PendingTable :=
  let answered (e : PendingEntry) : Bool := e.interest.satisfiedBy content false
  (table.entries.filter answered,
    { table with entries := table.entries.filter fun e => !answered e })

/-- Remove a requester from all entries, and the entries for which then nobody waits.
`nfn-relay/src/pit:148–159`. -/
def dropRequester (table : PendingTable) (requester : Requester) :
    List PendingEntry × PendingTable :=
  let left := table.entries.map (·.leave requester)
  (left.filter (·.requests.isEmpty), { table with entries := left.filter (!·.requests.isEmpty) })

end PendingTable

end NamedFunctions
