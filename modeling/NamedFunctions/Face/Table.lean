import NamedFunctions.Face

/-!
# Tables of faces

All faces of a relay, in the order of their numbers. There is at most one for a peer on an interface.
Numbers are given in turn and come round after the last one that fits into 32 bits; a face that is given
the number of one that is still there takes its place.
-/

namespace NamedFunctions

/-- The faces of a relay. `nfn-relay/src/face:137–144`. -/
structure FaceTable where
  /-- In the order of their numbers. -/
  faces : List Face := []
  /-- The number of the face that is added next. -/
  nextId : UInt32 := 1
  /-- How many packets the queue of a face holds. -/
  queueCapacity : Nat
  /-- The gap between packets from one face, in microseconds. -/
  interval : Nat
deriving Repr

namespace FaceTable

/-- The face with a number. `nfn-relay/src/face:201–203`. -/
def get? (table : FaceTable) (id : FaceId) : Option Face := table.faces.find? (·.id == id)

/-- Whether a face has a number. `nfn-relay/src/face:209–211`. -/
def contains (table : FaceTable) (id : FaceId) : Bool := table.faces.any (·.id == id)

/-- The face of a peer on an interface. `nfn-relay/src/face:157–162`. -/
def find? (table : FaceTable) (interface : Nat) (peer : Peer) : Option FaceId :=
  (table.faces.find? fun face => face.interface == interface && face.peer.same peer).map (·.id)

/-- Change the face with a number. `nfn-relay/src/face:205–207`. -/
def modify (table : FaceTable) (id : FaceId) (change : Face → Face) : FaceTable :=
  { table with faces := table.faces.map fun face => if face.id = id then change face else face }

/-- Put a face where its number belongs, in the place of a face that has the number.
`nfn-relay/src/face:185–197`. -/
def put (table : FaceTable) (face : Face) : FaceTable :=
  { table with
    faces := table.faces.filter (·.id.val < face.id.val) ++
      face :: table.faces.filter (face.id.val < ·.id.val) }

/-- The face that is added next, if it is for a peer. `nfn-relay/src/face:187–196`. -/
def newFace (table : FaceTable) (interface : Nat) (peer : Peer) (flags : FaceFlags) (now : Nat) :
    Face :=
  { id := ⟨table.nextId⟩, interface, peer, flags, lastUsed := now, capacity := table.queueCapacity,
    pacer := { interval := table.interval } }

/-- Add a face for a peer that has none. `nfn-relay/src/face:182–198`. -/
def add (table : FaceTable) (interface : Nat) (peer : Peer) (flags : FaceFlags) (now : Nat) :
    FaceId × FaceTable :=
  (⟨table.nextId⟩,
    { table.put (table.newFace interface peer flags now) with nextId := table.nextId + 1 })

/-- The face of a peer, which is added on first contact. `nfn-relay/src/face:165–170`. -/
def getOrCreate (table : FaceTable) (interface : Nat) (peer : Peer) (now : Nat) :
    FaceId × FaceTable :=
  match table.find? interface peer with
  | some id => (id, table)
  | none => table.add interface peer {} now

/-- The face of a peer with the given flags, which replace those of a face that is there.
`nfn-relay/src/face:172–199`. -/
def create (table : FaceTable) (interface : Nat) (peer : Peer) (flags : FaceFlags) (now : Nat) :
    FaceId × FaceTable :=
  match table.find? interface peer with
  | some id => (id, table.modify id fun face => { face with flags })
  | none => table.add interface peer flags now

/-- Remove the face with a number. `nfn-relay/src/face:213–219`. -/
def erase (table : FaceTable) (id : FaceId) : FaceTable :=
  { table with faces := table.faces.filter (·.id != id) }

/-- Queue a packet on a face: whether it was queued, if the face is there. `nfn-relay/src/engine:286–298`. -/
def enqueue (table : FaceTable) (id : FaceId) (packet : Packet) : Option Bool × FaceTable :=
  match table.get? id with
  | none => (none, table)
  | some face =>
    let (queued, face) := face.enqueue packet
    (some queued, table.modify id fun _ => face)

/-- Note the tick at which a face was used. `nfn-relay/src/engine:180–184`. -/
def touch (table : FaceTable) (id : FaceId) (now : Nat) : FaceTable :=
  table.modify id fun face => { face with lastUsed := now }

/-- Mark that a face has the Content that is being delivered. `nfn-relay/src/engine:318–321`. -/
def markServed (table : FaceTable) (id : FaceId) : FaceTable :=
  table.modify id fun face => { face with flags := { face.flags with served := true } }

/-- Take that mark from all faces. `nfn-relay/src/face:230–234`. -/
def clearServed (table : FaceTable) : FaceTable :=
  { table with
    faces := table.faces.map fun face => { face with flags := { face.flags with served := false } } }

/-- The faces that may be removed for having been idle for more than `timeout` ticks.
`nfn-relay/src/face:221–228`. -/
def idle (table : FaceTable) (now timeout : Nat) : List FaceId :=
  (table.faces.filter (·.isIdle now timeout)).map (·.id)

/-- Release at most one packet of each face at an instant. `nfn-relay/src/face:236–250`. -/
def popReady (table : FaceTable) (now : Nat) : List Outbound × FaceTable :=
  let popped := table.faces.map (·.popReady now)
  (popped.filterMap (·.1), { table with faces := popped.map (·.2) })

/-- Whether any packet is queued. `nfn-relay/src/face:261–263`. -/
def hasPending (table : FaceTable) : Bool := table.faces.any fun face => !face.queue.isEmpty

/-- The earliest slot of the faces that have packets queued and have sent before.
`nfn-relay/src/face:252–259`. -/
def nextDeadline (table : FaceTable) : Option Nat :=
  ((table.faces.filter fun face => !face.queue.isEmpty).filterMap (·.pacer.nextSlot)).min?

/-- How many packets are queued. `nfn-relay/src/face:114–116`. -/
def queued (table : FaceTable) : Nat := (table.faces.flatMap (·.queue)).length

/-- A packet that is released leaves the queues. -/
theorem queued_popReady (table : FaceTable) (now : Nat) :
    (table.popReady now).2.queued + (table.popReady now).1.length = table.queued := by
  simp only [popReady, queued, List.flatMap_map]
  induction table.faces with
  | nil => rfl
  | cons face faces ih =>
    have h := Face.length_queue_popReady face now
    simp only [List.flatMap_cons, List.map_cons, List.filterMap_cons, List.length_append] at ih ⊢
    rw [← ih, ← h]
    cases (face.popReady now).1 with
    | none =>
      simp only [Option.toList_none, List.length_nil]
      omega
    | some outbound =>
      simp only [Option.toList_some, List.length_cons, List.length_nil]
      omega

end FaceTable

end NamedFunctions
