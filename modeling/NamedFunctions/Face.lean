import NamedFunctions.Packet
import NamedFunctions.Peer

/-!
# Faces

A face is the end of the way to a peer: a queue of packets of bounded length, from which pacing
releases one at a time. Instants are microseconds after some start, ticks are counted by the relay.
-/

namespace NamedFunctions

/-- The number of a face. `nfn-relay/src/face:11–14`. -/
structure FaceId where
  val : UInt32
deriving DecidableEq, Repr

/-- The identity of a face as it is shown. `nfn-relay/src/face:16–20`. -/
def FaceId.toString (id : FaceId) : String := "face#" ++ ToString.toString id.val.toNat

/-- How a face behaves. `nfn-relay/src/face:39–53`. -/
structure FaceFlags where
  /-- It stays however long it is idle. -/
  isStatic : Bool := false
  /-- Interests may go back out of it. -/
  reflect : Bool := false
  /-- The Content that is being delivered has been queued on it. -/
  served : Bool := false
  /-- Interests that join others are sent on all the same. -/
  forwardAll : Bool := false
deriving DecidableEq, Repr, Inhabited

/-- Keeps a least gap between transmissions; it delays them and drops none. `nfn-relay/src/face:55–60`. -/
structure Pacer where
  /-- The gap in microseconds; zero is none. -/
  interval : Nat
  /-- The first instant for the next transmission; before any it may be at once. -/
  nextSlot : Option Nat := none
deriving DecidableEq, Repr

namespace Pacer

/-- Whether a transmission may take place at an instant. `nfn-relay/src/face:70–72`. -/
def ready (p : Pacer) (now : Nat) : Bool := p.nextSlot.all (· ≤ now)

/-- The pacer after a transmission at an instant. `nfn-relay/src/face:74–79`. -/
def sent (p : Pacer) (now : Nat) : Pacer :=
  if p.interval = 0 then p else { p with nextSlot := some (now + p.interval) }

end Pacer

/-- The end of the way to a peer. `nfn-relay/src/face:87–100`. -/
structure Face where
  id : FaceId
  /-- The number of the local interface that the peer is reached through. -/
  interface : Nat
  peer : Peer
  flags : FaceFlags
  /-- The tick of the last packet from or to the peer. -/
  lastUsed : Nat
  /-- The packets to be sent, the first of them first. -/
  queue : List Packet := []
  /-- How many packets the queue holds at most. -/
  capacity : Nat
  pacer : Pacer
deriving Repr

/-- A packet that pacing has released, and where it goes. `nfn-relay/src/face:128–135`. -/
structure Outbound where
  face : FaceId
  interface : Nat
  peer : Peer
  packet : Packet
deriving Repr

namespace Face

/-- Queue a packet, unless the queue is full; whether it was queued. `nfn-relay/src/face:103–112`. -/
def enqueue (face : Face) (packet : Packet) : Bool × Face :=
  if face.queue.length ≥ face.capacity then (false, face)
  else (true, { face with queue := face.queue ++ [packet] })

/-- Release the first packet of the queue if pacing allows one at an instant. `nfn-relay/src/face:118–125`. -/
def popReady (face : Face) (now : Nat) : Option Outbound × Face :=
  match face.queue with
  | [] => (none, face)
  | packet :: queue =>
    if face.pacer.ready now then
      (some ⟨face.id, face.interface, face.peer, packet⟩,
        { face with queue, pacer := face.pacer.sent now })
    else (none, face)

/-- A packet that is released leaves the queue. -/
theorem length_queue_popReady (face : Face) (now : Nat) :
    (face.popReady now).2.queue.length + (face.popReady now).1.toList.length =
      face.queue.length := by
  unfold popReady
  split
  next h => simp [h]
  next packet queue h =>
    split
    · simp [h]
    · simp

/-- Whether a face may be removed for having been idle for more than `timeout` ticks.
`nfn-relay/src/face:225`. -/
def isIdle (face : Face) (now timeout : Nat) : Bool :=
  !face.flags.isStatic && now - face.lastUsed > timeout

end Face

end NamedFunctions
