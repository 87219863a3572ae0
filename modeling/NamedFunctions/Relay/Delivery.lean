import NamedFunctions.Relay

/-!
# Sending and delivering

Interests leave along their routes, and data goes to everyone who waits for it.
-/

namespace NamedFunctions.Relay

/-- Queue a packet on a face; whether it was queued. `nfn-relay/src/engine:286–298`. -/
def send (r : Relay) (id : FaceId) (packet : Packet) : Bool × Relay :=
  match r.faces.get? id with
  | none => (false, r)
  | some face =>
    let (queued, face) := { face with lastUsed := r.clock }.enqueue packet
    (queued, { r with faces := r.faces.modify id fun _ => face })

/-- Send a pending Interest along its route. It does not go back to a face that waits for it, unless that face
reflects. The face that it was queued on, if it was. `nfn-relay/src/engine:268–284`. -/
def propagate (r : Relay) (id : PendingId) : Option FaceId × Relay :=
  match r.pending.get? id with
  | none => (none, r)
  | some e =>
    match r.routes.lookup e.interest.name with
    | none => (none, r)
    | some route =>
      let reflects := (r.faces.get? route.face).any (·.flags.reflect)
      if !reflects && e.faces.contains route.face then (none, r)
      else
        match r.send route.face (.interest e.interest) with
        | (true, r) =>
          (some route.face,
            r.count fun s => { s with interestsForwarded := s.interestsForwarded + 1 })
        | (false, r) => (none, r)

/-- Put data into the content store if there is room. `nfn-relay/src/engine:300–306`. -/
def cache (r : Relay) (content : Content) (isStatic : Bool) : Relay :=
  match r.store.put content isStatic r.clock with
  | some (.inserted, store) | some (.replaced, store) =>
    { r with store }.count fun s => { s with contentCached := s.contentCached + 1 }
  | some (.duplicate, store) | some (.transient, store) => { r with store }
  | none => r

/-- What has been delivered so far. `nfn-relay/src/engine:311–314`. -/
structure Delivery where
  faces : FaceTable
  /-- How many faces have the data in their queues. -/
  queued : Nat := 0
  /-- The computations that wait for the data, each once. -/
  waiting : List ComputationId := []

/-- Deliver data to a requester. A face has it once, however often it asked; a computation is noted.
`nfn-relay/src/engine:315–337`. -/
def Delivery.offer (content : Content) (now : Nat) (d : Delivery) (request : Request) : Delivery :=
  match request.requester with
  | .computation id => if d.waiting.contains id then d else { d with waiting := d.waiting ++ [id] }
  | .face id =>
    match d.faces.get? id with
    | none => d
    | some face =>
      if face.flags.served then d
      else
        let (queued, face) :=
          { face with flags := { face.flags with served := true }, lastUsed := now }.enqueue
            (.content content)
        { d with
          faces := d.faces.modify id fun _ => face
          queued := if queued then d.queued + 1 else d.queued }

/-- Deliver data to all who wait in some entries. How many faces have it in their queues, and the computations
to be resumed. `nfn-relay/src/engine:308–342`. -/
def serve (r : Relay) (content : Content) (entries : List PendingEntry) :
    (Nat × List ComputationId) × Relay :=
  let d := (entries.flatMap (·.requests)).foldl (Delivery.offer content r.clock)
    { faces := r.faces }
  ((d.queued, d.waiting),
    { r with faces := d.faces.clearServed }.count fun s =>
      { s with contentServed := s.contentServed + d.queued })

/-- Counting leaves the computations. -/
@[simp] theorem computations_count (r : Relay) (change : RelayStats → RelayStats) :
    (r.count change).computations = r.computations := rfl

/-- Sending leaves the computations. -/
@[simp] theorem computations_send (r : Relay) (id : FaceId) (packet : Packet) :
    (r.send id packet).2.computations = r.computations := by
  unfold send
  split <;> rfl

/-- Sending an Interest on leaves the computations. -/
@[simp] theorem computations_propagate (r : Relay) (id : PendingId) :
    (r.propagate id).2.computations = r.computations := by
  unfold propagate
  split
  · rfl
  next e _ =>
    split
    · rfl
    next route _ =>
      dsimp only
      split
      · rfl
      · have h := computations_send r route.face (.interest e.interest)
        split
        next heq => simpa [heq] using h
        next heq => simpa [heq] using h

/-- Caching leaves the computations. -/
@[simp] theorem computations_cache (r : Relay) (content : Content) (isStatic : Bool) :
    (r.cache content isStatic).computations = r.computations := by
  unfold cache
  split <;> rfl

/-- Serving leaves the computations. -/
@[simp] theorem computations_serve (r : Relay) (content : Content) (entries : List PendingEntry) :
    (r.serve content entries).2.computations = r.computations := rfl

end NamedFunctions.Relay
