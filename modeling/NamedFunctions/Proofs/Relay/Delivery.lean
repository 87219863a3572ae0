import NamedFunctions.Proofs.FaceTable
import NamedFunctions.Proofs.PendingTable

/-!
# What a delivery does

A delivery offers its data once to each face that waits in one of the entries, and notes each computation
that waits there. Everything else that is sent leaves the data on the queues as it is.
-/

namespace NamedFunctions

namespace Relay

namespace Delivery

variable (content : Content) (now : Nat)

private theorem faces_offer_face {d : Delivery} {x : FaceId} {face : Face}
    (hf : d.faces.get? x = some face) (arrivedAt : Nat) (id : FaceId) :
    (d.offer content now ⟨.face x, arrivedAt⟩).faces.get? id =
      if id = x then some (face.receive content now) else d.faces.get? id := by
  have hx := FaceTable.id_of_get? hf
  unfold offer Face.receive
  simp only [hf]
  split
  · next hs =>
    split
    · next h => rw [h, hf]
    · rfl
  · next hs =>
    apply FaceTable.get?_modify_const hf
    rw [Face.id_enqueue, hx]

/-- An offer concerns the face that makes the request. -/
theorem get?_faces_offer (d : Delivery) (request : Request) (id : FaceId) :
    (d.offer content now request).faces.get? id =
      if request.requester = .face id then (d.faces.get? id).map (Face.receive content now)
      else d.faces.get? id := by
  obtain ⟨requester, arrivedAt⟩ := request
  cases requester with
  | computation x =>
    have : (d.offer content now ⟨.computation x, arrivedAt⟩).faces = d.faces := by
      unfold offer
      dsimp only
      split <;> rfl
    rw [this]
    rfl
  | face x =>
    cases hf : d.faces.get? x with
    | none =>
      have : d.offer content now ⟨.face x, arrivedAt⟩ = d := by simp only [offer, hf]
      rw [this]
      split
      · next h =>
        cases h
        rw [hf]
        rfl
      · rfl
    | some face =>
      rw [faces_offer_face content now hf]
      by_cases h : id = x
      · simp [h, hf]
      · simp [h, Ne.symm h]

/-- Offers in a row concern the faces that make the requests, each of which gets the data once. -/
theorem get?_faces_foldl_offer (requests : List Request) (d : Delivery) (id : FaceId) :
    (requests.foldl (offer content now) d).faces.get? id =
      if ∃ request ∈ requests, request.requester = .face id then
        (d.faces.get? id).map (Face.receive content now)
      else d.faces.get? id := by
  induction requests generalizing d with
  | nil => simp
  | cons request requests ih =>
    rw [List.foldl_cons, ih, get?_faces_offer]
    by_cases hr : request.requester = .face id
    · by_cases hrs : ∃ request ∈ requests, request.requester = .face id
      · have hagain : Face.receive content now ∘ Face.receive content now =
            Face.receive content now := funext (Face.receive_receive content now)
        simp [hr, hrs, Option.map_map, hagain]
      · simp [hr, hrs]
    · simp [hr]

private theorem waiting_offer (d : Delivery) (request : Request)
    (h : ∀ id ∈ request.computation?, id ∉ d.waiting) :
    (d.offer content now request).waiting = d.waiting ++ request.computation?.toList := by
  obtain ⟨requester, arrivedAt⟩ := request
  cases requester with
  | face x =>
    unfold offer Request.computation?
    dsimp only
    split
    · simp
    · split <;> simp
  | computation x =>
    have hx : x ∉ d.waiting := h x rfl
    simp [offer, Request.computation?, hx]

/-- The computations that make requests are noted in the order of their requests, if each makes one. -/
theorem waiting_foldl_offer (requests : List Request) (d : Delivery)
    (h : (d.waiting ++ requests.filterMap Request.computation?).Nodup) :
    (requests.foldl (offer content now) d).waiting =
      d.waiting ++ requests.filterMap Request.computation? := by
  induction requests generalizing d with
  | nil => simp
  | cons request requests ih =>
    have hsplit : (request :: requests).filterMap Request.computation? =
        request.computation?.toList ++ requests.filterMap Request.computation? := by
      cases hc : request.computation? <;> simp [hc]
    rw [hsplit, ← List.append_assoc] at h
    have hnew : ∀ id ∈ request.computation?, id ∉ d.waiting := by
      intro id hid hmem
      have hdis := (List.nodup_append.mp (List.nodup_append.mp h).1).2.2
      exact hdis id hmem id (by simpa using hid) rfl
    rw [List.foldl_cons, hsplit, ← List.append_assoc, ← waiting_offer content now d request hnew,
      ih]
    rw [waiting_offer content now d request hnew]
    exact h

end Delivery

/-- A delivery offers its data to the faces that wait in its entries, and then takes their marks. -/
theorem get?_faces_serve (r : Relay) (content : Content) (entries : List PendingEntry)
    (id : FaceId) :
    (r.serve content entries).2.faces.get? id =
      (if ∃ e ∈ entries, id ∈ e.faces then
          (r.faces.get? id).map (Face.receive content r.clock)
        else r.faces.get? id).map
        fun face => { face with flags := { face.flags with served := false } } := by
  have hasked : (∃ request ∈ entries.flatMap (·.requests), request.requester = .face id) ↔
      ∃ e ∈ entries, id ∈ e.faces := by
    simp only [PendingEntry.mem_faces, List.mem_flatMap]
    constructor
    · rintro ⟨request, ⟨e, he, hmem⟩, hr⟩
      exact ⟨e, he, request, hmem, hr⟩
    · rintro ⟨e, he, request, hmem, hr⟩
      exact ⟨request, ⟨e, he, hmem⟩, hr⟩
  change FaceTable.get? (FaceTable.clearServed _) id = _
  rw [FaceTable.get?_clearServed, Delivery.get?_faces_foldl_offer]
  simp only [hasked]

/-- The data comes onto the queue of each face that waits in the entries, unless it is marked or
full. -/
theorem contents_serve (r : Relay) (content : Content) {entries : List PendingEntry} {id : FaceId}
    {face : Face} (hf : r.faces.get? id = some face) (hasked : ∃ e ∈ entries, id ∈ e.faces) :
    (r.serve content entries).2.faces.contents id =
      r.faces.contents id ++
        if face.flags.served = true ∨ face.IsFull then [] else [content] := by
  rw [FaceTable.contents, get?_faces_serve, if_pos hasked, hf, Option.map_some, Option.map_some,
    Option.map_some, Option.getD_some, FaceTable.contents, hf]
  exact Face.contents_receive content r.clock face

/-- The data of faces that do not wait in the entries stays as it is. -/
theorem contents_serve_of_not_asked (r : Relay) (content : Content) {entries : List PendingEntry}
    {id : FaceId} (h : ¬ ∃ e ∈ entries, id ∈ e.faces) :
    (r.serve content entries).2.faces.contents id = r.faces.contents id := by
  rw [FaceTable.contents, get?_faces_serve, if_neg h, Option.map_map]
  rfl

/-- Nothing is served to a face that is not there. -/
theorem contents_serve_of_missing {r : Relay} (content : Content) (entries : List PendingEntry)
    {id : FaceId} (hf : r.faces.get? id = none) :
    (r.serve content entries).2.faces.contents id = r.faces.contents id := by
  rw [FaceTable.contents, get?_faces_serve, hf, FaceTable.contents, hf]
  split <;> rfl

/-- A delivery neither adds nor removes faces. -/
theorem contains_serve (r : Relay) (content : Content) (entries : List PendingEntry)
    (id : FaceId) : (r.serve content entries).2.faces.contains id = r.faces.contains id := by
  rw [FaceTable.contains_eq_isSome, get?_faces_serve, FaceTable.contains_eq_isSome]
  split <;> simp

/-- After a delivery no face is marked. -/
theorem unmarked_serve (r : Relay) (content : Content) (entries : List PendingEntry) :
    (r.serve content entries).2.faces.Unmarked := by
  intro id face hf
  rw [get?_faces_serve] at hf
  obtain ⟨face', -, rfl⟩ := Option.map_eq_some_iff.mp hf
  rfl

/-- The computations that wait in the entries are those to be resumed, in this order, if each waits
once. -/
theorem waiting_serve (r : Relay) (content : Content) {entries : List PendingEntry}
    (h : (entries.flatMap (·.computations)).Nodup) :
    (r.serve content entries).1.2 = entries.flatMap (·.computations) := by
  have hcomputations : entries.flatMap (·.computations) =
      (entries.flatMap (·.requests)).filterMap Request.computation? := by
    rw [List.filterMap_flatMap]
    rfl
  rw [hcomputations] at h ⊢
  have := Delivery.waiting_foldl_offer content r.clock (entries.flatMap (·.requests))
    { faces := r.faces } (by simpa using h)
  simpa [serve] using this

/-- Sending concerns the face that the packet goes to. -/
theorem get?_faces_send {r : Relay} {id : FaceId} {face : Face} (hf : r.faces.get? id = some face)
    (packet : Packet) (x : FaceId) :
    (r.send id packet).2.faces.get? x =
      if x = id then some ({ face with lastUsed := r.clock }.enqueue packet).2
      else r.faces.get? x := by
  have hid : ({ face with lastUsed := r.clock }.enqueue packet).2.id = id := by
    have hface := FaceTable.id_of_get? hf
    rw [Face.id_enqueue]
    exact hface
  have hsend : (r.send id packet).2.faces =
      r.faces.modify id fun _ => ({ face with lastUsed := r.clock }.enqueue packet).2 := by
    simp only [send, hf]
  rw [hsend, FaceTable.get?_modify_const hf hid]

/-- Nothing is sent to a face that is not there. -/
theorem faces_send_of_missing {r : Relay} {id : FaceId} (hf : r.faces.get? id = none)
    (packet : Packet) : (r.send id packet).2.faces = r.faces := by
  simp only [send, hf]

/-- Sending leaves the faces that are there. -/
theorem contains_send (r : Relay) (id : FaceId) (packet : Packet) (x : FaceId) :
    (r.send id packet).2.faces.contains x = r.faces.contains x := by
  cases hf : r.faces.get? id with
  | none => rw [faces_send_of_missing hf]
  | some face =>
    rw [FaceTable.contains_eq_isSome, get?_faces_send hf, FaceTable.contains_eq_isSome]
    split
    · next h =>
      rw [h, hf]
      rfl
    · rfl

/-- Sending marks no face. -/
theorem unmarkedAt_send {r : Relay} {x : FaceId} (hm : r.faces.UnmarkedAt x) (id : FaceId)
    (packet : Packet) : (r.send id packet).2.faces.UnmarkedAt x := by
  cases hf : r.faces.get? id with
  | none =>
    rw [faces_send_of_missing hf]
    exact hm
  | some face =>
    intro face' hf'
    rw [get?_faces_send hf] at hf'
    split at hf'
    · next h =>
      cases hf'
      rw [Face.flags_enqueue]
      exact hm face (h ▸ hf)
    · exact hm face' hf'

/-- Sending touches the faces only. -/
theorem send_eq (r : Relay) (id : FaceId) (packet : Packet) :
    ∃ faces, (r.send id packet).2 = { r with faces } := by
  unfold send
  split
  · exact ⟨r.faces, rfl⟩
  · exact ⟨_, rfl⟩

/-- Sending leaves the pending Interests. -/
theorem pending_send (r : Relay) (id : FaceId) (packet : Packet) :
    (r.send id packet).2.pending = r.pending := by
  unfold send
  split <;> rfl

/-- Sending leaves the counters. -/
@[simp] theorem stats_send (r : Relay) (id : FaceId) (packet : Packet) :
    (r.send id packet).2.stats = r.stats := by
  unfold send
  split <;> rfl

/-- Sending an Interest leaves the data on the queues alone. -/
theorem send_interest (r : Relay) (id : FaceId) (interest : Interest) :
    ∃ faces, (r.send id (.interest interest)).2 = { r with faces } ∧ r.faces.Quiet faces := by
  unfold send
  split
  · exact ⟨r.faces, rfl, .refl _⟩
  · next face hf =>
    refine ⟨_, rfl, FaceTable.quiet_modify_const hf ?_ ?_⟩
    · have hid := FaceTable.id_of_get? hf
      rw [Face.id_enqueue]
      exact hid
    · have hc := Face.contents_enqueue_interest { face with lastUsed := r.clock } interest
      have hflags := Face.flags_enqueue { face with lastUsed := r.clock } (.interest interest)
      exact Prod.ext hc hflags

/-- Sending a pending Interest on changes faces and counters only, and leaves the data on the queues
alone. -/
theorem propagate_eq (r : Relay) (id : PendingId) :
    ∃ faces stats, (r.propagate id).2 = { r with faces, stats } ∧ r.faces.Quiet faces := by
  unfold propagate
  split
  · exact ⟨r.faces, r.stats, rfl, .refl _⟩
  · next e _ =>
    split
    · exact ⟨r.faces, r.stats, rfl, .refl _⟩
    · next route _ =>
      dsimp only
      split
      · exact ⟨r.faces, r.stats, rfl, .refl _⟩
      · obtain ⟨faces, hsend, hquiet⟩ := r.send_interest route.face e.interest
        split
        · next r' heq =>
          rw [heq] at hsend
          obtain rfl : r' = { r with faces } := hsend
          exact ⟨faces, _, rfl, hquiet⟩
        · next heq =>
          rw [heq] at hsend
          exact ⟨faces, r.stats, hsend, hquiet⟩

/-- Caching data changes the content store and counters only. -/
theorem cache_eq (r : Relay) (content : Content) (isStatic : Bool) :
    ∃ store stats, r.cache content isStatic = { r with store, stats } := by
  unfold cache
  split
  · exact ⟨_, _, rfl⟩
  · exact ⟨_, _, rfl⟩
  · exact ⟨_, r.stats, rfl⟩
  · exact ⟨_, r.stats, rfl⟩
  · exact ⟨r.store, r.stats, rfl⟩

end Relay

end NamedFunctions
