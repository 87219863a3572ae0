import NamedFunctions.Proofs.FaceTable.Layout
import NamedFunctions.Proofs.Relay.Requests
import NamedFunctions.Proofs.RouteTable

/-!
# The layout of a relay

The layout of a relay is its routes and where its faces lead. It is sound if the faces are told apart and
each route leads through a face that is there. Packets change nothing of it, whatever they set off, and
all other operations keep it sound.
-/

namespace NamedFunctions

private theorem Face.place_enqueue (face : Face) (packet : Packet) :
    ((face.enqueue packet).2.interface, (face.enqueue packet).2.peer) =
      (face.interface, face.peer) := by
  unfold enqueue
  split <;> rfl

namespace Relay

/-- The routes of a relay, and where its faces lead. -/
def layout (r : Relay) : RouteTable × List FaceId × UInt32 × (FaceId → Option (Nat × Peer)) :=
  (r.routes, r.faces.layout)

private theorem layout_send (r : Relay) (id : FaceId) (packet : Packet) :
    (r.send id packet).2.layout = r.layout := by
  unfold send
  split
  · rfl
  · next face hf =>
    have hid : face.id = id := FaceTable.id_of_get? hf
    refine congrArg (Prod.mk r.routes)
      (FaceTable.layout_modify_const hf ?_ (Face.place_enqueue _ packet))
    rw [Face.id_enqueue]
    exact hid

private theorem layout_propagate (r : Relay) (id : PendingId) : (r.propagate id).2.layout = r.layout := by
  unfold propagate
  split
  · rfl
  · next e _ =>
    split
    · rfl
    · next route _ =>
      dsimp only
      split
      · rfl
      · have hsent := r.layout_send route.face (.interest e.interest)
        split
        · next heq =>
          rw [heq] at hsent
          exact hsent
        · next heq =>
          rw [heq] at hsent
          exact hsent

/-- Caching leaves the layout. -/
theorem layout_cache (r : Relay) (content : Content) (isStatic : Bool) :
    (r.cache content isStatic).layout = r.layout := by
  obtain ⟨store, stats, hcache⟩ := r.cache_eq content isStatic
  rw [hcache]
  rfl

private theorem Delivery.layout_offer (content : Content) (now : Nat) (d : Delivery) (request : Request) :
    (d.offer content now request).faces.layout = d.faces.layout := by
  unfold offer
  split
  · split <;> rfl
  · next id _ =>
    split
    · rfl
    · next face hf =>
      split
      · rfl
      · have hid : face.id = id := FaceTable.id_of_get? hf
        refine FaceTable.layout_modify_const hf ?_ (Face.place_enqueue _ (.content content))
        rw [Face.id_enqueue]
        exact hid

private theorem Delivery.layout_foldl_offer (content : Content) (now : Nat) (requests : List Request)
    (d : Delivery) : (requests.foldl (offer content now) d).faces.layout = d.faces.layout := by
  induction requests generalizing d with
  | nil => rfl
  | cons request requests ih => exact (ih _).trans (d.layout_offer content now request)

/-- Serving leaves the layout. -/
theorem layout_serve (r : Relay) (content : Content) (entries : List PendingEntry) :
    (r.serve content entries).2.layout = r.layout :=
  congrArg (Prod.mk r.routes)
    (FaceTable.layout_clearServed.trans (Delivery.layout_foldl_offer content r.clock _ _))

private theorem layout_issue (r : Relay) (c : Computation) (name : Name) :
    (r.issue c name).2.layout = r.layout := by
  have hasked : (r.asked c name).2.layout = r.layout := layout_propagate _ _
  rw [issue_eq]
  split
  · exact hasked
  · exact hasked

private theorem layout_await (r : Relay) (c : Computation) (name : Name) :
    (r.await c name).2.layout = r.layout := by
  unfold await
  split
  · rfl
  · exact r.layout_issue c name

private theorem layout_advance (r : Relay) (c : Computation) (name : Name) :
    (r.advance c name).2.layout = r.layout := by
  fun_induction advance r c name with
  | case1 r c name => exact r.layout_await c name
  | case2 => rfl
  | case3 => rfl
  | case4 r c name content store _ r' c' name' _ _ ih => exact ih

private theorem layout_settle (r : Relay) (progress : Except ComputationError Progress) :
    (r.settle progress).2.layout = r.layout := by
  unfold settle
  split
  · rfl
  · rfl
  · exact r.layout_advance _ _

private theorem layout_countFailure (r : Relay) (outcome : Except RelayError Settled) :
    (r.countFailure outcome).layout = r.layout := by
  unfold countFailure
  split <;> rfl

/-- Taking a computation further leaves the layout. -/
theorem layout_carryOn (r : Relay) (progress : Except ComputationError Progress) :
    (r.carryOn progress).2.layout = r.layout := by
  rw [carryOn_eq]
  exact (layout_countFailure _ _).trans (r.layout_settle progress)

/-- Resuming a computation leaves the layout. -/
theorem layout_resumeComputation (r : Relay) (id : ComputationId) (payload : Bytes) :
    (r.resumeComputation id payload).2.layout = r.layout := by
  cases hc : r.computations.get? id with
  | none =>
    rw [resumeComputation_of_none hc]
    rfl
  | some c =>
    rw [resumeComputation_of_some hc]
    exact layout_carryOn _ _

/-- Announcing a result leaves the layout. -/
theorem layout_announce (r : Relay) (origin : Interest) (result : Bytes) :
    (r.announce origin result).2.layout = r.layout :=
  (layout_serve _ _ _).trans (layout_cache _ _ _)

private theorem layout_wake (r : Relay) (agenda : List (ComputationId × Bytes)) :
    (r.wake agenda).layout = r.layout := by
  fun_induction wake r agenda with
  | case1 => rfl
  | case2 r id payload rest r' h _ ih =>
    have hresumed := r.layout_resumeComputation id payload
    rw [h] at hresumed
    exact ih.trans hresumed
  | case3 r id payload rest origin result r' h _ ih =>
    have hresumed := r.layout_resumeComputation id payload
    rw [h] at hresumed
    exact ih.trans ((r'.layout_announce origin result).trans hresumed)

/-- Beginning a computation leaves the layout. -/
theorem layout_beginComputation (r : Relay) (interest : Interest) :
    (r.beginComputation interest).2.layout = r.layout := by
  unfold beginComputation
  split <;> rfl

private theorem layout_startComputation (r : Relay) (interest : Interest) :
    (r.startComputation interest).2.layout = r.layout := by
  have hbegun := layout_beginComputation
    (r.count fun s => { s with computationsStarted := s.computationsStarted + 1 }) interest
  have hcarried := layout_carryOn
    ((r.count fun s => { s with computationsStarted := s.computationsStarted + 1 }).beginComputation
      interest).2
    ((r.count fun s => { s with computationsStarted := s.computationsStarted + 1 }).beginComputation
      interest).1
  have hlayout := hcarried.trans hbegun
  unfold startComputation
  dsimp only
  split
  · next heq =>
    rw [heq] at hlayout
    exact hlayout
  · next heq =>
    rw [heq] at hlayout
    exact hlayout
  · next origin result r' heq =>
    rw [heq] at hlayout
    exact (layout_wake _ _).trans ((r'.layout_announce origin result).trans hlayout)

/-- Noting that a face was used leaves the layout. -/
theorem layout_touch (r : Relay) (id : FaceId) : (r.touch id).layout = r.layout :=
  congrArg (Prod.mk r.routes) (FaceTable.layout_touch id r.clock)

/-- Accepting an Interest leaves the layout. -/
theorem layout_accept (r : Relay) (interest : Interest) :
    (r.accept interest).2.layout = r.layout := by
  obtain ⟨nonces, source, haccept⟩ := r.accept_eq interest
  rw [haccept]
  rfl

private theorem layout_aggregate (r : Relay) (source : FaceId) (interest : Interest) (id : PendingId) :
    (r.aggregate source interest id).2.layout = r.layout := by
  rw [snd_aggregate]
  split
  · exact layout_propagate _ _
  · rfl

private theorem layout_forward (r : Relay) (source : FaceId) (interest : Interest) :
    (r.forward source interest).2.layout = r.layout := by
  have hsent : (r.sentOn source interest).2.layout = r.layout := layout_propagate _ _
  rw [snd_forward]
  split
  · exact hsent
  · exact hsent

private theorem layout_resolve (r : Relay) (source : FaceId) (interest : Interest) :
    (r.resolve source interest).2.layout = r.layout := by
  cases hlookup : r.store.lookup interest r.clock with
  | some found =>
    have hsent := (r.fetched found.2).layout_send source (.content found.1)
    rw [snd_resolve_of_some hlookup]
    split
    · exact hsent
    · exact hsent
  | none =>
    rw [resolve, hlookup]
    dsimp only
    split
    · exact r.layout_aggregate source interest _
    · split
      · exact layout_startComputation _ interest
      · exact r.layout_forward source interest

/-- The handling of an Interest leaves the layout as it is. -/
theorem layout_handleInterest (r : Relay) (source : FaceId) (interest : Interest) :
    (r.handleInterest source interest).2.layout = r.layout := by
  have haccepted := (layout_accept
    ((r.touch source).count fun s => { s with interestsReceived := s.interestsReceived + 1 })
    interest).trans (r.layout_touch source)
  unfold handleInterest
  split
  · dsimp only
    split
    · next r' heq =>
      rw [heq] at haccepted
      exact (r'.layout_resolve source _).trans haccepted
    · next heq =>
      rw [heq] at haccepted
      exact haccepted
  · rfl

/-- The handling of data leaves the layout as it is. -/
theorem layout_handleContent (r : Relay) (source : FaceId) (content : Content) :
    (r.handleContent source content).2.layout = r.layout := by
  unfold handleContent
  split
  · dsimp only
    split
    · exact r.layout_touch source
    · exact (layout_wake _ _).trans
        ((layout_serve _ _ _).trans ((layout_cache _ _ _).trans (r.layout_touch source)))
  · rfl

/-- What a tick does about a pending Interest leaves the layout as it is. -/
theorem layout_sweepPending (sweep : Sweep) (id : PendingId) :
    (sweepPending sweep id).2.layout = sweep.2.layout := by
  obtain ⟨report, r⟩ := sweep
  unfold sweepPending
  dsimp only
  split
  · rfl
  · next e _ =>
    split
    · rfl
    · have hsent := layout_propagate
        { r with pending := r.pending.modify id fun e => { e with retries := e.retries + 1 } } id
      split
      · next heq =>
        rw [heq] at hsent
        exact hsent
      · next heq =>
        rw [heq] at hsent
        exact hsent

/-- Sweeping entries leaves the layout. -/
theorem layout_sweeps (ids : List PendingId) (sweep : Sweep) :
    (ids.foldl sweepPending sweep).2.layout = sweep.2.layout := by
  induction ids generalizing sweep with
  | nil => rfl
  | cons id ids ih => exact (ih _).trans (layout_sweepPending sweep id)

/-- Of what a tick does, the removal of faces alone concerns the layout. -/
theorem layout_tick (r : Relay) :
    r.tick.2.layout =
      ({ r with clock := r.clock + 1 }.removeFaces
        (r.faces.idle (r.clock + 1) r.config.faceTimeout)).layout := by
  obtain ⟨store, sweep, nonces, hsweep, htick⟩ := r.tick_eq
  have hremoved := congrArg layout hsweep
  rw [htick]
  exact (layout_sweeps sweep.2.pending.ids sweep).trans hremoved

/-- Whether faces are told apart, and each route leads through a face that is there. -/
structure LaidOut (r : Relay) : Prop where
  faces : r.faces.WellFormed
  routes : ∀ route ∈ r.routes.routes, r.faces.contains route.face = true

variable {r r' r'' : Relay}

/-- The routes are part of the layout. -/
theorem routes_of_layout (h : r'.layout = r.layout) : r'.routes = r.routes := congrArg Prod.fst h

/-- Whether a face is there is a matter of the layout. -/
theorem contains_of_layout (h : r'.layout = r.layout) (id : FaceId) :
    r'.faces.contains id = r.faces.contains id := by
  have hids : r'.faces.ids = r.faces.ids := congrArg (fun layout => layout.2.1) h
  rw [Bool.eq_iff_iff, FaceTable.contains_iff, FaceTable.contains_iff, hids]

namespace LaidOut

/-- Whether a relay is laid out is a matter of its layout. -/
theorem of_layout (h : LaidOut r) (hlayout : r'.layout = r.layout) : LaidOut r' := by
  refine ⟨h.faces.of_layout (congrArg Prod.snd hlayout), ?_⟩
  intro route hroute
  rw [routes_of_layout hlayout] at hroute
  rw [contains_of_layout hlayout]
  exact h.routes route hroute

/-- An Interest that has a route finds the face of the route. -/
theorem contains_of_lookup (h : LaidOut r) {name : Name} {route : Route}
    (hroute : r.routes.lookup name = some route) : r.faces.contains route.face = true := by
  exact h.routes route (RouteTable.mem_of_lookup hroute)

end LaidOut

/-- Whether a relay comes about from another one with its layout as sound as it was and, unless numbers come
round, no face that is there again after it was gone. -/
structure Shifted (r r' : Relay) : Prop where
  sound : LaidOut r → LaidOut r'
  later : r.faces.nextId ≤ r'.faces.nextId → r.faces.Later r'.faces

/-- Faces that are removed do not come back with that. -/
theorem later_removeFace (r : Relay) (id : FaceId) : r.faces.Later (r.removeFace id).2.faces :=
  removeFace_induction (motive := fun s => r.faces.Later s.faces) r id (fun _ => .refl r.faces)
    fun _ _ => .erase r.faces id

private theorem later_removeFaces (r : Relay) (ids : List FaceId) :
    r.faces.Later (r.removeFaces ids).faces := by
  induction ids generalizing r with
  | nil => exact .refl r.faces
  | cons id ids ih => exact (r.later_removeFace id).trans (ih _)

namespace Shifted

private theorem of_layout (hlayout : r'.layout = r.layout) : Shifted r r' :=
  ⟨fun h => h.of_layout hlayout, fun _ => .of_layout (congrArg Prod.snd hlayout)⟩

/-- More faces do no harm. -/
theorem of_eased {faces : FaceTable} (heased : r.faces.Eased faces)
    (hwellFormed : r.faces.WellFormed → faces.WellFormed)
    (hlater : r.faces.nextId ≤ faces.nextId → r.faces.Later faces) : Shifted r { r with faces } :=
  ⟨fun h => ⟨hwellFormed h.faces, fun route hroute => heased.contains _ (h.routes route hroute)⟩,
    hlater⟩

private theorem of_routes {routes : RouteTable}
    (h : ∀ route ∈ routes.routes,
      route.face ∈ r.routes.routes.map (·.face) ∨ r.faces.contains route.face = true) :
    Shifted r { r with routes } := by
  refine ⟨fun hr => ⟨hr.faces, fun route hroute => ?_⟩, fun _ => .refl _⟩
  rcases h route hroute with hold | hnew
  · obtain ⟨route', hroute', heq⟩ := List.mem_map.mp hold
    have hcontains := hr.routes route' hroute'
    rw [heq] at hcontains
    exact hcontains
  · exact hnew

/-- A face that is removed takes its routes along. -/
theorem removeFace (r : Relay) (id : FaceId) : Shifted r (r.removeFace id).2 := by
  refine ⟨fun hr => ?_, fun _ => r.later_removeFace id⟩
  by_cases h : r.faces.contains id = true
  · obtain ⟨nonces, hremove⟩ := r.removeFace_eq h
    rw [hremove]
    refine ⟨hr.faces.erase id, fun route hroute => ?_⟩
    obtain ⟨hmem, hne⟩ := List.mem_filter.mp hroute
    rw [FaceTable.contains_erase, hr.routes route hmem]
    exact hne
  · rw [Relay.removeFace, if_neg h]
    exact hr

private theorem removeFaces (r : Relay) (ids : List FaceId) : Shifted r (r.removeFaces ids) := by
  refine ⟨fun hr => ?_, fun _ => r.later_removeFaces ids⟩
  induction ids generalizing r with
  | nil => exact hr
  | cons id ids ih => exact ih _ ((removeFace r id).sound hr)

private theorem addRoute (r : Relay) (name : Name) (face : FaceId) (suite : Suite) :
    Shifted r (r.addRoute name face suite).2 := by
  unfold Relay.addRoute
  split
  · next hface =>
    apply of_routes
    intro route hroute
    unfold RouteTable.insert at hroute
    split at hroute
    · rcases RouteTable.mem_redirect hroute with hroute | hlead
      · exact .inl (List.mem_map_of_mem hroute)
      · exact .inr (hlead ▸ hface)
    · rcases List.mem_append.mp hroute with hroute | hroute
      · exact .inl (List.mem_map_of_mem hroute)
      · obtain rfl := List.mem_singleton.mp hroute
        exact .inr hface
  · exact .of_layout rfl

private theorem addStaticFace (r : Relay) (interface : Nat) (peer : Peer) (flags : FaceFlags) :
    Shifted r (r.addStaticFace interface peer flags).2 :=
  .of_eased (r.faces.eased_create interface peer { flags with isStatic := true } r.clock)
    (fun h => h.create interface peer { flags with isStatic := true } r.clock)
    .create

private theorem apply (r : Relay) (command : Command) : Shifted r (r.apply command).2 := by
  cases command with
  | addFace interface peer flags => exact addStaticFace r interface peer flags
  | removeFace face => exact removeFace r face
  | addRoute uri face suite =>
    exact withName_induction (motive := Shifted r) r uri suite (.of_layout rfl)
      fun name => addRoute r name face suite
  | removeRoute uri suite =>
    refine withName_induction (motive := Shifted r) r uri suite (.of_layout rfl) fun name => ?_
    apply of_routes
    intro route hroute
    exact .inl (List.mem_map_of_mem (List.mem_of_mem_eraseP hroute))
  | markStale uri suite =>
    exact withName_induction (motive := Shifted r) r uri suite (.of_layout rfl)
      fun name => .of_layout rfl
  | flushCache => exact .of_layout rfl
  | setCacheCapacity entries => exact .of_layout rfl

/-- Whatever is asked of a relay keeps its layout sound. -/
theorem perform (r : Relay) (op : Operation) : Shifted r (r.perform op) := by
  cases op with
  | faceForPeer interface peer =>
    exact .of_eased (r.faces.eased_getOrCreate interface peer r.clock)
      (fun h => h.getOrCreate interface peer r.clock) .getOrCreate
  | addStaticFace interface peer flags => exact addStaticFace r interface peer flags
  | removeFace face => exact removeFace r face
  | addRoute name face suite => exact addRoute r name face suite
  | cacheContent content isStatic =>
    obtain ⟨store, hstore⟩ := r.cacheContent_eq content isStatic
    rw [Relay.perform, hstore]
    exact .of_layout rfl
  | drainReady now => exact .of_layout (congrArg (Prod.mk r.routes) (FaceTable.layout_popReady now))
  | handleInterest source interest => exact .of_layout (r.layout_handleInterest source interest)
  | handleContent source content => exact .of_layout (r.layout_handleContent source content)
  | tick =>
    have hremoved := removeFaces { r with clock := r.clock + 1 }
      (r.faces.idle (r.clock + 1) r.config.faceTimeout)
    refine ⟨fun hr => (hremoved.sound (hr.of_layout rfl)).of_layout r.layout_tick, fun _ => ?_⟩
    exact (later_removeFaces { r with clock := r.clock + 1 } _).trans
      (.of_layout (congrArg Prod.snd r.layout_tick))
  | apply command => exact apply r command

end Shifted

/-- Whatever operations bring a relay about, its layout is sound. -/
theorem laidOut_of_reachable {kind : Operation → Prop} (hr : ReachableBy kind r) : LaidOut r := by
  induction hr with
  | new hnew =>
    obtain rfl := eq_of_new hnew
    exact ⟨.empty _ _, fun _ h => absurd h List.not_mem_nil⟩
  | perform _ _ ih => exact (Shifted.perform _ _).sound ih

/-- Whether an operation gives a number to a face that it adds. -/
def Gives (r : Relay) (op : Operation) (id : FaceId) : Prop := r.faces.Gives (r.perform op).faces id

/-- The number of the face that an operation answers with, if that is its answer. -/
def issued? (r : Relay) : Operation → Option FaceId
  | .faceForPeer interface peer => some (r.faceForPeer interface peer).1
  | .addStaticFace interface peer flags => some (r.addStaticFace interface peer flags).1
  | .apply (.addFace interface peer flags) => some (r.addStaticFace interface peer flags).1
  | _ => none

/-- A face that is issued is there. -/
theorem contains_of_issued? {op : Operation} {id : FaceId} (h : r.issued? op = some id) :
    (r.perform op).faces.contains id = true := by
  unfold issued? at h
  split at h
  · cases h
    exact r.faces.contains_getOrCreate _ _ _
  · cases h
    exact r.faces.contains_create _ _ _ _
  · cases h
    exact r.faces.contains_create _ _ _ _
  · cases h

/-- Whether the numbers of faces do not come round in the course of some operations. -/
def CountsUp (r : Relay) : List Operation → Prop
  | [] => True
  | op :: ops => r.faces.nextId ≤ (r.perform op).faces.nextId ∧ (r.perform op).CountsUp ops

/-- Whether numbers count up is decided operation by operation. -/
instance decidableCountsUp : (r : Relay) → (ops : List Operation) → Decidable (r.CountsUp ops)
  | _, [] => inferInstanceAs (Decidable True)
  | r, op :: ops => @instDecidableAnd _ _ inferInstance (decidableCountsUp (r.perform op) ops)

/-- Numbers count up over two runs if over one and then the other. -/
theorem countsUp_append {ops more : List Operation} :
    r.CountsUp (ops ++ more) ↔ r.CountsUp ops ∧ (r.performAll ops).CountsUp more := by
  induction ops generalizing r with
  | nil => simp [CountsUp, performAll]
  | cons op ops ih =>
    rw [List.cons_append, CountsUp, CountsUp, ih, and_assoc]
    rfl

private theorem CountsUp.later {ops : List Operation} (h : r.CountsUp ops) :
    r.faces.Later (r.performAll ops).faces := by
  induction ops generalizing r with
  | nil => exact .refl r.faces
  | cons op ops ih => exact ((Shifted.perform r op).later h.1).trans (ih h.2)

/-- Until numbers come round, those of all faces are below the next one. -/
theorem ascending_of_new {config : RelayConfig} {source : NonceSource} {r₀ : Relay}
    (hnew : Relay.new config source = .ok r₀) {ops : List Operation} (hr : r = r₀.performAll ops)
    (h : r₀.CountsUp ops) : r.faces.Ascending := by
  obtain rfl := eq_of_new hnew
  rw [hr]
  exact h.later.ascending fun _ hid => absurd hid List.not_mem_nil

/-- As long as numbers have not come round, the number of a face that is gone stays without a face and is not
issued again. -/
theorem not_issued_of_gone (hr : r.faces.Ascending) {id : FaceId} (honce : r.faces.contains id = true)
    {ops more : List Operation} (hcounts : r.CountsUp (ops ++ more))
    (hgone : (r.performAll ops).faces.contains id = false) :
    ((r.performAll ops).performAll more).faces.contains id = false ∧
      ∀ op, r.CountsUp (ops ++ more ++ [op]) →
        ((r.performAll ops).performAll more).issued? op ≠ some id := by
  obtain ⟨hops, hmore⟩ := countsUp_append.mp hcounts
  refine ⟨hmore.later.not_contains hr hops.later.nextId honce hgone, fun op hcounts hissued => ?_⟩
  rw [List.append_assoc] at hcounts
  have hlater := (countsUp_append.mp hcounts).2.later
  have hagain := hlater.not_contains hr hops.later.nextId honce hgone
  rw [performAll, List.foldl_append] at hagain
  exact absurd (contains_of_issued? hissued) (Bool.eq_false_iff.mp hagain)

end Relay

end NamedFunctions
