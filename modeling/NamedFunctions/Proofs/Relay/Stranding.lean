import NamedFunctions.Proofs.Relay.Aggregation

/-!
# Interests without a way

An Interest in no expression that can be sent nowhere is dropped, and all tables are as they were but for
the nonces: its own stays recorded. So the same Interest is taken for one that has come back as long as
the nonce is known. Once it is forgotten the Interest goes out along its route, if there is one by then.
-/

namespace NamedFunctions

/-- Stale data satisfies no Interest that it did not satisfy when it was fresh. -/
theorem Interest.satisfiedBy_of_stale {interest : Interest} {content : Content} (stale : Bool)
    (h : interest.satisfiedBy content true = true) : interest.satisfiedBy content stale = true := by
  simp only [satisfiedBy, Selectors.accept, Bool.and_eq_true] at h ⊢
  refine ⟨h.1, h.2.1, ?_⟩
  have hfresh : interest.selectors.mustBeFresh = false := by simpa using h.2.2
  simp [hfresh]

namespace ContentStore

/-- Where a look-up finds nothing, no data answers the Interest. -/
theorem lacks_of_lookup {store : ContentStore} {interest : Interest} {now : Nat}
    (h : store.lookup interest now = none) : store.Lacks interest := by
  rw [lookup, Option.map_eq_none_iff] at h
  rw [Lacks]
  generalize store.entries = entries at h
  induction entries with
  | nil => exact List.forall_mem_nil _
  | cons e older ih =>
    rw [serveFirst] at h
    split at h
    · cases h
    · next hother =>
      rw [Option.map_eq_none_iff] at h
      exact List.forall_mem_cons.mpr ⟨Bool.eq_false_iff.mpr hother, ih h⟩

namespace Lacks

variable {store : ContentStore} {interest : Interest}

private theorem of_subset (h : store.Lacks interest) {entries : List CacheEntry}
    (hsub : entries ⊆ store.entries) (capacity : Option Nat) :
    ContentStore.Lacks { entries, capacity } interest :=
  fun e he => h e (hsub he)

/-- Data that becomes stale answers nothing that it did not answer before. -/
theorem markStale (h : store.Lacks interest) (hit : CacheEntry → Bool) :
    Lacks
      { store with
        entries := store.entries.map fun e => if hit e then { e with isStale := true } else e }
      interest := by
  intro e' he'
  obtain ⟨e, he, rfl⟩ := List.mem_map.mp he'
  have hnot := h e he
  split
  · rw [Bool.eq_false_iff] at hnot ⊢
    exact fun hstale => hnot (Interest.satisfiedBy_of_stale e.isStale hstale)
  · exact hnot

/-- Data that is not there comes to be there only if some is put in. -/
theorem change (h : store.Lacks interest) {c : Change}
    (hc : ∀ content isStatic now, c ≠ .put content isStatic now) :
    (store.change c).Lacks interest := by
  cases c with
  | lookup other now =>
    rw [ContentStore.change]
    cases hlookup : store.lookup other now with
    | none => exact h
    | some found => exact h.lookup hlookup
  | put content isStatic now => exact absurd rfl (hc content isStatic now)
  | markStale name => exact h.markStale _
  | markExpired now tick => exact h.markStale _
  | expireIdle now timeout => exact h.of_subset (List.filter_subset_self _) _
  | flush => exact h.of_subset (List.filter_subset_self _) _
  | setCapacity capacity =>
    cases capacity with
    | none => exact h
    | some bound => exact h.of_subset (Thinned.evictMany _ _).sublist.subset _

end Lacks

end ContentStore

namespace PendingTable

/-- Whether the Interests that are pending in a table are among those of another one. -/
def Within (later table : PendingTable) : Prop :=
  ∀ e' ∈ later.entries, ∃ e ∈ table.entries, e.interest = e'.interest

namespace Within

variable {later table : PendingTable}

private theorem refl (table : PendingTable) : table.Within table := fun e he => ⟨e, he, rfl⟩

private theorem filter (h : later.Within table) (keep : PendingEntry → Bool) :
    Within { later with entries := later.entries.filter keep } table :=
  fun e' he' => h e' (List.mem_of_mem_filter he')

private theorem map (h : later.Within table) {change : PendingEntry → PendingEntry}
    (hchange : ∀ e, (change e).interest = e.interest) :
    Within { later with entries := later.entries.map change } table := by
  intro e' he'
  obtain ⟨e, he, rfl⟩ := List.mem_map.mp he'
  rw [hchange]
  exact h e he

private theorem modify (h : later.Within table) (id : PendingId) {change : PendingEntry → PendingEntry}
    (hchange : ∀ e, (change e).interest = e.interest) : (later.modify id change).Within table := by
  refine h.map fun e => ?_
  split
  · exact hchange e
  · rfl

private theorem dropRequester (h : later.Within table) (requester : Requester) :
    (later.dropRequester requester).2.Within table := by
  have hleft : Within { later with entries := later.entries.map (·.leave requester) } table :=
    h.map fun _ => rfl
  exact hleft.filter _

end Within

end PendingTable

/-- Whether an operation hands a relay neither an Interest nor data. -/
def Operation.IsUpkeep : Operation → Prop
  | handleInterest .. => False
  | handleContent .. => False
  | cacheContent .. => False
  | _ => True

namespace Relay

variable {r r' : Relay} {source : FaceId} {interest : Interest} {op : Operation}

private theorem within_removeFace {table : PendingTable} (h : r.pending.Within table) (id : FaceId) :
    (r.removeFace id).2.pending.Within table :=
  removeFace_induction (motive := fun s => s.pending.Within table) r id (fun _ => h)
    fun _ _ => h.dropRequester _

private theorem within_swept {table : PendingTable} (h : r.pending.Within table) {id : PendingId}
    (hswept : Swept r id r') : r'.pending.Within table := by
  cases hswept with
  | missing => exact h
  | expired => exact h.filter _
  | retried => exact h.modify _ fun _ => rfl

/-- The Interests that are pending after upkeep were pending before. -/
theorem within_perform (hop : op.IsUpkeep) : (r.perform op).pending.Within r.pending := by
  have hr : r.pending.Within r.pending := .refl _
  cases op with
  | handleInterest => cases hop
  | handleContent => cases hop
  | cacheContent => cases hop
  | faceForPeer => exact hr
  | addStaticFace => exact hr
  | drainReady => exact hr
  | removeFace face => exact within_removeFace hr face
  | addRoute name face suite =>
    obtain ⟨routes, hroute⟩ := r.addRoute_eq name face suite
    rw [perform, hroute]
    exact hr
  | tick =>
    exact tick_induction (motive := fun s => s.pending.Within r.pending) r hr
      (fun _ id hs => within_removeFace hs id) (fun _ _ _ hs hswept => within_swept hs hswept)
      fun _ _ _ hs => hs
  | apply command =>
    have hmanages := r.manages command
    rw [perform]
    generalize (r.apply command).2 = r' at hmanages
    cases hmanages with
    | added => exact hr
    | removed face => exact within_removeFace hr face
    | aside => exact hr

private theorem lacks_perform (hop : op.IsUpkeep) (h : r.store.Lacks interest) :
    (r.perform op).store.Lacks interest := by
  refine (store_perform (P := fun store => store.Lacks interest) h fun store c hc hstore => ?_).1
  apply hstore.change
  rintro content isStatic now rfl
  rcases hc with rfl | ⟨s, hmem⟩
  · exact hop
  · cases op with
    | handleInterest => exact hop
    | handleContent => exact hop
    | _ => cases hmem

/-- Whether a relay has no data for an Interest, and nobody waits for the same. -/
structure Ignores (r : Relay) (interest : Interest) : Prop where
  lacks : r.store.Lacks interest
  unasked : ∀ e ∈ r.pending.entries, e.interest.asksSame interest = false

namespace Ignores

private theorem findSame_eq (h : r.Ignores interest) : r.pending.findSame interest = none := by
  rw [PendingTable.findSame, Option.map_eq_none_iff, List.find?_eq_none]
  intro e he
  simp [h.unasked e he]

private theorem of_tables (hlookup : r.store.lookup interest r.clock = none)
    (hnew : r.pending.findSame interest = none) : r.Ignores interest := by
  rw [PendingTable.findSame, Option.map_eq_none_iff, List.find?_eq_none] at hnew
  exact ⟨ContentStore.lacks_of_lookup hlookup, fun e he => Bool.eq_false_iff.mpr (hnew e he)⟩

private theorem perform (h : r.Ignores interest) (hop : op.IsUpkeep) : (r.perform op).Ignores interest := by
  refine ⟨lacks_perform hop h.lacks, fun e' he' => ?_⟩
  obtain ⟨e, he, heq⟩ := within_perform hop e' he'
  rw [← heq]
  exact h.unasked e he

/-- Upkeep brings neither data nor anybody who waits. -/
theorem performAll (h : r.Ignores interest) {ops : List Operation} (hops : ∀ op ∈ ops, op.IsUpkeep) :
    (r.performAll ops).Ignores interest := by
  induction ops generalizing r with
  | nil => exact h
  | cons op ops ih =>
    have hhead := h.perform (hops op List.mem_cons_self)
    exact ih hhead fun op hmem => hops op (List.mem_cons_of_mem _ hmem)

end Ignores

/-- A pending Interest is queued on the face of its route if there is room, and if nobody waits there or
the face reflects. -/
theorem fst_propagate_of_room {id : PendingId} {e : PendingEntry} (he : r.pending.get? id = some e)
    {route : Route} (hroute : r.routes.lookup e.interest.name = some route) {face : Face}
    (hface : r.faces.get? route.face = some face)
    (hback : route.face ∉ e.faces ∨ face.flags.reflect = true) (hroom : ¬ face.IsFull) :
    (r.propagate id).1 = some route.face := by
  have hgoes : (!(r.faces.get? route.face).any (·.flags.reflect) && e.faces.contains route.face) =
      false := by
    rw [hface]
    rcases hback with hother | hreflects
    · simp [hother]
    · simp [hreflects]
  have hqueued : (r.send route.face (.interest e.interest)).1 = true := by
    simp only [send, hface]
    rw [Face.fst_enqueue]
    exact congrArg not (decide_eq_false hroom)
  unfold propagate
  simp only [he, hroute, hgoes]
  rcases hsent : r.send route.face (.interest e.interest) with ⟨_ | _, r'⟩
  · rw [hsent] at hqueued
    cases hqueued
  · rfl

/-- An Interest of a face is queued on the face of its route if there is room, and if that is another one
or reflects. -/
theorem fst_sentOn_of_room (hr : r.pending.WellFormed) {route : Route}
    (hroute : r.routes.lookup interest.name = some route) {face : Face}
    (hface : r.faces.get? route.face = some face)
    (hback : route.face ≠ source ∨ face.flags.reflect = true) (hroom : ¬ face.IsFull) :
    (r.sentOn source interest).1 = some route.face := by
  have hget := (hr.insert interest (.face source) r.clock).get?_eq_some
    (List.mem_append_right _ List.mem_cons_self)
  refine fst_propagate_of_room hget hroute hface ?_ hroom
  exact hback.imp_left fun hother hmem => hother (List.mem_singleton.mp hmem)

/-- An Interest that a relay has neither data nor anybody waiting for goes out along its route. -/
theorem forwarded_of_ignores (h : r.Ignores interest) (hr : r.pending.WellFormed)
    (hsource : r.faces.contains source = true) {nonce : UInt32} (hnonce : interest.nonce = some nonce)
    (hforgotten : r.nonces.contains nonce = false) (hname : interest.name.flags.expression = false)
    {route : Route} (hroute : r.routes.lookup interest.name = some route) {face : Face}
    (hface : r.faces.get? route.face = some face)
    (hback : route.face ≠ source ∨ face.flags.reflect = true) (hroom : ¬ face.IsFull) :
    (r.handleInterest source interest).1 = .ok (.forwarded route.face) ∧
      ∀ x, (r.handleInterest source interest).2.faces.queue x =
        r.faces.queue x ++ if x = route.face then [.interest interest] else [] := by
  have htouched : ∃ face', (r.noted source nonce).faces.get? route.face = some face' ∧
      face'.flags = face.flags ∧ ¬ face'.IsFull := by
    have hget := r.faces.get?_touch source r.clock route.face
    rw [hface] at hget
    split at hget
    · next heq =>
      rw [← heq, hface] at hget
      exact ⟨{ face with lastUsed := r.clock }, heq ▸ hget, rfl, hroom⟩
    · exact ⟨face, hget, rfl, hroom⟩
  obtain ⟨face', hface', hflags, hroom'⟩ := htouched
  rw [← hflags] at hback
  have hsent := @fst_sentOn_of_room (r.noted source nonce) source interest hr route hroute face' hface'
    hback hroom'
  have hresolves := resolves_of_known hsource hnonce hforgotten hname
  generalize r.handleInterest source interest = result at hresolves ⊢
  obtain ⟨outcome, r'⟩ := result
  dsimp only at hresolves ⊢
  cases hresolves with
  | answered _ hlookup =>
    have hmiss := h.lacks.lookup_eq_none (Interest.asksSame_refl interest) r.clock
    exact absurd (hmiss.symm.trans hlookup) (by simp)
  | joined hsame => exact absurd (h.findSame_eq.symm.trans hsame) (by simp)
  | passed _ hsame => exact absurd (h.findSame_eq.symm.trans hsame) (by simp)
  | forwarded _ hforwarded =>
    obtain rfl := Option.some.inj (hsent.symm.trans hforwarded)
    refine ⟨rfl, fun x => ?_⟩
    rw [@queue_sentOn (r.noted source nonce) source interest hr _ hforwarded]
    congr 1
    exact r.faces.queue_touch source r.clock x
  | stranded _ _ _ hstranded => exact absurd (hsent.symm.trans hstranded) (by simp)

private theorem sentOn_eq (r : Relay) (source : FaceId) (interest : Interest) :
    ∃ faces stats, (r.sentOn source interest).2 =
      { r with faces, stats, pending := (r.pending.insert interest (.face source) r.clock).2 } := by
  obtain ⟨faces, stats, heq, -⟩ := propagate_eq
    { r with pending := (r.pending.insert interest (.face source) r.clock).2 }
    (r.pending.insert interest (.face source) r.clock).1
  exact ⟨faces, stats, heq⟩

/-- An Interest that is sent nowhere is on no queue. -/
theorem queue_sentOn_of_none (h : (r.sentOn source interest).1 = none) (x : FaceId) :
    (r.sentOn source interest).2.faces.queue x = r.faces.queue x := by
  have hqueue := queue_propagate
    { r with pending := (r.pending.insert interest (.face source) r.clock).2 }
    (r.pending.insert interest (.face source) r.clock).1 x
  rw [sentOn] at h
  rw [sentOn, hqueue, h]
  exact List.append_nil _

/-- An Interest that finds data is not dropped. -/
theorem lookup_eq_none_of_resolve {error : RelayError}
    (h : (r.resolve source interest).1 = .error error) : r.store.lookup interest r.clock = none := by
  cases hlookup : r.store.lookup interest r.clock with
  | none => rfl
  | some found =>
    rw [resolve, hlookup] at h
    dsimp only at h
    split at h
    · cases h
    · cases h

/-- Whether a relay has the same pending Interests, stored data, routes, suspended computations and packets
on queues as another one. -/
structure Keeps (r r' : Relay) : Prop where
  pending : r'.pending.entries = r.pending.entries
  store : r'.store = r.store
  routes : r'.routes = r.routes
  computations : r'.computations = r.computations
  queue : ∀ id, r'.faces.queue id = r.faces.queue id

/-- An Interest that is sent nowhere changes no table but that of the nonces, where its own is recorded.
It comes from a known face, its nonce is new, and there is neither data for it nor anybody who waits. -/
theorem keeps_of_noRoute (hr : r.pending.WellFormed) {nonce : UInt32}
    (hnonce : interest.nonce = some nonce) (hname : interest.name.flags.expression = false)
    {text : String} (h : r.handleInterest source interest = (.error (.noRoute text), r')) :
    r.Keeps r' ∧ r'.nonces = (r.nonces.record nonce r.clock).2 ∧ r.Ignores interest := by
  by_cases hsource : r.faces.contains source = true
  · by_cases hknown : r.nonces.contains nonce = true
    · rw [handleInterest_of_known hsource hnonce hknown] at h
      cases h
    · have hnew := Bool.eq_false_iff.mpr hknown
      have haccept : (r.interestReceived source).accept interest =
          (some interest, r.noted source nonce) := accept_of_new hnonce hnew
      have hresolves := resolves hname (r.noted source nonce) source
      rw [← handleInterest_of_accept hsource haccept, h] at hresolves
      have hlookup : (r.noted source nonce).store.lookup interest r.clock = none := by
        apply lookup_eq_none_of_resolve
        rw [← handleInterest_of_accept hsource haccept, h]
      dsimp only at hresolves
      cases hresolves with
      | stranded _ _ hunasked hsent =>
        have hignores : (r.noted source nonce).Ignores interest := .of_tables hlookup hunasked
        have hqueue (id : FaceId) : ((r.noted source nonce).sentOn source interest).2.faces.queue id =
            r.faces.queue id := by
          rw [queue_sentOn_of_none hsent]
          exact r.faces.queue_touch source r.clock id
        obtain ⟨faces, stats, heq⟩ := (r.noted source nonce).sentOn_eq source interest
        rw [heq] at hqueue
        rw [heq]
        exact ⟨⟨hr.entries_erase_insert interest (.face source) r.clock, rfl, rfl, rfl, hqueue⟩, rfl,
          hignores.lacks, hignores.unasked⟩
  · rw [handleInterest, if_neg hsource] at h
    cases h

/-- An Interest in no expression, with a nonce of its own, that is dropped because it can be sent nowhere
leaves pending Interests, stored data, routes, suspended computations and queues as they were. Its nonce
stays recorded, so that the same Interest is taken for one that has come back as long as the nonce is known:
at once, and after whatever upkeep there is, new routes included. If the nonce is forgotten by then, the
Interest goes out along its route, if there is one to a face with room that it did not come from or that
reflects. -/
theorem keeps_of_reachable (hr : r.Reachable) {nonce : UInt32} (hnonce : interest.nonce = some nonce)
    (hname : interest.name.flags.expression = false) {text : String}
    (h : r.handleInterest source interest = (.error (.noRoute text), r')) :
    r.Keeps r' ∧ r'.nonces.contains nonce = true ∧
      ∀ (ops : List Operation) (later : Relay), (∀ op ∈ ops, op.IsUpkeep) → later = r'.performAll ops →
        later.faces.contains source = true →
        (later.nonces.contains nonce = true →
          (later.handleInterest source interest).1 = .error (.duplicateNonce nonce)) ∧
        (later.nonces.contains nonce = false →
          ∀ route face, later.routes.lookup interest.name = some route →
            later.faces.get? route.face = some face →
            (route.face ≠ source ∨ face.flags.reflect = true) → ¬ face.IsFull →
            (later.handleInterest source interest).1 = .ok (.forwarded route.face) ∧
              ∀ x, (later.handleInterest source interest).2.faces.queue x =
                later.faces.queue x ++ if x = route.face then [.interest interest] else []) := by
  obtain ⟨hkeeps, hnonces, hignores⟩ :=
    keeps_of_noRoute (tidy_of_reachable hr).wellFormed hnonce hname h
  have hafter : r'.Ignores interest :=
    ⟨hkeeps.store ▸ hignores.lacks, hkeeps.pending ▸ hignores.unasked⟩
  have hreachable : r'.Reachable := by
    have hhandled := reachable_handleInterest hr source interest trivial
    rw [h] at hhandled
    exact hhandled
  refine ⟨hkeeps, hnonces ▸ r.nonces.contains_record nonce r.clock, ?_⟩
  rintro ops later hops rfl hsource
  refine ⟨fun hknown => congrArg Prod.fst (handleInterest_of_known hsource hnonce hknown), ?_⟩
  intro hforgotten route face hroute hface hback hroom
  have hlater : (r'.performAll ops).Reachable := hreachable.performAll fun _ _ => trivial
  exact forwarded_of_ignores (hafter.performAll hops) (tidy_of_reachable hlater).wellFormed hsource
    hnonce hforgotten hname hroute hface hback hroom

/-- A relay that keeps nonces for one tick drops an Interest that it has no route for. Two ticks later there
is a route, and the same Interest goes out along it. -/
theorem keeps_of_reachable_forgotten :
    ∃ (r₀ r r' later : Relay) (i : Interest),
      Relay.new { nonceTimeout := 1 } (.ofSeed 0) = .ok r₀ ∧
      i = (Interest.ofName (.ofComponents [[0x78]])).withNonce 7 ∧
      r = r₀.performAll [.faceForPeer 0 (.unix "a"), .faceForPeer 1 (.unix "b")] ∧
      r.handleInterest ⟨1⟩ i = (.error (.noRoute "/x"), r') ∧
      later = r'.performAll [.tick, .tick, .addRoute (.ofComponents []) ⟨2⟩ .ndn2013] ∧
      later.nonces.contains 7 = false ∧ r.Keeps r' ∧ r'.nonces.contains 7 = true ∧
      (later.handleInterest ⟨1⟩ i).1 = .ok (.forwarded ⟨2⟩) ∧
      (later.handleInterest ⟨1⟩ i).2.faces.queue ⟨2⟩ = [.interest i] := by
  have hagain {r r' later : Relay} {i : Interest} (hr : r.Reachable) (hnonce : i.nonce = some 7)
      (hname : i.name.flags.expression = false)
      (hdropped : r.handleInterest ⟨1⟩ i = (.error (.noRoute "/x"), r'))
      (hlater : later = r'.performAll [.tick, .tick, .addRoute (.ofComponents []) ⟨2⟩ .ndn2013])
      (hsource : later.faces.contains ⟨1⟩ = true) (hforgotten : later.nonces.contains 7 = false)
      {route : Route} (hroute : later.routes.lookup i.name = some route) (hto : route.face = ⟨2⟩)
      {face : Face} (hface : later.faces.get? ⟨2⟩ = some face) (hroom : ¬ face.IsFull)
      (hqueue : later.faces.queue ⟨2⟩ = []) :
      r.Keeps r' ∧ r'.nonces.contains 7 = true ∧
        (later.handleInterest ⟨1⟩ i).1 = .ok (.forwarded ⟨2⟩) ∧
        (later.handleInterest ⟨1⟩ i).2.faces.queue ⟨2⟩ = [.interest i] := by
    obtain ⟨hkeeps, hknown, hrest⟩ := keeps_of_reachable hr hnonce hname hdropped
    have hops : ∀ op ∈ [.tick, .tick, Operation.addRoute (.ofComponents []) ⟨2⟩ .ndn2013],
        op.IsUpkeep := by
      simp [Operation.IsUpkeep]
    obtain ⟨-, hsent⟩ := hrest _ later hops hlater hsource
    rw [← hto] at hface
    obtain ⟨houtcome, hqueued⟩ := hsent hforgotten route face hroute hface
      (.inl (by rw [hto]; decide)) hroom
    rw [hto] at houtcome hqueued
    refine ⟨hkeeps, hknown, houtcome, ?_⟩
    rw [hqueued, hqueue, if_pos rfl, List.nil_append]
  have hnew : Relay.new { nonceTimeout := 1 } (.ofSeed 0) = .ok _ := rfl
  refine ⟨_, _, _, _, _, hnew, rfl, rfl, rfl, rfl, ?_,
    hagain (.performAll (.new hnew) fun _ _ => trivial) rfl rfl rfl rfl rfl ?_ rfl rfl rfl ?_ rfl⟩
  · decide +kernel
  · decide +kernel
  · decide

/-- A relay has no route for an Interest and drops it. A route is added, but when the same Interest comes
again its nonce is known. -/
theorem recorded_after_noRoute :
    ∃ (r₀ r r' later : Relay) (i : Interest),
      Relay.new {} (.ofSeed 0) = .ok r₀ ∧
      i = (Interest.ofName (.ofComponents [[0x78]])).withNonce 7 ∧
      r = r₀.performAll [.faceForPeer 0 (.unix "a"), .faceForPeer 1 (.unix "b")] ∧
      r.handleInterest ⟨1⟩ i = (.error (.noRoute "/x"), r') ∧ r'.nonces.contains 7 = true ∧
      later = r'.perform (.addRoute (.ofComponents []) ⟨2⟩ .ndn2013) ∧
      (later.routes.lookup i.name).map (·.face) = some ⟨2⟩ ∧ later.faces.contains ⟨2⟩ = true ∧
      (later.handleInterest ⟨1⟩ i).1 = .error (.duplicateNonce 7) := by
  have hnew : Relay.new {} (.ofSeed 0) = .ok _ := rfl
  exact ⟨_, _, _, _, _, hnew, rfl, rfl, rfl, rfl, rfl, rfl, rfl, rfl⟩

end Relay

end NamedFunctions
