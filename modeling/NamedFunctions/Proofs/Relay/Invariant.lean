import NamedFunctions.Proofs.ContentStore.Change
import NamedFunctions.Proofs.Relay.Cascade
import NamedFunctions.Proofs.Relay.Upkeep

/-!
# Invariants of the content store and of suspended computations

These two tables change in few places: data is looked up, put in or aged, and computations begin, are
resumed or are discarded. What is kept there is kept by every operation through all its cascades, and
holds of the relay at each event on the way.
-/

namespace NamedFunctions.Relay

open ContentStore (Change)

/-- Whether a change of the content store can be due to the handling of a packet: data is looked up, or
put in because it is delivered. -/
def Handled (events : List Event) : Change → Prop
  | .lookup .. => True
  | .put content _ _ => ∃ s, .deliver s content ∈ events
  | _ => False

/-- Whether an operation may change the content store in some way. -/
def Alters (r : Relay) (op : Operation) : Change → Prop
  | .put content isStatic _ =>
    op = .cacheContent content isStatic ∨ ∃ s, .deliver s content ∈ r.journal op
  | .setCapacity entries => op = .apply (.setCacheCapacity entries)
  | _ => True

private theorem Handled.alters {r : Relay} {op : Operation} {c : Change} (h : Handled (r.journal op) c) :
    r.Alters op c := by
  cases c with
  | lookup => trivial
  | put => exact .inr h
  | _ => exact h.elim

private theorem Handled.mono {events events' : List Event} {c : Change} (h : Handled events c)
    (hsub : events ⊆ events') : Handled events' c := by
  cases c with
  | lookup => trivial
  | put =>
    obtain ⟨s, hmem⟩ := h
    exact ⟨s, hsub hmem⟩
  | _ => exact h.elim

/-- Whether what holds of a relay is kept wherever the content store changes in an allowed way, or the
suspended computations change. -/
structure Kept (allowed : Change → Prop) (motive : Relay → Prop) : Prop where
  /-- The other tables make no difference. -/
  aside : ∀ {s s' : Relay}, motive s → s'.store = s.store → s'.computations = s.computations →
    motive s'
  alter : ∀ {s : Relay} {c : Change}, motive s → allowed c →
    motive { s with store := s.store.change c }
  resume : ∀ {s : Relay} (id : ComputationId) (payload : Bytes), motive s →
    motive (s.resumeComputation id payload).2
  begin : ∀ {s : Relay} (interest : Interest), motive s →
    motive ((s.beginComputation interest).2.carryOn (s.beginComputation interest).1).2
  discard : ∀ {s : Relay} (keep : Computation → Bool), motive s →
    motive
      { s with
        computations := { s.computations with suspended := s.computations.suspended.filter keep } }

/-- Sending leaves the store. -/
@[simp] theorem store_send (r : Relay) (id : FaceId) (packet : Packet) :
    (r.send id packet).2.store = r.store := by
  unfold send
  split <;> rfl

/-- Sending an Interest on leaves the store. -/
theorem store_propagate (r : Relay) (id : PendingId) : (r.propagate id).2.store = r.store := by
  obtain ⟨faces, stats, hpropagate, -⟩ := r.propagate_eq id
  rw [hpropagate]

/-- Aggregating an Interest leaves the store. -/
theorem store_aggregate (r : Relay) (source : FaceId) (interest : Interest) (id : PendingId) :
    (r.aggregate source interest id).2.store = r.store := by
  rw [snd_aggregate]
  split
  · exact store_propagate _ _
  · rfl

/-- Forwarding an Interest leaves the store. -/
theorem store_forward (r : Relay) (source : FaceId) (interest : Interest) :
    (r.forward source interest).2.store = r.store := by
  rw [snd_forward]
  split
  · exact store_propagate _ _
  · exact store_propagate _ _

/-- Caching puts data into the store. -/
theorem store_cache (r : Relay) (content : Content) (isStatic : Bool) :
    (r.cache content isStatic).store = r.store.change (.put content isStatic r.clock) := by
  rw [cache, ContentStore.change]
  rcases r.store.put content isStatic r.clock with _ | ⟨_ | _ | _ | _, _⟩ <;> rfl

/-- Caching touches the store only. -/
theorem store_cacheContent (r : Relay) (content : Content) (isStatic : Bool) :
    (r.cacheContent content isStatic).2 =
      { r with store := r.store.change (.put content isStatic r.clock) } := by
  rw [cacheContent, ContentStore.change]
  cases r.store.put content isStatic r.clock <;> rfl

/-- Looking data up changes the store as a lookup does. -/
theorem store_of_lookup {store store' : ContentStore} {interest : Interest} {now : Nat}
    {content : Content} (h : store.lookup interest now = some (content, store')) :
    store' = store.change (.lookup interest now) := by
  rw [ContentStore.change, h]
  rfl

/-- Putting data in changes the store as a put does. -/
theorem store_of_put {store store' : ContentStore} {content : Content} {isStatic : Bool} {now : Nat}
    {outcome : PutOutcome} (h : store.put content isStatic now = some (outcome, store')) :
    store' = store.change (.put content isStatic now) := by
  rw [ContentStore.change, h]
  rfl

/-- A reduction sets off what the publication of its result does, if it has one. -/
theorem reductionJournal_eq (r : Relay) (interest : Interest) :
    r.reductionJournal interest =
      match (r.reductionStarted.beginComputation interest).2.carryOn
        (r.reductionStarted.beginComputation interest).1 with
      | (.ok (.finished origin result), r) => r.publication origin result
      | _ => [] := rfl

namespace Kept

section

variable {allowed allowed' : Change → Prop} {events : List Event} {motive : Relay → Prop}

private theorem mono (h : Kept allowed motive) (hsub : ∀ c, allowed' c → allowed c) : Kept allowed' motive :=
  { h with alter := fun hs hc => h.alter hs (hsub _ hc) }

private theorem subset {events' : List Event} (h : Kept (Handled events) motive) (hsub : events' ⊆ events) :
    Kept (Handled events') motive :=
  h.mono fun _ hc => hc.mono hsub

private theorem tail {event : Event} (h : Kept (Handled (event :: events)) motive) :
    Kept (Handled events) motive :=
  h.subset (List.subset_cons_self _ _)

private theorem fetched (h : Kept (Handled events) motive) {r : Relay} {interest : Interest}
    {content : Content} {store : ContentStore}
    (hlookup : r.store.lookup interest r.clock = some (content, store)) (hr : motive r) :
    motive (r.fetched store) := by
  rw [store_of_lookup hlookup]
  exact h.aside (h.alter hr (c := .lookup interest r.clock) trivial) rfl rfl

private theorem cache (h : Kept (Handled events) motive) {r t : Relay} {content : Content}
    (hmem : .deliver t content ∈ events) (isStatic : Bool) (hr : motive r) :
    motive (r.cache content isStatic) :=
  h.aside (h.alter hr (c := .put content isStatic r.clock) ⟨t, hmem⟩) (store_cache r content isStatic)
    (computations_cache r content isStatic)

/-- The result of a computation is put in before it is delivered. -/
theorem withResult (h : Kept (Handled events) motive) {r : Relay} {origin : Interest} {result : Bytes}
    (hmem : .deliver (r.withResult origin result) (resultContent origin result) ∈ events)
    (hr : motive r) : motive (r.withResult origin result) :=
  h.cache hmem true (h.aside hr rfl rfl)

/-- What holds once a result is cached holds once it is announced. -/
theorem announce (h : Kept (Handled events) motive) {r : Relay} {origin : Interest} {result : Bytes}
    (hr : motive (r.withResult origin result)) : motive (r.announce origin result).2 :=
  h.aside hr rfl rfl

/-- Through a cascade. -/
theorem wake {r : Relay} {agenda : List (ComputationId × Bytes)}
    (h : Kept (Handled (r.cascade agenda)) motive) (hr : motive r) :
    motive (r.wake agenda) ∧ ∀ event ∈ r.cascade agenda, motive event.before := by
  fun_induction Relay.wake r agenda with
  | case1 r =>
    rw [cascade]
    exact ⟨hr, List.forall_mem_nil _⟩
  | case2 r id payload rest r' heq _ ih =>
    have hresumed := h.resume id payload hr
    rw [heq] at hresumed
    rw [cascade_of_none rest heq] at h ⊢
    obtain ⟨hlast, hevents⟩ := ih h.tail hresumed
    exact ⟨hlast, List.forall_mem_cons.mpr ⟨hr, hevents⟩⟩
  | case3 r id payload rest origin result r' heq _ ih =>
    have hresumed := h.resume id payload hr
    rw [heq] at hresumed
    rw [cascade_of_some rest heq] at h ⊢
    have hresult := h.tail.withResult List.mem_cons_self hresumed
    obtain ⟨hlast, hevents⟩ := ih h.tail.tail (h.announce hresult)
    exact ⟨hlast, List.forall_mem_cons.mpr ⟨hr, List.forall_mem_cons.mpr ⟨hresult, hevents⟩⟩⟩

/-- While the result of a computation is delivered, and all that follows from it. -/
theorem publish {r : Relay} {origin : Interest} {result : Bytes}
    (h : Kept (Handled (r.publication origin result)) motive) (hr : motive r) :
    motive (r.publish origin result) ∧
      ∀ event ∈ r.publication origin result, motive event.before := by
  have hresult := h.withResult List.mem_cons_self hr
  obtain ⟨hlast, hevents⟩ := h.tail.wake (h.announce hresult)
  exact ⟨hlast, List.forall_mem_cons.mpr ⟨hresult, hevents⟩⟩

private theorem startComputation {r : Relay} {interest : Interest}
    (h : Kept (Handled (r.reductionJournal interest)) motive) (hr : motive r) :
    motive (r.startComputation interest).2 ∧
      ∀ event ∈ r.reductionJournal interest, motive event.before := by
  have hbegun : motive ((r.reductionStarted.beginComputation interest).2.carryOn
      (r.reductionStarted.beginComputation interest).1).2 := h.begin interest (h.aside hr rfl rfl)
  rw [reductionJournal_eq] at h ⊢
  rw [startComputation_eq]
  rcases heq : (r.reductionStarted.beginComputation interest).2.carryOn
    (r.reductionStarted.beginComputation interest).1 with ⟨_ | settled, r'⟩
  · rw [heq] at hbegun
    exact ⟨hbegun, List.forall_mem_nil _⟩
  · rw [heq] at h hbegun
    cases settled with
    | finished origin result => exact h.publish hbegun
    | waiting id => exact ⟨hbegun, List.forall_mem_nil _⟩

private theorem resolve {r : Relay} {source : FaceId} {interest : Interest}
    (h : Kept (Handled (r.resolutionJournal source interest)) motive) (hr : motive r) :
    motive (r.resolve source interest).2 ∧
      ∀ event ∈ r.resolutionJournal source interest, motive event.before := by
  unfold resolutionJournal at h ⊢
  cases hlookup : r.store.lookup interest r.clock with
  | some found =>
    obtain ⟨content, store⟩ := found
    have hsent : motive ((r.fetched store).send source (.content content)).2 :=
      h.aside (h.fetched hlookup hr) (store_send _ _ _) (computations_send _ _ _)
    refine ⟨?_, List.forall_mem_singleton.mpr hr⟩
    rw [snd_resolve_of_some hlookup]
    split
    · exact h.aside hsent rfl rfl
    · exact hsent
  | none =>
    rw [hlookup] at h
    rw [Relay.resolve, hlookup]
    cases hsame : r.pending.findSame interest with
    | some id =>
      exact ⟨h.aside hr (store_aggregate _ _ _ _) (computations_aggregate _ _ _ _),
        List.forall_mem_nil _⟩
    | none =>
      rw [hsame] at h
      dsimp only at h ⊢
      split
      · next hexpression =>
        rw [if_pos hexpression] at h
        exact h.startComputation (h.aside hr rfl rfl)
      · exact ⟨h.aside hr (store_forward _ _ _) (computations_forward _ _ _),
          List.forall_mem_nil _⟩

private theorem handleInterest {r : Relay} {source : FaceId} {interest : Interest}
    (h : Kept (Handled (r.interestJournal source interest)) motive) (hr : motive r) :
    motive (r.handleInterest source interest).2 ∧
      ∀ event ∈ r.interestJournal source interest, motive event.before := by
  unfold interestJournal at h ⊢
  unfold Relay.handleInterest
  split
  · next hsource =>
    rw [if_pos hsource] at h
    have haccepted : motive ((r.interestReceived source).accept interest).2 := by
      obtain ⟨nonces, nonceSource, haccept⟩ := (r.interestReceived source).accept_eq interest
      rw [haccept]
      exact h.aside hr rfl rfl
    dsimp only [interestReceived] at h haccepted ⊢
    rcases heq : accept _ interest with ⟨_ | interest', r'⟩
    · rw [heq] at haccepted
      exact ⟨h.aside haccepted rfl rfl, List.forall_mem_nil _⟩
    · rw [heq] at h haccepted
      exact h.resolve haccepted
  · exact ⟨hr, List.forall_mem_nil _⟩

private theorem handleContent {r : Relay} {source : FaceId} {content : Content}
    (h : Kept (Handled (r.contentJournal source content)) motive) (hr : motive r) :
    motive (r.handleContent source content).2 ∧
      ∀ event ∈ r.contentJournal source content, motive event.before := by
  unfold contentJournal at h ⊢
  unfold Relay.handleContent
  split
  · next hsource =>
    rw [if_pos hsource] at h
    have hreceived : motive (r.contentReceived source) := h.aside hr rfl rfl
    dsimp only [contentReceived] at h hreceived ⊢
    rcases heq : PendingTable.takeAnswered _ content with ⟨_ | ⟨e, entries⟩, pending⟩
    · exact ⟨h.aside hreceived rfl rfl, List.forall_mem_nil _⟩
    · rw [heq] at h
      dsimp only at h ⊢
      have hcached : motive ({ r.contentReceived source with pending }.cache content false) :=
        h.cache List.mem_cons_self false (h.aside hreceived rfl rfl)
      obtain ⟨hlast, hevents⟩ := h.tail.wake (h.aside hcached rfl rfl)
      exact ⟨hlast, List.forall_mem_cons.mpr ⟨hreceived, hevents⟩⟩
  · exact ⟨hr, List.forall_mem_nil _⟩

private theorem removeFace (h : Kept allowed motive) {r : Relay} (hr : motive r) (id : FaceId) :
    motive (r.removeFace id).2 :=
  removeFace_induction r id (fun _ => hr) fun _ _ => h.aside hr rfl rfl

private theorem swept (h : Kept allowed motive) {r r' : Relay} (hr : motive r) {id : PendingId}
    (hswept : Swept r id r') : motive r' := by
  cases hswept with
  | missing => exact hr
  | @expired e =>
    have hdiscarded := h.discard (fun c => c.id ∉ e.computations) hr
    exact h.aside hdiscarded rfl rfl
  | retried => exact h.aside hr rfl rfl

private theorem sweepFaces (h : Kept allowed motive) (ids : List FaceId) {sweep : Sweep}
    (hr : motive sweep.2) : motive (ids.foldl sweepFace sweep).2 := by
  induction ids generalizing sweep with
  | nil => exact hr
  | cons id ids ih =>
    apply ih
    have hremoved := h.removeFace hr id
    unfold sweepFace
    dsimp only
    split
    · next heq =>
      rw [heq] at hremoved
      exact hremoved
    · next heq =>
      rw [heq] at hremoved
      exact hremoved

private theorem sweeps (h : Kept allowed motive) (ids : List PendingId) {sweep : Sweep}
    (hr : motive sweep.2) : motive (ids.foldl sweepPending sweep).2 := by
  induction ids generalizing sweep with
  | nil => exact hr
  | cons id ids ih => exact ih (h.swept hr (Relay.swept sweep id))

/-- A tick lets data become stale and removes data that was idle for too long. -/
theorem sweepStore (h : Kept allowed motive) (hexpired : ∀ now tick, allowed (.markExpired now tick))
    (hidle : ∀ now timeout, allowed (.expireIdle now timeout)) {sweep : Sweep} (hr : motive sweep.2) :
    motive (Relay.sweepStore sweep).2 := by
  have hstale := h.alter hr (hexpired sweep.2.clock sweep.2.config.tickDuration)
  unfold Relay.sweepStore
  dsimp only
  split
  · exact h.alter hstale (hidle sweep.2.clock sweep.2.config.contentTimeout)
  · exact hstale

end

variable {motive : Relay → Prop} {r : Relay}

private theorem apply {command : Command} (h : Kept (r.Alters (.apply command)) motive) (hr : motive r) :
    motive (r.apply command).2 := by
  cases command with
  | addFace interface peer flags => exact h.aside hr rfl rfl
  | removeFace face => exact h.removeFace hr face
  | addRoute uri face suite =>
    refine withName_induction (motive := motive) r uri suite hr fun name => ?_
    obtain ⟨routes, hroute⟩ := r.addRoute_eq name face suite
    dsimp only
    rw [hroute]
    exact h.aside hr rfl rfl
  | removeRoute uri suite =>
    exact withName_induction (motive := motive) r uri suite hr fun _ => h.aside hr rfl rfl
  | markStale uri suite =>
    exact withName_induction (motive := motive) r uri suite hr
      fun name => h.alter hr (c := .markStale name) trivial
  | flushCache => exact h.alter hr (c := .flush) trivial
  | setCacheCapacity entries =>
    exact h.aside (h.alter hr (c := .setCapacity entries) rfl) rfl rfl

/-- What is kept wherever an operation may change the two tables holds after it, and at each event on the
way. -/
theorem perform {op : Operation} (h : Kept (r.Alters op) motive) (hr : motive r) :
    motive (r.perform op) ∧ ∀ event ∈ r.journal op, motive event.before := by
  have hhandled : Kept (Handled (r.journal op)) motive := h.mono fun _ => Handled.alters
  cases op with
  | handleInterest source interest => exact hhandled.handleInterest hr
  | handleContent source content => exact hhandled.handleContent hr
  | faceForPeer => exact ⟨h.aside hr rfl rfl, List.forall_mem_nil _⟩
  | addStaticFace => exact ⟨h.aside hr rfl rfl, List.forall_mem_nil _⟩
  | removeFace face => exact ⟨h.removeFace hr face, List.forall_mem_nil _⟩
  | addRoute name face suite =>
    obtain ⟨routes, hroute⟩ := r.addRoute_eq name face suite
    refine ⟨?_, List.forall_mem_nil _⟩
    rw [Relay.perform, hroute]
    exact h.aside hr rfl rfl
  | cacheContent content isStatic =>
    refine ⟨?_, List.forall_mem_nil _⟩
    rw [Relay.perform, store_cacheContent]
    exact h.alter hr (.inl rfl)
  | drainReady => exact ⟨h.aside hr rfl rfl, List.forall_mem_nil _⟩
  | tick =>
    refine ⟨?_, List.forall_mem_nil _⟩
    have hclock : motive { r with clock := r.clock + 1 } := h.aside hr rfl rfl
    have hfaces := @sweepFaces _ _ h (r.faces.idle (r.clock + 1) r.config.faceTimeout)
      ({}, { r with clock := r.clock + 1 }) hclock
    have hstore := h.sweepStore (fun _ _ => trivial) (fun _ _ => trivial) hfaces
    exact h.aside (h.sweeps r.aged.2.pending.ids hstore) rfl rfl
  | apply command => exact ⟨h.apply hr, List.forall_mem_nil _⟩

end Kept

end NamedFunctions.Relay
