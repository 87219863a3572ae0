import NamedFunctions.Proofs.ContentStore.Refinement
import NamedFunctions.Proofs.Relay.FaceLifetime
import NamedFunctions.Proofs.Relay.Storage

/-!
# The content store of a relay, replayed

All that a run does to the content store is a list of changes, which can be made to a store with an index
just as well. There an entry has a number, under which it is found for as long as it is there.
-/

namespace NamedFunctions

namespace ContentStore

/-- Whether a change looks up data or puts it in, at some tick. -/
def Change.IsUseAt (now : Nat) : Change → Prop
  | .lookup _ tick => tick = now
  | .put _ _ tick => tick = now
  | _ => False

private theorem change_lookup_of_none {store : ContentStore} {interest : Interest} {now : Nat}
    (h : store.lookup interest now = none) : store.change (.lookup interest now) = store := by
  rw [change, h]
  rfl

end ContentStore

namespace Relay

open ContentStore (Change)

/-- By a computation that needs the data of a name: it looks up data as long as it finds some. -/
def advanceChanges (r : Relay) (c : Computation) (name : Name) : List Change :=
  .lookup (.ofName name) r.clock ::
    match r.store.lookup (.ofName name) r.clock with
    | none => []
    | some (content, store) =>
      match h : c.resume r.computations.stepLimit content.payload with
      | .ok (.suspended c' name') =>
        have := Computation.steps_of_resume_suspended h
        advanceChanges (r.fetched store) c' name'
      | .ok (.done ..) => []
      | .error _ => []
termination_by r.computations.stepLimit + 1 - c.machine.steps
decreasing_by
  simp only [fetched, computations_count]
  omega

/-- By a computation, from where its machine has stopped. -/
def settleChanges (r : Relay) : Except ComputationError Progress → List Change
  | .ok (.suspended c name) => r.advanceChanges c name
  | .ok (.done ..) => []
  | .error _ => []

/-- By a computation that is handed its data. -/
def resumeChanges (r : Relay) (id : ComputationId) (payload : Bytes) : List Change :=
  match r.computations.get? id with
  | none => []
  | some c =>
    { r with computations := r.computations.erase id }.settleChanges
      (c.resume r.computations.stepLimit payload)

/-- By what happens in a cascade, where all data that is delivered is the result of a computation. -/
def cascadeChanges (events : List Event) : List Change :=
  events.flatMap fun
    | .answer r _ interest _ => [.lookup interest r.clock]
    | .deliver r content => [.put content true r.clock]
    | .resume r id payload => r.resumeChanges id payload

/-- By the reduction of the expression in the name of an Interest. -/
def reductionChanges (r : Relay) (interest : Interest) : List Change :=
  (r.reductionStarted.beginComputation interest).2.settleChanges
      (r.reductionStarted.beginComputation interest).1 ++
    cascadeChanges (r.reductionJournal interest)

/-- By an Interest whose nonce is recorded. -/
def resolutionChanges (r : Relay) (source : FaceId) (interest : Interest) : List Change :=
  .lookup interest r.clock ::
    match r.store.lookup interest r.clock with
    | some _ => []
    | none =>
      match r.pending.findSame interest with
      | some _ => []
      | none =>
        if interest.name.flags.expression then
          (r.withInterest source interest).reductionChanges interest
        else []

/-- By an Interest that arrived on a face. -/
def interestChanges (r : Relay) (source : FaceId) (interest : Interest) : List Change :=
  if r.faces.contains source then
    match (r.interestReceived source).accept interest with
    | (some accepted, r) => r.resolutionChanges source accepted
    | (none, _) => []
  else []

/-- By data that arrived on a face: it is put in if somebody waits for it. -/
def contentChanges (r : Relay) (source : FaceId) (content : Content) : List Change :=
  match r.contentJournal source content with
  | [] => []
  | _ :: events => .put content false r.clock :: cascadeChanges events

/-- By a tick. -/
def tickChanges (r : Relay) : List Change :=
  .markExpired (r.clock + 1) r.config.tickDuration ::
    if r.config.contentTimeout > 0 then [.expireIdle (r.clock + 1) r.config.contentTimeout] else []

/-- By a command. -/
def commandChanges : Command → List Change
  | .markStale uri suite =>
    match Name.ofUri uri suite with
    | .ok name => [.markStale name]
    | .error _ => []
  | .flushCache => [.flush]
  | .setCacheCapacity entries => [.setCapacity entries]
  | _ => []

/-- By an operation, in the order in which it is done. -/
def changes (r : Relay) : Operation → List Change
  | .handleInterest source interest => r.interestChanges source interest
  | .handleContent source content => r.contentChanges source content
  | .cacheContent content isStatic => [.put content isStatic r.clock]
  | .tick => r.tickChanges
  | .apply command => commandChanges command
  | _ => []

/-- By some operations, the first of them first. -/
def changesAll (r : Relay) : List Operation → List Change
  | [] => []
  | op :: ops => r.changes op ++ (r.perform op).changesAll ops

/-- Whether a relay has come about from another one at the same tick, with its content store used as a list
says. -/
structure Replays (r r' : Relay) (changes : List Change) : Prop where
  store : r'.store = r.store.changeAll changes
  clock : r'.clock = r.clock
  uses : ∀ c ∈ changes, c.IsUseAt r.clock

namespace Replays

variable {r r' r'' : Relay} {changes changes' : List Change}

private theorem aside (hstore : r'.store = r.store) (hclock : r'.clock = r.clock) : Replays r r' [] :=
  ⟨hstore, hclock, List.forall_mem_nil _⟩

private theorem trans (h : Replays r r' changes) (h' : Replays r' r'' changes') :
    Replays r r'' (changes ++ changes') := by
  refine ⟨?_, h'.clock.trans h.clock, List.forall_mem_append.mpr ⟨h.uses, ?_⟩⟩
  · rw [h'.store, h.store, ContentStore.changeAll_append]
  · rw [← h.clock]
    exact h'.uses

private theorem after (h : Replays r' r'' changes) (hstore : r'.store = r.store)
    (hclock : r'.clock = r.clock) : Replays r r'' changes :=
  (aside hstore hclock).trans h

private theorem before (h : Replays r r' changes) (hstore : r''.store = r'.store)
    (hclock : r''.clock = r'.clock) : Replays r r'' changes := by
  rw [← List.append_nil changes]
  exact h.trans (aside hstore hclock)

private theorem single {c : Change} (hc : c.IsUseAt r.clock) (hstore : r'.store = r.store.change c)
    (hclock : r'.clock = r.clock) : Replays r r' [c] :=
  ⟨hstore, hclock, List.forall_mem_singleton.mpr hc⟩

end Replays

variable {r : Relay}

private theorem replays_fetched {interest : Interest} {content : Content} {store : ContentStore}
    (h : r.store.lookup interest r.clock = some (content, store)) :
    Replays r (r.fetched store) [.lookup interest r.clock] :=
  .single rfl (store_of_lookup h) rfl

private theorem replays_miss {interest : Interest} (h : r.store.lookup interest r.clock = none) :
    Replays r r [.lookup interest r.clock] :=
  .single rfl (ContentStore.change_lookup_of_none h).symm rfl

private theorem advanceChanges_of_miss (c : Computation) {name : Name}
    (h : r.store.lookup (.ofName name) r.clock = none) :
    r.advanceChanges c name = [.lookup (.ofName name) r.clock] := by
  rw [advanceChanges, h]

private theorem advanceChanges_of_hit (c : Computation) {name : Name} {content : Content}
    {store : ContentStore} (h : r.store.lookup (.ofName name) r.clock = some (content, store)) :
    r.advanceChanges c name =
      .lookup (.ofName name) r.clock ::
        (r.fetched store).settleChanges (c.resume r.computations.stepLimit content.payload) := by
  rw [advanceChanges, h]
  dsimp only
  split
  · next hresume =>
    rw [hresume]
    rfl
  · next hresume =>
    rw [hresume]
    rfl
  · next hresume =>
    rw [hresume]
    rfl

private theorem replays_settle (r : Relay) (progress : Except ComputationError Progress) :
    Replays r (r.settle progress).2 (r.settleChanges progress) := by
  obtain ⟨n, h⟩ := r.exists_advances progress
  have hclock := (r.refreshes_settle progress).clock
  generalize (r.settle progress).1 = outcome at h
  generalize (r.settle progress).2 = r' at h hclock
  induction h with
  | failed => exact .aside rfl rfl
  | finished => exact .aside rfl rfl
  | @awaits r c name hmiss =>
    rw [settleChanges, advanceChanges_of_miss c hmiss]
    exact (replays_miss hmiss).before (r.store_await c name) hclock
  | @fetches r _ c name content store _ _ hhit _ ih =>
    rw [settleChanges, advanceChanges_of_hit c hhit]
    exact (replays_fetched hhit).trans (ih hclock)

private theorem replays_carryOn (r : Relay) (progress : Except ComputationError Progress) :
    Replays r (r.carryOn progress).2 (r.settleChanges progress) := by
  rw [carryOn_eq]
  refine (r.replays_settle progress).before ?_ ?_
  · unfold countFailure
    split <;> rfl
  · unfold countFailure
    split <;> rfl

private theorem replays_resumeComputation (r : Relay) (id : ComputationId) (payload : Bytes) :
    Replays r (r.resumeComputation id payload).2 (r.resumeChanges id payload) := by
  unfold resumeChanges
  cases hc : r.computations.get? id with
  | none =>
    rw [resumeComputation_of_none hc]
    exact .aside rfl rfl
  | some c =>
    rw [resumeComputation_of_some hc]
    exact (replays_carryOn _ _).after rfl rfl

private theorem replays_cache (r : Relay) (content : Content) (isStatic : Bool) :
    Replays r (r.cache content isStatic) [.put content isStatic r.clock] := by
  obtain ⟨store, stats, hcache⟩ := r.cache_eq content isStatic
  exact .single rfl (r.store_cache content isStatic) (by rw [hcache])

/-- The result of a computation is put in before it is delivered. -/
theorem replays_announce (r : Relay) (origin : Interest) (result : Bytes) :
    Replays r (r.announce origin result).2
      [.put (resultContent origin result) true (r.withResult origin result).clock] := by
  have hcached := replays_cache
    (r.count fun s => { s with computationsCompleted := s.computationsCompleted + 1 })
    (resultContent origin result) true
  have hclock : (r.withResult origin result).clock = r.clock := hcached.clock
  have hserved : Replays
      (r.count fun s => { s with computationsCompleted := s.computationsCompleted + 1 })
      (r.announce origin result).2 [.put (resultContent origin result) true r.clock] :=
    hcached.before rfl rfl
  rw [hclock]
  exact hserved.after rfl rfl

private theorem replays_wake (r : Relay) (agenda : List (ComputationId × Bytes)) :
    Replays r (r.wake agenda) (cascadeChanges (r.cascade agenda)) := by
  fun_induction wake r agenda with
  | case1 r =>
    rw [cascade]
    exact .aside rfl rfl
  | case2 r id payload rest r' heq _ ih =>
    have hresumed := r.replays_resumeComputation id payload
    rw [heq] at hresumed
    rw [cascade_of_none rest heq]
    exact hresumed.trans ih
  | case3 r id payload rest origin result r' heq _ ih =>
    have hresumed := r.replays_resumeComputation id payload
    rw [heq] at hresumed
    rw [cascade_of_some rest heq]
    exact hresumed.trans ((r'.replays_announce origin result).trans ih)

private theorem replays_publish (r : Relay) (origin : Interest) (result : Bytes) :
    Replays r (r.publish origin result) (cascadeChanges (r.publication origin result)) :=
  (r.replays_announce origin result).trans (replays_wake _ _)

private theorem replays_startComputation (r : Relay) (interest : Interest) :
    Replays r (r.startComputation interest).2 (r.reductionChanges interest) := by
  have hbegun : (r.reductionStarted.beginComputation interest).2.store = r.store ∧
      (r.reductionStarted.beginComputation interest).2.clock = r.clock := by
    unfold beginComputation
    split <;> exact ⟨rfl, rfl⟩
  have hcarried := (replays_carryOn (r.reductionStarted.beginComputation interest).2
    (r.reductionStarted.beginComputation interest).1).after hbegun.1 hbegun.2
  rw [startComputation_eq, reductionChanges, reductionJournal_eq]
  rcases heq : (r.reductionStarted.beginComputation interest).2.carryOn
    (r.reductionStarted.beginComputation interest).1 with ⟨_ | settled, r'⟩
  · rw [heq] at hcarried
    exact hcarried.trans (.aside rfl rfl)
  · rw [heq] at hcarried
    cases settled with
    | finished origin result => exact hcarried.trans (r'.replays_publish origin result)
    | waiting id => exact hcarried.trans (.aside rfl rfl)

private theorem replays_resolve {source : FaceId} {interest accepted : Interest} {r' : Relay}
    (hsource : r.faces.contains source = true)
    (haccept : (r.interestReceived source).accept interest = (some accepted, r')) :
    Replays r' (r'.resolve source accepted).2 (r'.resolutionChanges source accepted) := by
  have hclock := (refreshes_resolve hsource haccept).clock
  unfold resolutionChanges
  cases hlookup : r'.store.lookup accepted r'.clock with
  | some found =>
    refine (replays_fetched hlookup).before ?_ hclock
    rw [snd_resolve_of_some hlookup]
    split
    · exact store_send _ _ _
    · exact store_send _ _ _
  | none =>
    have hmissed := replays_miss hlookup
    rw [resolve, hlookup] at hclock ⊢
    dsimp only at hclock ⊢
    cases hsame : r'.pending.findSame accepted with
    | some id =>
      rw [hsame] at hclock
      exact hmissed.before (store_aggregate _ _ _ _) hclock
    | none =>
      rw [hsame] at hclock
      dsimp only at hclock ⊢
      split
      · next hexpression =>
        exact hmissed.trans ((replays_startComputation _ accepted).after rfl rfl)
      · next hexpression =>
        rw [if_neg hexpression] at hclock
        exact hmissed.before (store_forward _ _ _) hclock

private theorem replays_handleInterest (r : Relay) (source : FaceId) (interest : Interest) :
    Replays r (r.handleInterest source interest).2 (r.interestChanges source interest) := by
  unfold interestChanges
  by_cases hsource : r.faces.contains source = true
  · rw [if_pos hsource]
    obtain ⟨nonces, nonceSource, heq⟩ := accept_eq (r.interestReceived source) interest
    rcases haccept : (r.interestReceived source).accept interest with ⟨_ | accepted, r'⟩
    · have hr' : r' = { r.interestReceived source with nonces, source := nonceSource } := by
        rw [← heq, haccept]
      rw [handleInterest_of_refused hsource haccept, hr']
      exact .aside rfl rfl
    · have hr' : r' = { r.interestReceived source with nonces, source := nonceSource } := by
        rw [← heq, haccept]
      have hresolved := replays_resolve hsource haccept
      rw [handleInterest_of_accept hsource haccept]
      exact hresolved.after (by rw [hr']; rfl) (by rw [hr']; rfl)
  · rw [if_neg hsource, handleInterest, if_neg hsource]
    exact .aside rfl rfl

private theorem replays_handleContent (r : Relay) (source : FaceId) (content : Content) :
    Replays r (r.handleContent source content).2 (r.contentChanges source content) := by
  unfold contentChanges contentJournal handleContent
  by_cases hsource : r.faces.contains source = true
  · rw [if_pos hsource, if_pos hsource]
    dsimp only
    rcases PendingTable.takeAnswered _ content with ⟨_ | ⟨e, entries⟩, pending⟩
    · exact .aside rfl rfl
    · have hcached : Replays r ({ r.contentReceived source with pending }.cache content false)
          [.put content false r.clock] := (replays_cache _ content false).after rfl rfl
      have hserved : Replays r
          (({ r.contentReceived source with pending }.cache content false).serve content
            (e :: entries)).2 [.put content false r.clock] := hcached.before rfl rfl
      exact hserved.trans (replays_wake _ _)
  · rw [if_neg hsource, if_neg hsource]
    exact .aside rfl rfl

private theorem store_removeFace (r : Relay) (id : FaceId) : (r.removeFace id).2.store = r.store :=
  removeFace_induction (motive := fun s => s.store = r.store) r id (fun _ => rfl) fun _ _ => rfl

private theorem store_removeFaces (r : Relay) (ids : List FaceId) : (r.removeFaces ids).store = r.store :=
  List.foldlRecOn (motive := fun s : Relay => s.store = r.store) _ _ rfl
    fun s hs id _ => (s.store_removeFace id).trans hs

private theorem store_sweepStore (sweep : Sweep) :
    (sweepStore sweep).2.store =
      sweep.2.store.changeAll
        (.markExpired sweep.2.clock sweep.2.config.tickDuration ::
          if sweep.2.config.contentTimeout > 0 then
            [.expireIdle sweep.2.clock sweep.2.config.contentTimeout]
          else []) := by
  unfold sweepStore
  dsimp only
  split <;> rfl

private theorem store_swept {r r' : Relay} {id : PendingId} (h : Swept r id r') : r'.store = r.store := by
  cases h <;> rfl

private theorem store_sweeps (ids : List PendingId) (sweep : Sweep) :
    (ids.foldl sweepPending sweep).2.store = sweep.2.store := by
  induction ids generalizing sweep with
  | nil => rfl
  | cons id ids ih => exact (ih _).trans (store_swept (swept sweep id))

/-- A tick ages the content store by the clock as it is then. -/
theorem store_tick (r : Relay) : r.tick.2.store = r.store.changeAll r.tickChanges := by
  have hfaces := foldl_sweepFace (r.faces.idle (r.clock + 1) r.config.faceTimeout)
    ({}, { r with clock := r.clock + 1 })
  have hstore := store_removeFaces { r with clock := r.clock + 1 }
    (r.faces.idle (r.clock + 1) r.config.faceTimeout)
  obtain ⟨hclock, hconfig⟩ := clock_removeFaces { r with clock := r.clock + 1 }
    (r.faces.idle (r.clock + 1) r.config.faceTimeout)
  calc r.tick.2.store
    _ = r.aged.2.store := store_sweeps r.aged.2.pending.ids r.aged
    _ = r.store.changeAll r.tickChanges := by
      rw [aged, store_sweepStore, hfaces, hstore, hclock, hconfig]
      rfl

private theorem store_withName (r : Relay) (uri : String) (suite : Suite)
    {act : Name → Except RelayError CommandReply × Relay}
    (hact : ∀ name, (act name).2.store = r.store) : (r.withName uri suite act).2.store = r.store :=
  withName_induction (motive := fun s => s.store = r.store) r uri suite rfl hact

private theorem store_apply (r : Relay) (command : Command) :
    (r.apply command).2.store = r.store.changeAll (commandChanges command) := by
  cases command with
  | removeFace face => exact r.store_removeFace face
  | addRoute uri face suite =>
    refine r.store_withName uri suite fun name => ?_
    obtain ⟨routes, hroute⟩ := r.addRoute_eq name face suite
    dsimp only
    rw [hroute]
  | removeRoute uri suite => exact r.store_withName uri suite fun _ => rfl
  | markStale uri suite =>
    rw [apply, withName, commandChanges]
    cases Name.ofUri uri suite <;> rfl
  | _ => rfl

/-- An operation leaves the content store as the list of what is done to it says. -/
theorem store_perform_eq (r : Relay) (op : Operation) :
    (r.perform op).store = r.store.changeAll (r.changes op) := by
  cases op with
  | removeFace face => exact r.store_removeFace face
  | addRoute name face suite =>
    obtain ⟨routes, hroute⟩ := r.addRoute_eq name face suite
    rw [perform, hroute]
    rfl
  | cacheContent content isStatic =>
    rw [perform, store_cacheContent]
    rfl
  | handleInterest source interest => exact (r.replays_handleInterest source interest).store
  | handleContent source content => exact (r.replays_handleContent source content).store
  | tick => exact r.store_tick
  | apply command => exact r.store_apply command
  | _ => rfl

/-- So does a run. -/
theorem store_performAll_eq (r : Relay) (ops : List Operation) :
    (r.performAll ops).store = r.store.changeAll (r.changesAll ops) := by
  induction ops generalizing r with
  | nil => rfl
  | cons op ops ih =>
    rw [changesAll, ContentStore.changeAll_append, ← store_perform_eq]
    exact ih _

private theorem changesAll_append (r : Relay) (ops ops' : List Operation) :
    r.changesAll (ops ++ ops') = r.changesAll ops ++ (r.performAll ops).changesAll ops' := by
  induction ops generalizing r with
  | nil => rfl
  | cons op ops ih =>
    rw [List.cons_append, changesAll, ih, changesAll, List.append_assoc]
    rfl

private theorem mem_tickChanges {c : Change} (h : c ∈ r.tickChanges) :
    c = .markExpired (r.clock + 1) r.config.tickDuration ∨
      c = .expireIdle (r.clock + 1) r.config.contentTimeout := by
  unfold tickChanges at h
  split at h
  · simpa using h
  · exact .inl (List.mem_singleton.mp h)

private theorem mem_commandChanges {command : Command} {c : Change} (h : c ∈ commandChanges command) :
    (∃ uri suite name, command = .markStale uri suite ∧ Name.ofUri uri suite = .ok name ∧
        c = .markStale name) ∨
      c = .flush ∨ ∃ entries, c = .setCapacity entries := by
  cases command with
  | markStale uri suite =>
    unfold commandChanges at h
    dsimp only at h
    split at h
    · next name hname => exact .inl ⟨uri, suite, name, rfl, hname, List.mem_singleton.mp h⟩
    · cases h
  | flushCache => exact .inr (.inl (List.mem_singleton.mp h))
  | setCacheCapacity entries => exact .inr (.inr ⟨entries, List.mem_singleton.mp h⟩)
  | _ => cases h

/-- Data is looked up and put in, unless by a tick or a command. -/
theorem mem_changes {op : Operation} {c : Change} (h : c ∈ r.changes op) :
    c.IsUseAt r.clock ∨ (op = .tick ∧ c ∈ r.tickChanges) ∨
      ∃ command, op = .apply command ∧ c ∈ commandChanges command := by
  cases op with
  | handleInterest source interest => exact .inl ((r.replays_handleInterest source interest).uses c h)
  | handleContent source content => exact .inl ((r.replays_handleContent source content).uses c h)
  | cacheContent content isStatic =>
    rw [List.mem_singleton.mp h]
    exact .inl rfl
  | tick => exact .inr (.inl ⟨rfl, h⟩)
  | apply command => exact .inr (.inr ⟨command, rfl, h⟩)
  | _ => cases h

/-- Data is put in at the tick at which that is done, and not by a tick itself or a command. -/
theorem of_put_mem_changes {op : Operation} {content : Content} {isStatic : Bool} {now : Nat}
    (h : .put content isStatic now ∈ r.changes op) :
    now = r.clock ∧ op ≠ .tick ∧ ∀ command, op ≠ .apply command := by
  rcases mem_changes h with huse | ⟨-, htick⟩ | ⟨command, -, hcommand⟩
  · refine ⟨huse, ?_, ?_⟩
    · rintro rfl
      rcases mem_tickChanges h with heq | heq <;> cases heq
    · rintro command rfl
      rcases mem_commandChanges h with ⟨_, _, _, _, _, heq⟩ | heq | ⟨_, heq⟩ <;> cases heq
  · rcases mem_tickChanges htick with heq | heq <;> cases heq
  · rcases mem_commandChanges hcommand with ⟨_, _, _, _, _, heq⟩ | heq | ⟨_, heq⟩ <;> cases heq

/-- Only a command lets the data of a name become stale. -/
theorem markStale_mem_changes_iff {op : Operation} {name : Name} :
    .markStale name ∈ r.changes op ↔
      ∃ uri suite, op = .apply (.markStale uri suite) ∧ Name.ofUri uri suite = .ok name := by
  constructor
  · intro h
    rcases mem_changes h with huse | ⟨-, htick⟩ | ⟨command, rfl, hcommand⟩
    · cases huse
    · rcases mem_tickChanges htick with heq | heq <;> cases heq
    · rcases mem_commandChanges hcommand with ⟨uri, suite, _, rfl, hname, heq⟩ | heq | ⟨_, heq⟩
      · cases heq
        exact ⟨uri, suite, rfl, hname⟩
      · cases heq
      · cases heq
  · rintro ⟨uri, suite, rfl, hname⟩
    rw [changes, commandChanges, hname]
    exact List.mem_singleton_self _

/-- Only a tick lets data become stale that is too old. -/
theorem markExpired_mem_changes_iff {op : Operation} {now : Nat} {tick : Duration} :
    .markExpired now tick ∈ r.changes op ↔
      op = .tick ∧ now = r.clock + 1 ∧ tick = r.config.tickDuration := by
  constructor
  · intro h
    rcases mem_changes h with huse | ⟨rfl, htick⟩ | ⟨command, -, hcommand⟩
    · cases huse
    · rcases mem_tickChanges htick with heq | heq
      · cases heq
        exact ⟨rfl, rfl, rfl⟩
      · cases heq
    · rcases mem_commandChanges hcommand with ⟨_, _, _, _, _, heq⟩ | heq | ⟨_, heq⟩ <;> cases heq
  · rintro ⟨rfl, rfl, rfl⟩
    exact List.mem_cons_self

/-- The content store with an index that comes about from an empty one as a run says. -/
def indexed (r : Relay) (ops : List Operation) : IndexedStore :=
  (IndexedStore.performAll { capacity := r.store.capacity } (r.changesAll ops)).2

/-- The store with an index that repeats what a relay does is well formed. -/
theorem wellFormed_indexed (r : Relay) (ops : List Operation) : (r.indexed ops).WellFormed :=
  (IndexedStore.refines_performAll (.empty _) _).2.2

/-- It stands for the content store of the relay after the run. -/
theorem toStore_indexed (h : r.store.entries = []) (ops : List Operation) :
    (r.indexed ops).toStore = (r.performAll ops).store := by
  have hempty : IndexedStore.toStore { capacity := r.store.capacity } = r.store := by
    rw [IndexedStore.toStore]
    exact congrArg (ContentStore.mk · _) h.symm
  rw [store_performAll_eq, indexed, (IndexedStore.refines_performAll (.empty _) _).2.1, hempty]

/-- One more operation is repeated in the store with an index. -/
theorem indexed_append (r : Relay) (ops : List Operation) (op : Operation) :
    r.indexed (ops ++ [op]) = ((r.indexed ops).performAll ((r.performAll ops).changes op)).2 := by
  rw [indexed, changesAll_append, IndexedStore.performAll_append, changesAll, changesAll,
    List.append_nil]
  rfl

end Relay

end NamedFunctions
