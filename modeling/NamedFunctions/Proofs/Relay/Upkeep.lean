import NamedFunctions.Proofs.Relay.Course
import NamedFunctions.Relay.Management

/-!
# Operations besides the handling of packets

Faces come and go, pending Interests run out, and the tables besides are kept in order. Every operation
is the course of a packet, leaves pending Interests and computations alone, removes a face, or is a
tick; what a tick does is put together from the latter.
-/

namespace NamedFunctions.Relay

/-- Forgetting an entry discards its computations. -/
theorem forget_computations (r : Relay) (e : PendingEntry) :
    ((r.forget e).1, (r.forget e).2.computations) =
      e.computations.foldl ComputationTable.discardCounting (0, r.computations) := rfl

/-- A pending Interest that goes away takes the computations along that wait for it. -/
theorem forget_eq (r : Relay) (e : PendingEntry) :
    ∃ nonces, (r.forget e).2 =
      { r with
        nonces
        computations :=
          { r.computations with
            suspended := r.computations.suspended.filter (·.id ∉ e.computations) } } := by
  refine ⟨e.nonces.foldl NonceTable.erase r.nonces, ?_⟩
  have hcomputations := congrArg Prod.snd (r.forget_computations e)
  rw [ComputationTable.suspended_foldl_discardCounting] at hcomputations
  dsimp only at hcomputations
  rw [← hcomputations]
  rfl

/-- Pending Interests for which no computation waits take none along. -/
theorem forgetAll_eq (r : Relay) {entries : List PendingEntry}
    (h : ∀ e ∈ entries, e.computations = []) :
    ∃ nonces, (r.forgetAll entries).2 = { r with nonces } := by
  induction entries generalizing r with
  | nil => exact ⟨r.nonces, rfl⟩
  | cons e entries ih =>
    obtain ⟨nonces, hforget⟩ := r.forget_eq e
    rw [h e List.mem_cons_self] at hforget
    obtain ⟨nonces', hrest⟩ := ih (r.forget e).2 fun e he => h e (List.mem_cons_of_mem _ he)
    refine ⟨nonces', ?_⟩
    change ((r.forget e).2.forgetAll entries).2 = _
    rw [hrest, hforget]
    simp

/-- A face that is removed takes its routes and requests along, but no computations. -/
theorem removeFace_eq (r : Relay) {id : FaceId} (h : r.faces.contains id = true) :
    ∃ nonces, (r.removeFace id).2 =
      { r with
        nonces
        faces := r.faces.erase id
        routes := r.routes.eraseFace id
        pending := (r.pending.dropRequester (.face id)).2 } := by
  have hemptied : ∀ e ∈ (r.pending.dropRequester (.face id)).1, e.computations = [] := by
    intro e he
    exact PendingEntry.computations_eq_nil (List.mem_filter.mp he).2
  obtain ⟨nonces, hforget⟩ := forgetAll_eq
    { r with
      faces := r.faces.erase id
      routes := r.routes.eraseFace id
      pending := (r.pending.dropRequester (.face id)).2 }
    hemptied
  refine ⟨nonces, ?_⟩
  rw [removeFace, if_pos h]
  exact hforget

/-- What holds of a relay without a face holds after the face is removed, and so does what held before
if there is no such face. -/
theorem removeFace_induction {motive : Relay → Prop} (r : Relay) (id : FaceId)
    (hmissing : ¬ r.faces.contains id = true → motive r)
    (hremoved : ∀ routes nonces,
      motive
        { r with
          routes, nonces
          faces := r.faces.erase id
          pending := (r.pending.dropRequester (.face id)).2 }) : motive (r.removeFace id).2 := by
  by_cases h : r.faces.contains id = true
  · obtain ⟨nonces, hremove⟩ := r.removeFace_eq h
    rw [hremove]
    exact hremoved _ nonces
  · rw [removeFace, if_neg h]
    exact hmissing h

/-- Removing a face leaves the clock and the settings. -/
theorem clock_removeFace (r : Relay) (id : FaceId) :
    (r.removeFace id).2.clock = r.clock ∧ (r.removeFace id).2.config = r.config :=
  removeFace_induction (motive := fun s => s.clock = r.clock ∧ s.config = r.config) r id
    (fun _ => ⟨rfl, rfl⟩) fun _ _ => ⟨rfl, rfl⟩

/-- What a tick does about the pending Interest with a number. -/
inductive Swept (r : Relay) (id : PendingId) : Relay → Prop where
  | missing (hnone : r.pending.get? id = none) : Swept r id r
  /-- It has run out, and goes away with the computations that wait for it. -/
  | expired {e : PendingEntry} (he : r.pending.get? id = some e) (hout : r.hasRunOut e = true)
      (nonces : NonceTable) :
      Swept r id
        { r with
          nonces
          pending := r.pending.erase id
          computations :=
            { r.computations with
              suspended := r.computations.suspended.filter (·.id ∉ e.computations) } }
  /-- It is sent again. -/
  | retried {e : PendingEntry} (he : r.pending.get? id = some e) (hout : ¬ r.hasRunOut e = true)
      {faces : FaceTable} (stats : RelayStats) (hquiet : r.faces.Quiet faces) :
      Swept r id
        { r with
          faces, stats
          pending := r.pending.modify id fun e => { e with retries := e.retries + 1 } }

/-- A sweep does one of these things to an entry. -/
theorem swept (sweep : Sweep) (id : PendingId) : Swept sweep.2 id (sweepPending sweep id).2 := by
  obtain ⟨report, r⟩ := sweep
  unfold sweepPending
  dsimp only
  split
  · next hnone => exact .missing hnone
  · next e he =>
    split
    · next hout =>
      obtain ⟨nonces, hforget⟩ := forget_eq { r with pending := r.pending.erase id } e
      rw [hforget]
      exact .expired he hout nonces
    · next hout =>
      obtain ⟨faces, stats, hpropagate, hquiet⟩ := propagate_eq
        { r with pending := r.pending.modify id fun e => { e with retries := e.retries + 1 } } id
      split
      · next heq =>
        rw [heq] at hpropagate
        obtain rfl := hpropagate
        exact .retried he hout stats hquiet
      · next heq =>
        rw [heq] at hpropagate
        obtain rfl := hpropagate
        exact .retried he hout stats hquiet

/-- The relay without some faces, which are removed in turn. -/
def removeFaces (r : Relay) (ids : List FaceId) : Relay :=
  ids.foldl (fun r id => (r.removeFace id).2) r

/-- Sweeping faces removes them. -/
theorem foldl_sweepFace (ids : List FaceId) (sweep : Sweep) :
    (ids.foldl sweepFace sweep).2 = sweep.2.removeFaces ids := by
  induction ids generalizing sweep with
  | nil => rfl
  | cons id ids ih =>
    have hhead : (sweepFace sweep id).2 = (sweep.2.removeFace id).2 := by
      unfold sweepFace
      dsimp only
      split
      · next heq => rw [heq]
      · next heq => rw [heq]
    rw [List.foldl_cons, ih, hhead]
    rfl

/-- What a tick has done when it comes to the pending Interests. -/
def aged (r : Relay) : Sweep :=
  sweepStore ((r.faces.idle (r.clock + 1) r.config.faceTimeout).foldl sweepFace
    ({}, { r with clock := r.clock + 1 }))

/-- The clock has gone on, and the faces that were idle for too long are gone. -/
theorem aged_eq (r : Relay) :
    ∃ store, r.aged.2 =
      { ({ r with clock := r.clock + 1 }.removeFaces
          (r.faces.idle (r.clock + 1) r.config.faceTimeout)) with store } := by
  have hfaces := foldl_sweepFace (r.faces.idle (r.clock + 1) r.config.faceTimeout)
    ({}, { r with clock := r.clock + 1 })
  rw [← hfaces]
  exact ⟨_, rfl⟩

/-- A tick lets the clock go on, removes the faces that were idle for too long, goes through the
pending Interests that are left, and ages the other tables besides. -/
theorem tick_eq (r : Relay) :
    ∃ (store : ContentStore) (sweep : Sweep) (nonces : NonceTable),
      sweep.2 =
        { ({ r with clock := r.clock + 1 }.removeFaces
            (r.faces.idle (r.clock + 1) r.config.faceTimeout)) with store } ∧
      r.tick.2 = { (sweep.2.pending.ids.foldl sweepPending sweep).2 with nonces } := by
  obtain ⟨store, haged⟩ := r.aged_eq
  exact ⟨store, r.aged, _, haged, rfl⟩

/-- What holds of a relay with a later clock, and is kept when faces are removed, holds when a tick comes
to the pending Interests. -/
theorem aged_induction {motive : Relay → Prop} (r : Relay)
    (hclock : motive { r with clock := r.clock + 1 })
    (hremove : ∀ s id, motive s → motive (s.removeFace id).2)
    (haside : ∀ s store, motive s → motive { s with store }) : motive r.aged.2 := by
  have hremoves (ids : List FaceId) (s : Relay) (hs : motive s) : motive (s.removeFaces ids) := by
    induction ids generalizing s with
    | nil => exact hs
    | cons id ids ih => exact ih _ (hremove s id hs)
  obtain ⟨store, haged⟩ := r.aged_eq
  rw [haged]
  exact haside _ store (hremoves _ _ hclock)

/-- The clock of an aged relay is one further. -/
theorem clock_aged (r : Relay) : r.aged.2.clock = r.clock + 1 :=
  aged_induction (motive := fun s => s.clock = r.clock + 1) r rfl
    (fun s id hs => (s.clock_removeFace id).1.trans hs) fun _ _ hs => hs

/-- What holds of a relay with a later clock, and is kept when faces are removed and pending Interests
swept, holds after a tick. -/
theorem tick_induction {motive : Relay → Prop} (r : Relay)
    (hclock : motive { r with clock := r.clock + 1 })
    (hremove : ∀ s id, motive s → motive (s.removeFace id).2)
    (hswept : ∀ s id s', motive s → Swept s id s' → motive s')
    (haside : ∀ s store nonces, motive s → motive { s with store, nonces }) : motive r.tick.2 := by
  have hsweeps (ids : List PendingId) (sweep : Sweep) (hs : motive sweep.2) :
      motive (ids.foldl sweepPending sweep).2 := by
    induction ids generalizing sweep with
    | nil => exact hs
    | cons id ids ih => exact ih _ (hswept _ id _ hs (swept sweep id))
  have haged : motive r.aged.2 :=
    r.aged_induction hclock hremove fun s store hs => haside s store s.nonces hs
  exact haside _ _ _ (hsweeps r.aged.2.pending.ids r.aged haged)

/-- What an operation comes to. -/
inductive Effect (r : Relay) : Operation → Relay → Prop where
  /-- It runs its course. -/
  | course {op : Operation} {r' : Relay} (hcourse : Course r [] (r.journal op) r' []) : Effect r op r'
  /-- It is about faces, but removes none. -/
  | faces {op : Operation} {faces : FaceTable} (hjournal : r.journal op = [])
      (heased : r.faces.Eased faces)
      (hmark : op.IsUnmarked → r.faces.Unmarked → faces.Unmarked) :
      Effect r op { r with faces }
  /-- It removes a face. -/
  | removal {op : Operation} (id : FaceId) (hjournal : r.journal op = []) (hop : op.removed? = some id) :
      Effect r op (r.removeFace id).2
  | tick : Effect r .tick r.tick.2

/-- Tables besides the faces, the pending Interests and the computations make no difference. -/
theorem Effect.aside {r r' : Relay} {op : Operation} (hjournal : r.journal op = [])
    (hpending : r'.pending = r.pending) (hcomputations : r'.computations = r.computations)
    (hfaces : r'.faces = r.faces) : Effect r op r' := by
  apply Effect.course
  rw [hjournal]
  exact .aside hpending hcomputations (hfaces ▸ .refl _)

/-- Adding a route touches the routes only. -/
theorem addRoute_eq (r : Relay) (name : Name) (face : FaceId) (suite : Suite) :
    ∃ routes, (r.addRoute name face suite).2 = { r with routes } := by
  unfold addRoute
  split
  · exact ⟨_, rfl⟩
  · exact ⟨r.routes, rfl⟩

/-- Caching touches the store only. -/
theorem cacheContent_eq (r : Relay) (content : Content) (isStatic : Bool) :
    ∃ store, (r.cacheContent content isStatic).2 = { r with store } := by
  unfold cacheContent
  split
  · exact ⟨_, rfl⟩
  · exact ⟨r.store, rfl⟩

/-- What needs a name is done with it, or not at all. -/
theorem withName_induction {motive : Relay → Prop} (r : Relay) (uri : String) (suite : Suite)
    {act : Name → Except RelayError CommandReply × Relay} (hr : motive r)
    (hact : ∀ name, motive (act name).2) : motive (r.withName uri suite act).2 := by
  unfold withName
  split
  · exact hact _
  · exact hr

/-- What a command comes to. -/
inductive Manages (r : Relay) : Command → Relay → Prop where
  /-- It adds a face that is there for good. -/
  | added (interface : Nat) (peer : Peer) (flags : FaceFlags) :
      Manages r (.addFace interface peer flags) (r.addStaticFace interface peer flags).2
  | removed (id : FaceId) : Manages r (.removeFace id) (r.removeFace id).2
  /-- It is about routes or the store, and touches neither faces nor pending Interests. -/
  | aside {command : Command} (hremoved : (Operation.apply command).removed? = none) (routes : RouteTable)
      (store : ContentStore) (maxCacheEntries : Option Nat) :
      Manages r command { r with routes, store, config := { r.config with maxCacheEntries } }

/-- Every command comes to one of these. -/
theorem manages (r : Relay) (command : Command) : Manages r command (r.apply command).2 := by
  have hrouted {command : Command} (hremoved : (Operation.apply command).removed? = none)
      (routes : RouteTable) : Manages r command { r with routes } :=
    .aside hremoved routes r.store r.config.maxCacheEntries
  have hstored {command : Command} (hremoved : (Operation.apply command).removed? = none)
      (store : ContentStore) : Manages r command { r with store } :=
    .aside hremoved r.routes store r.config.maxCacheEntries
  cases command with
  | addFace interface peer flags => exact .added interface peer flags
  | removeFace id => exact .removed id
  | addRoute uri face suite =>
    refine withName_induction (motive := Manages r _) r uri suite (hrouted rfl r.routes) fun name => ?_
    obtain ⟨routes, hroute⟩ := r.addRoute_eq name face suite
    dsimp only
    rw [hroute]
    exact hrouted rfl routes
  | removeRoute uri suite =>
    exact withName_induction (motive := Manages r _) r uri suite (hrouted rfl r.routes)
      fun name => hrouted rfl _
  | markStale uri suite =>
    exact withName_induction (motive := Manages r _) r uri suite (hrouted rfl r.routes)
      fun name => hstored rfl _
  | flushCache => exact hstored rfl _
  | setCacheCapacity entries => exact .aside rfl r.routes _ entries

/-- Every operation comes to one of these. -/
theorem effect (r : Relay) (op : Operation) : Effect r op (r.perform op) := by
  have hadded {op : Operation} (hjournal : r.journal op = []) (interface : Nat) (peer : Peer)
      (flags : FaceFlags) (hflags : op.IsUnmarked → flags.served = false) :
      Effect r op (r.addStaticFace interface peer flags).2 :=
    .faces hjournal (r.faces.eased_create interface peer { flags with isStatic := true } r.clock)
      fun hop hm => FaceTable.unmarked_create hm interface peer { flags with isStatic := true } (hflags hop)
        r.clock
  cases op with
  | faceForPeer interface peer =>
    exact .faces rfl (r.faces.eased_getOrCreate interface peer r.clock) fun _ hm =>
      FaceTable.unmarked_getOrCreate hm interface peer r.clock
  | addStaticFace interface peer flags => exact hadded rfl interface peer flags id
  | removeFace face => exact .removal face rfl rfl
  | addRoute name face suite =>
    obtain ⟨routes, hroute⟩ := r.addRoute_eq name face suite
    rw [perform, hroute]
    exact .aside rfl rfl rfl rfl
  | cacheContent content isStatic =>
    obtain ⟨store, hstore⟩ := r.cacheContent_eq content isStatic
    rw [perform, hstore]
    exact .aside rfl rfl rfl rfl
  | drainReady now =>
    exact .faces rfl (r.faces.eased_popReady now) fun _ hm => FaceTable.unmarked_popReady hm now
  | handleInterest source interest => exact .course (r.course_handleInterest source interest)
  | handleContent source content => exact .course (r.course_handleContent source content)
  | tick => exact .tick
  | apply command =>
    have hmanages := r.manages command
    rw [perform]
    generalize (r.apply command).2 = r' at hmanages
    cases hmanages with
    | added interface peer flags => exact hadded rfl interface peer flags id
    | removed face => exact .removal face rfl rfl
    | aside => exact .aside rfl rfl rfl rfl

/-- What every step keeps holds of the relay at each event of an operation. -/
theorem before_of_journal {motive : Relay → Prop} {r : Relay}
    (hstep : ∀ {r r' : Relay} {agenda agenda' : List ComputationId} {events : List Event},
      Step r agenda events r' agenda' → motive r → motive r')
    (hr : motive r) {op : Operation} {event : Event} (hmem : event ∈ r.journal op) :
    motive event.before := by
  have heffect := r.effect op
  generalize r.perform op = r' at heffect
  cases heffect with
  | course hcourse => exact hcourse.before hstep hr event hmem
  | faces hjournal => exact absurd (hjournal ▸ hmem) List.not_mem_nil
  | removal _ hjournal => exact absurd (hjournal ▸ hmem) List.not_mem_nil
  | tick => exact absurd hmem List.not_mem_nil

/-- What holds of relays with empty tables, and is kept by all that operations of some kind come to, holds
of every relay that they bring about. -/
theorem ReachableBy.invariant {kind : Operation → Prop} {motive : Relay → Prop} {r : Relay}
    (hr : ReachableBy kind r)
    (hempty : ∀ r : Relay, r.pending = {} → r.faces.faces = [] → r.computations.suspended = [] →
      motive r)
    (heffect : ∀ r r' op, motive r → kind op → Effect r op r' → motive r') : motive r := by
  induction hr with
  | new hnew =>
    obtain rfl := eq_of_new hnew
    exact hempty _ rfl rfl rfl
  | perform _ hop ih => exact heffect _ _ _ ih hop (effect _ _)

end NamedFunctions.Relay
