import NamedFunctions.Proofs.Relay.Journal
import NamedFunctions.Proofs.Relay.Reduction

/-!
# The course of an operation

The handling of a packet is a course of a few kinds of steps. Each is a change of the relay and of the
agenda: the computations that have their data and are still to be resumed. What holds before and after
each step holds through all cascades, however deep they go.
-/

namespace NamedFunctions.Relay

/-- A step from a relay and an agenda to others, with what the journal says of it. -/
inductive Step : Relay → List ComputationId → List Event → Relay → List ComputationId → Prop where
  /-- Nothing happens to pending Interests, computations, and data on queues. -/
  | aside {r r' : Relay} {agenda : List ComputationId} (hpending : r'.pending = r.pending)
      (hcomputations : r'.computations = r.computations) (hquiet : r.faces.Quiet r'.faces) :
      Step r agenda [] r' agenda
  /-- The Interest of a face becomes a pending one, as no other asks for the same. -/
  | ask {r : Relay} {agenda : List ComputationId} {source : FaceId} (interest : Interest)
      (hsource : r.faces.contains source = true) (hnew : r.pending.findSame interest = none) :
      Step r agenda []
        { r with pending := (r.pending.insert interest (.face source) r.clock).2 } agenda
  /-- The Interest of a face joins a pending one. -/
  | join {r : Relay} {agenda : List ComputationId} {source : FaceId} (entry : PendingId)
      (nonce : Option UInt32) (hsource : r.faces.contains source = true) :
      Step r agenda []
        { r with pending := (r.pending.addRequester entry (.face source) nonce r.clock).2 } agenda
  /-- The Interest of a face is taken back because there is no way for it. -/
  | withdraw {r : Relay} {agenda : List ComputationId} (source : FaceId) (interest : Interest) :
      Step r agenda []
        { r with
          pending := (r.pending.insert interest (.face source) r.clock).2.erase
            (r.pending.insert interest (.face source) r.clock).1 } agenda
  /-- The Interest of a face is answered from the content store. -/
  | answer {r : Relay} {agenda : List ComputationId} (source : FaceId) (interest : Interest)
      (content : Content) :
      Step r agenda [.answer r source interest content] (r.send source (.content content)).2 agenda
  /-- Data goes to all who wait for it. -/
  | deliver {r : Relay} {agenda : List ComputationId} (content : Content) :
      Step r agenda [.deliver r content]
        { r with
          pending := (r.pending.takeAnswered content).2
          faces := (r.serve content (r.pending.takeAnswered content).1).2.faces }
        ((r.serve content (r.pending.takeAnswered content).1).1.2 ++ agenda)
  /-- A computation that is suspended is taken further. -/
  | resume {r r' : Relay} {agenda : List ComputationId} {id : ComputationId} {c : Computation}
      {outcome : Except RelayError Settled} (payload : Bytes)
      (hc : r.computations.get? id = some c)
      (hcarried : Carried { r with computations := r.computations.erase id } id outcome r') :
      Step r (id :: agenda) [.resume r id payload] r' agenda
  /-- There is no computation to be taken further. -/
  | miss {r : Relay} {agenda : List ComputationId} {id : ComputationId} (payload : Bytes)
      (hnone : r.computations.get? id = none) :
      Step r (id :: agenda) [.resume r id payload] r agenda
  /-- A computation is created and taken as far as it goes. -/
  | begin {r r' : Relay} {agenda : List ComputationId} {outcome : Except RelayError Settled}
      (hcarried : Carried
        { r with computations := { r.computations with nextId := r.computations.nextId + 1 } }
        ⟨r.computations.nextId⟩ outcome r') :
      Step r agenda [] r' agenda

/-- Any number of steps, with all that the journal says of them. -/
inductive Course : Relay → List ComputationId → List Event → Relay → List ComputationId → Prop where
  | refl {r : Relay} {agenda : List ComputationId} : Course r agenda [] r agenda
  | step {r r' r'' : Relay} {agenda agenda' agenda'' : List ComputationId}
      {events events' : List Event} (first : Step r agenda events r' agenda')
      (rest : Course r' agenda' events' r'' agenda'') :
      Course r agenda (events ++ events') r'' agenda''

namespace Course

variable {r r' r'' : Relay} {agenda agenda' agenda'' : List ComputationId}
  {events events' : List Event}

private theorem single (h : Step r agenda events r' agenda') : Course r agenda events r' agenda' := by
  rw [← List.append_nil events]
  exact .step h .refl

/-- One course after another is a course. -/
theorem trans (h : Course r agenda events r' agenda')
    (h' : Course r' agenda' events' r'' agenda'') :
    Course r agenda (events ++ events') r'' agenda'' := by
  induction h with
  | refl => exact h'
  | step first _ ih =>
    rw [List.append_assoc]
    exact .step first (ih h')

/-- Steps that the journal does not mention may come first. -/
theorem after_aside (h : Course r' agenda events r'' agenda'') (hpending : r'.pending = r.pending)
    (hcomputations : r'.computations = r.computations) (hquiet : r.faces.Quiet r'.faces) :
    Course r agenda events r'' agenda'' :=
  .step (.aside hpending hcomputations hquiet) h

/-- What touches neither pending Interests nor computations is no event. -/
theorem aside (hpending : r'.pending = r.pending) (hcomputations : r'.computations = r.computations)
    (hquiet : r.faces.Quiet r'.faces) : Course r agenda [] r' agenda :=
  .single (.aside hpending hcomputations hquiet)

/-- What every step keeps holds of the relay at each event of a course. -/
theorem before {motive : Relay → Prop}
    (hstep : ∀ {r r' : Relay} {agenda agenda' : List ComputationId} {events : List Event},
      Step r agenda events r' agenda' → motive r → motive r')
    (h : Course r agenda events r' agenda') (hr : motive r) :
    ∀ event ∈ events, motive event.before := by
  induction h with
  | refl => exact List.forall_mem_nil _
  | step first _ ih =>
    refine List.forall_mem_append.mpr ⟨?_, ih (hstep first hr)⟩
    cases first with
    | answer => exact List.forall_mem_singleton.mpr hr
    | deliver => exact List.forall_mem_singleton.mpr hr
    | resume => exact List.forall_mem_singleton.mpr hr
    | miss => exact List.forall_mem_singleton.mpr hr
    | _ => exact List.forall_mem_nil _

end Course

/-- An agenda on which all have the same payload is that of its computations. -/
theorem map_fst_agenda (ids : List ComputationId) (payload : Bytes) :
    (ids.map fun id => (id, payload)).map Prod.fst = ids := by
  rw [List.map_map]
  exact List.map_id ids

/-- The result of a computation is delivered as it has been cached, and adds to the agenda. -/
theorem course_announce (r : Relay) (origin : Interest) (result : Bytes)
    (agenda : List ComputationId) :
    Course r agenda [.deliver (r.withResult origin result) (resultContent origin result)]
      (r.announce origin result).2 ((r.announce origin result).1.map Prod.fst ++ agenda) := by
  have hids : (r.announce origin result).1.map Prod.fst =
      ((r.withResult origin result).serve (resultContent origin result)
        ((r.withResult origin result).pending.takeAnswered (resultContent origin result)).1).1.2 :=
    map_fst_agenda _ result
  obtain ⟨store, stats, hcache⟩ :=
    (r.count fun s => { s with computationsCompleted := s.computationsCompleted + 1 }).cache_eq
      (resultContent origin result) true
  have hwith : r.withResult origin result = { r with store, stats } := hcache
  have hcached : Course r agenda [] (r.withResult origin result) agenda := by
    rw [hwith]
    exact .aside rfl rfl (.refl _)
  rw [hids]
  exact hcached.trans (.step (.deliver (resultContent origin result)) (.aside rfl rfl (.refl _)))

/-- A resumption is a step of its own, and counters may change besides. -/
theorem course_resumeComputation (r : Relay) (id : ComputationId) (payload : Bytes)
    (agenda : List ComputationId) :
    Course r (id :: agenda) [.resume r id payload] (r.resumeComputation id payload).2 agenda := by
  cases hc : r.computations.get? id with
  | none =>
    rw [resumeComputation_of_none hc]
    exact .step (.miss payload hc) (.aside rfl rfl (.refl _))
  | some c =>
    have hid := (ComputationTable.mem_of_get? hc).2
    have hcarried := carried_carryOn { r with computations := r.computations.erase id }
      fun c' name (h : c.resume r.computations.stepLimit payload = .ok (.suspended c' name)) =>
        And.imp_left (·.trans hid) (Computation.awaiting_of_resume h)
    rw [resumeComputation_of_some hc]
    exact .single (.resume payload hc hcarried)

/-- A computation that is resumed and has no result yet is the only event. -/
theorem cascade_of_none {r r' : Relay} {id : ComputationId} {payload : Bytes}
    (rest : List (ComputationId × Bytes)) (h : r.resumeComputation id payload = (none, r')) :
    r.cascade ((id, payload) :: rest) = .resume r id payload :: r'.cascade rest := by
  rw [cascade]
  split
  · next heq =>
    rw [h] at heq
    cases heq
    rfl
  · next heq =>
    rw [h] at heq
    cases heq

/-- A computation that is resumed and has a result delivers it, and those that wait for it come next. -/
theorem cascade_of_some {r r' : Relay} {id : ComputationId} {payload : Bytes}
    {origin : Interest} {result : Bytes} (rest : List (ComputationId × Bytes))
    (h : r.resumeComputation id payload = (some (origin, result), r')) :
    r.cascade ((id, payload) :: rest) =
      .resume r id payload ::
        .deliver (r'.withResult origin result) (resultContent origin result) ::
          (r'.announce origin result).2.cascade ((r'.announce origin result).1 ++ rest) := by
  rw [cascade]
  split
  · next heq =>
    rw [h] at heq
    cases heq
  · next heq =>
    rw [h] at heq
    cases heq
    rfl

/-- While computations are resumed in turn, the agenda is worked off. -/
theorem course_wake (r : Relay) (agenda : List (ComputationId × Bytes)) :
    Course r (agenda.map Prod.fst) (r.cascade agenda) (r.wake agenda) [] := by
  fun_induction wake r agenda with
  | case1 r =>
    rw [cascade]
    exact .refl
  | case2 r id payload rest r' h _ ih =>
    have hresume := course_resumeComputation r id payload (rest.map Prod.fst)
    rw [h] at hresume
    rw [cascade_of_none rest h]
    exact hresume.trans ih
  | case3 r id payload rest origin result r' h _ ih =>
    have hresume := course_resumeComputation r id payload (rest.map Prod.fst)
    rw [h] at hresume
    have hannounce := course_announce r' origin result (rest.map Prod.fst)
    rw [List.map_append] at ih
    rw [cascade_of_some rest h]
    exact hresume.trans (hannounce.trans ih)

private theorem course_publish (r : Relay) (origin : Interest) (result : Bytes) :
    Course r [] (r.publication origin result) (r.publish origin result) [] := by
  have hannounce := course_announce r origin result []
  rw [List.append_nil] at hannounce
  exact hannounce.trans (course_wake _ _)

/-- A computation that begins and comes to need data has the next number. -/
theorem awaiting_of_beginComputation {r : Relay} {interest : Interest} {c : Computation}
    {name : Name} (h : (r.beginComputation interest).1 = .ok (.suspended c name)) :
    c.id = ⟨r.computations.nextId⟩ ∧ c.awaiting = some name := by
  unfold beginComputation at h
  split at h
  · cases h
  · next hcreate =>
    obtain ⟨hid, rfl⟩ := ComputationTable.eq_of_create hcreate
    exact And.imp_left (·.trans hid) (Computation.awaiting_of_drive h)

/-- Beginning a computation suspends none. -/
theorem suspended_beginComputation (r : Relay) (interest : Interest) :
    (r.beginComputation interest).2.computations.suspended = r.computations.suspended := by
  unfold beginComputation
  split
  · rfl
  · next hcreate =>
    obtain ⟨-, rfl⟩ := ComputationTable.eq_of_create hcreate
    rfl

/-- A computation that begins is taken as far as it goes. -/
theorem carried_beginComputation (r : Relay) (interest : Interest) :
    Carried (r.beginComputation interest).2 ⟨r.computations.nextId⟩
      ((r.beginComputation interest).2.carryOn (r.beginComputation interest).1).1
      ((r.beginComputation interest).2.carryOn (r.beginComputation interest).1).2 :=
  carried_carryOn _ fun _ _ => awaiting_of_beginComputation

/-- A computation that begins is created and taken as far as it goes, if its expression can be read. -/
theorem course_begin (r : Relay) (interest : Interest) (agenda : List ComputationId) :
    Course r agenda []
      ((r.beginComputation interest).2.carryOn (r.beginComputation interest).1).2 agenda := by
  have hcarried := r.carried_beginComputation interest
  unfold beginComputation at hcarried ⊢
  split
  · exact .aside rfl rfl (.refl _)
  · next c computations hcreate =>
    obtain ⟨-, rfl⟩ := ComputationTable.eq_of_create hcreate
    rw [hcreate] at hcarried
    exact .single (.begin hcarried)

/-- The reduction of an expression, to its result and beyond. -/
theorem course_startComputation (r : Relay) (interest : Interest) :
    Course r [] (r.reductionJournal interest) (r.startComputation interest).2 [] := by
  have hstarted : Course r [] []
      (r.count fun s => { s with computationsStarted := s.computationsStarted + 1 }) [] :=
    .aside rfl rfl (.refl _)
  have hbegun := hstarted.trans (course_begin _ interest [])
  unfold startComputation reductionJournal
  dsimp only
  rcases heq : (beginComputation _ interest).2.carryOn (beginComputation _ interest).1 with
    ⟨_ | settled, r'⟩
  · rw [heq] at hbegun
    exact hbegun
  · rw [heq] at hbegun
    cases settled with
    | finished origin result => exact hbegun.trans (course_publish r' origin result)
    | waiting id => exact hbegun

/-- An Interest of a face sent along its route: the face that it was queued on, if it was. -/
def sentOn (r : Relay) (source : FaceId) (interest : Interest) : Option FaceId × Relay :=
  { r with pending := (r.pending.insert interest (.face source) r.clock).2 }.propagate
    (r.pending.insert interest (.face source) r.clock).1

/-- An Interest for which there is no way is taken back. -/
theorem snd_forward (r : Relay) (source : FaceId) (interest : Interest) :
    (r.forward source interest).2 =
      if (r.sentOn source interest).1.isSome then (r.sentOn source interest).2
      else
        { (r.sentOn source interest).2 with
          pending := (r.sentOn source interest).2.pending.erase
            (r.pending.insert interest (.face source) r.clock).1 }.drop := by
  unfold forward
  dsimp only
  split
  · next face s heq =>
    have hsent : r.sentOn source interest = (some face, s) := heq
    rw [hsent]
    rfl
  · next s heq =>
    have hsent : r.sentOn source interest = (none, s) := heq
    rw [hsent]
    rfl

/-- Without an answer and without another like it an Interest is sent on, or taken back. -/
theorem course_forward {r : Relay} {source : FaceId} {interest : Interest}
    (hsource : r.faces.contains source = true) (hnew : r.pending.findSame interest = none) :
    Course r [] [] (r.forward source interest).2 [] := by
  obtain ⟨faces, stats, hsent, hquiet⟩ := propagate_eq
    { r with pending := (r.pending.insert interest (.face source) r.clock).2 }
    (r.pending.insert interest (.face source) r.clock).1
  change (r.sentOn source interest).2 = _ at hsent
  rw [snd_forward, hsent]
  split
  · exact .step (.ask interest hsource hnew) (.aside rfl rfl hquiet)
  · exact .step (.withdraw source interest) (.aside rfl rfl hquiet)

/-- The relay in which an Interest has joined a pending one. -/
def joined (r : Relay) (source : FaceId) (interest : Interest) (id : PendingId) : Relay :=
  { r with pending := (r.pending.addRequester id (.face source) interest.nonce r.clock).2 }.count
    fun s => { s with interestsAggregated := s.interestsAggregated + 1 }

/-- An Interest that is aggregated adds a requester, and is sent on if its face asks for that. -/
theorem snd_aggregate (r : Relay) (source : FaceId) (interest : Interest) (id : PendingId) :
    (r.aggregate source interest id).2 =
      if (r.faces.get? source).any (·.flags.forwardAll) then
        ((r.joined source interest id).propagate id).2
      else r.joined source interest id := by
  unfold aggregate
  dsimp only
  split
  · next hforward =>
    refine Eq.trans ?_ (if_pos hforward).symm
    split
    · next heq => exact congrArg Prod.snd heq.symm
    · next heq => exact congrArg Prod.snd heq.symm
  · next hforward => exact (if_neg hforward).symm

/-- An Interest that joins a pending one may be sent on besides. -/
theorem course_aggregate {r : Relay} {source : FaceId} (hsource : r.faces.contains source = true)
    (interest : Interest) (entry : PendingId) :
    Course r [] [] (r.aggregate source interest entry).2 [] := by
  refine .step (.join entry interest.nonce hsource) ?_
  obtain ⟨faces, stats, hpropagate, hquiet⟩ := (r.joined source interest entry).propagate_eq entry
  rw [snd_aggregate]
  split
  · rw [hpropagate]
    exact .aside rfl rfl hquiet
  · exact .aside rfl rfl (.refl _)

/-- An answer from the content store is placed on the queue as the journal says. -/
theorem course_answer (r : Relay) (source : FaceId) (interest : Interest) (content : Content)
    (store : ContentStore) :
    Course r [] [.answer r source interest content]
      ((r.fetched store).send source (.content content)).2 [] := by
  refine .step (.answer source interest content) ?_
  unfold send fetched count
  dsimp only
  split <;> exact .aside rfl rfl (.refl _)

/-- An answer that is queued is counted. -/
theorem snd_resolve_of_some {r : Relay} {interest : Interest} {content : Content}
    {store : ContentStore} (h : r.store.lookup interest r.clock = some (content, store))
    (source : FaceId) :
    (r.resolve source interest).2 =
      if ((r.fetched store).send source (.content content)).1 then
        ((r.fetched store).send source (.content content)).2.count fun s =>
          { s with contentServed := s.contentServed + 1 }
      else ((r.fetched store).send source (.content content)).2 := by
  rw [resolve, h]
  dsimp only
  split
  · next s heq =>
    have hsent : (r.fetched store).send source (.content content) = (true, s) := heq
    rw [hsent]
    rfl
  · next s heq =>
    have hsent : (r.fetched store).send source (.content content) = (false, s) := heq
    rw [hsent]
    rfl

/-- An Interest whose nonce is recorded finds an answer or a way. -/
theorem course_resolve (r : Relay) {source : FaceId} (interest : Interest)
    (hsource : r.faces.contains source = true) :
    Course r [] (r.resolutionJournal source interest) (r.resolve source interest).2 [] := by
  unfold resolutionJournal
  cases hlookup : r.store.lookup interest r.clock with
  | some found =>
    obtain ⟨content, store⟩ := found
    have hanswer := course_answer r source interest content store
    rw [snd_resolve_of_some hlookup]
    dsimp only
    split
    · exact hanswer.trans (.aside rfl rfl (.refl _))
    · exact hanswer
  | none =>
    rw [resolve, hlookup]
    cases hnew : r.pending.findSame interest with
    | some entry => exact course_aggregate hsource interest entry
    | none =>
      dsimp only
      split
      · exact .step (.ask interest hsource hnew) (course_startComputation _ interest)
      · exact course_forward hsource hnew

/-- A nonce is recorded without anything else being done. -/
theorem accept_eq (r : Relay) (interest : Interest) :
    ∃ nonces source, (r.accept interest).2 = { r with nonces, source } := by
  unfold accept
  split
  · split
    · exact ⟨_, r.source, rfl⟩
    · exact ⟨r.nonces, r.source, rfl⟩
  · exact ⟨_, _, rfl⟩

/-- Handling an Interest takes the course that its journal tells. -/
theorem course_handleInterest (r : Relay) (source : FaceId) (interest : Interest) :
    Course r [] (r.interestJournal source interest) (r.handleInterest source interest).2 [] := by
  unfold handleInterest interestJournal
  split
  · next hsource =>
    have hquiet := r.faces.quiet_touch source r.clock
    obtain ⟨nonces, nonceSource, haccept⟩ := accept_eq
      ((r.touch source).count fun s => { s with interestsReceived := s.interestsReceived + 1 })
      interest
    dsimp only
    rcases heq : accept _ interest with ⟨_ | interest', r'⟩
    · rw [heq] at haccept
      obtain rfl := haccept
      exact .aside rfl rfl hquiet
    · rw [heq] at haccept
      obtain rfl := haccept
      refine Course.after_aside (course_resolve _ interest' ?_) rfl rfl hquiet
      exact (hquiet.contains_eq source).trans hsource
  · exact .refl

/-- Handling a Content takes the course that its journal tells. -/
theorem course_handleContent (r : Relay) (source : FaceId) (content : Content) :
    Course r [] (r.contentJournal source content) (r.handleContent source content).2 [] := by
  unfold handleContent contentJournal
  split
  · next hsource =>
    have htouched : Course r [] []
        ((r.touch source).count fun s => { s with contentReceived := s.contentReceived + 1 }) [] :=
      .aside rfl rfl (r.faces.quiet_touch source r.clock)
    refine htouched.trans ?_
    dsimp only
    generalize (r.touch source).count _ = r
    have hdeliver := @Step.deliver r [] content
    rcases heq : r.pending.takeAnswered content with ⟨_ | ⟨e, entries⟩, pending⟩
    · exact .aside rfl rfl (.refl _)
    · obtain ⟨store, stats, hcache⟩ := cache_eq { r with pending } content false
      rw [heq, List.append_nil] at hdeliver
      dsimp only at hcache ⊢
      rw [hcache]
      have hwake := course_wake ({ r with pending, store, stats }.serve content (e :: entries)).2
        ((r.serve content (e :: entries)).1.2.map fun id => (id, content.payload))
      rw [map_fst_agenda] at hwake
      exact .step hdeliver (hwake.after_aside rfl rfl (.refl _))
  · exact .refl

end NamedFunctions.Relay
