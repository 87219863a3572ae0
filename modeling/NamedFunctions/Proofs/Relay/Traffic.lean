import NamedFunctions.Proofs.Relay.Completion
import NamedFunctions.Proofs.Relay.Queueing

/-!
# What packets of one kind bring about

A packet is handled in single acts: an Interest is looked up, added or joined, data is put into the store
and delivered, a computation is taken out of its table or put back. `Traffic` names them all, each with
what is known there: that the Interests are of one kind, the data of another, and the computations among
some that work for such Interests. What all acts keep is kept by the handling of a packet, through every
cascade that it sets off.
-/

namespace NamedFunctions

/-- A URI is read as a name of the suite that is given, with the flags that its components determine. -/
theorem Name.exists_of_ofUri {uri : String} {suite : Suite} {name : Name}
    (h : Name.ofUri uri suite = .ok name) : ∃ components, name = .ofComponents components suite := by
  unfold Name.ofUri at h
  cases hc : Uri.components uri.toList with
  | error error =>
    rw [hc] at h
    cases h
  | ok components =>
    rw [hc] at h
    exact ⟨components, (Except.ok.inj h).symm⟩

namespace Computation

/-- Whether a computation waits for the data of a name, which its machine has stopped at as a URI of the
suite of its Interest. -/
structure Awaits (c : Computation) (name : Name) : Prop where
  awaiting : c.awaiting = some name
  external : ∃ uri, Name.ofUri uri c.origin.name.suite = .ok name

private theorem awaits_of_drive {limit : Nat} {c c' : Computation} {name : Name}
    (h : c.drive limit = .ok (.suspended c' name)) : c'.Awaits name := by
  unfold drive at h
  split at h
  · cases h
  · cases h
  · next uri machine hrun =>
    split at h
    · cases h
    · next hname =>
      cases h
      exact ⟨rfl, uri, hname⟩

end Computation

/-- Whether a machine has stopped for a computation out of some that work for Interests of a kind. -/
def Progress.Concerns (asked : Interest → Prop) (own : ComputationId → Prop) : Progress → Prop
  | done origin _ _ => asked origin
  | suspended c name => own c.id ∧ asked c.origin ∧ c.Awaits name

section Concerns

variable {asked : Interest → Prop} {own : ComputationId → Prop} {limit : Nat} {c : Computation}
  {progress : Progress}

private theorem Computation.concerns_of_drive (hid : own c.id) (hc : asked c.origin)
    (h : c.drive limit = .ok progress) : progress.Concerns asked own := by
  have horigin := origin_of_drive h
  cases progress with
  | done origin result transitions => exact (congrArg asked horigin).mpr hc
  | suspended c' name =>
    have hid' := (awaiting_of_drive h).1
    exact ⟨hid'.symm ▸ hid, (congrArg asked horigin).mpr hc, awaits_of_drive h⟩

private theorem Computation.concerns_of_resume {payload : Bytes} (hid : own c.id) (hc : asked c.origin)
    (h : c.resume limit payload = .ok progress) : progress.Concerns asked own := by
  unfold resume at h
  split at h
  · cases h
  · next machine hmachine =>
    exact concerns_of_drive (c := { c with awaiting := none, machine }) hid hc h

end Concerns

namespace Relay

/-- The acts that the handling of packets consists of. They keep `motive`, given that Interests satisfy
`asked`, data satisfies `given` and computations have numbers that satisfy `own`. -/
structure Traffic (asked : Interest → Prop) (given : Content → Prop) (own : ComputationId → Prop)
    (motive : Relay → Prop) : Prop where
  -- What Interests and data are made of.
  nonce : ∀ {i : Interest} (nonce : UInt32), asked i → asked (i.withNonce nonce)
  external : ∀ {origin : Interest} {uri : String} {name : Name}, asked origin →
    Name.ofUri uri origin.name.suite = .ok name → asked (.ofName name)
  result : ∀ {origin : Interest} (result : Bytes), asked origin → given (resultContent origin result)
  -- What is found in the tables.
  wellFormed : ∀ {r : Relay}, motive r → r.pending.WellFormed
  origin : ∀ {r : Relay} {c : Computation}, motive r → c ∈ r.computations.suspended → own c.id →
    asked c.origin
  same : ∀ {r : Relay} {i : Interest} {e : PendingEntry}, motive r → asked i →
    e ∈ r.pending.entries → e.interest.asksSame i = true → asked e.interest
  waiting : ∀ {r : Relay} {c : Content} {e : PendingEntry} {id : ComputationId}, motive r → given c →
    e ∈ r.pending.entries → e.interest.satisfiedBy c false = true → id ∈ e.computations → own id
  -- What is done.
  aside : ∀ {r : Relay} (nonces : NonceTable) (source : NonceSource) (stats : RelayStats), motive r →
    motive { r with nonces, source, stats }
  touch : ∀ {r : Relay} (id : FaceId), motive r → motive (r.touch id)
  lookup : ∀ {r : Relay} {i : Interest} {c : Content} {store : ContentStore}, motive r → asked i →
    r.store.lookup i r.clock = some (c, store) → given c ∧ motive { r with store }
  put : ∀ {r : Relay} {c : Content} (isStatic : Bool) {outcome : PutOutcome} {store : ContentStore},
    motive r → given c → r.store.put c isStatic r.clock = some (outcome, store) →
    motive { r with store }
  sendInterest : ∀ {r : Relay} {i : Interest} (id : FaceId), motive r → asked i →
    motive (r.send id (.interest i)).2
  sendContent : ∀ {r : Relay} {c : Content} (id : FaceId), motive r → given c →
    motive (r.send id (.content c)).2
  serve : ∀ {r : Relay} {c : Content} (entries : List PendingEntry), motive r → given c →
    motive (r.serve c entries).2
  insert : ∀ {r : Relay} {i : Interest} {requester : Requester}, motive r → asked i →
    (∀ id, requester = .computation id → own id) →
    motive { r with pending := (r.pending.insert i requester r.clock).2 }
  join : ∀ {r : Relay} {e : PendingEntry} {requester : Requester} (nonce : Option UInt32), motive r →
    e ∈ r.pending.entries → asked e.interest → (∀ id, requester = .computation id → own id) →
    motive { r with pending := (r.pending.addRequester e.id requester nonce r.clock).2 }
  erase : ∀ {r : Relay} {id : PendingId}, motive r →
    (∀ e ∈ r.pending.entries, e.id = id → asked e.interest) →
    motive { r with pending := r.pending.erase id }
  take : ∀ {r : Relay} {c : Content}, motive r → given c →
    motive { r with pending := (r.pending.takeAnswered c).2 }
  begin : ∀ {r : Relay}, motive r → own ⟨r.computations.nextId⟩ ∧
    motive { r with computations := { r.computations with nextId := r.computations.nextId + 1 } }
  release : ∀ {r : Relay} {id : ComputationId}, motive r → own id →
    motive { r with computations := r.computations.erase id }
  suspend : ∀ {r : Relay} {c : Computation} {name : Name}, motive r → own c.id → asked c.origin →
    c.Awaits name → motive { r with computations := r.computations.insert c }

namespace Delivery

variable {content : Content} {now : Nat} {id : ComputationId}

private theorem mem_waiting_offer {d : Delivery} {request : Request}
    (h : id ∈ (d.offer content now request).waiting) :
    id ∈ d.waiting ∨ request.requester = .computation id := by
  unfold offer at h
  split at h
  · next x hx =>
    split at h
    · exact .inl h
    · rcases List.mem_append.mp h with h | h
      · exact .inl h
      · rw [List.mem_singleton.mp h]
        exact .inr hx
  · split at h
    · exact .inl h
    · split at h
      · exact .inl h
      · exact .inl h

private theorem mem_waiting_foldl_offer {requests : List Request} {d : Delivery}
    (h : id ∈ (requests.foldl (offer content now) d).waiting) :
    id ∈ d.waiting ∨ ∃ request ∈ requests, request.requester = .computation id := by
  induction requests generalizing d with
  | nil => exact .inl h
  | cons request requests ih =>
    rcases ih h with hmem | ⟨other, hmem, hid⟩
    · rcases mem_waiting_offer hmem with hmem | hid
      · exact .inl hmem
      · exact .inr ⟨request, List.mem_cons_self, hid⟩
    · exact .inr ⟨other, List.mem_cons_of_mem _ hmem, hid⟩

end Delivery

/-- A computation that is noted in a delivery waits in one of its entries. -/
theorem mem_waiting_serve {r : Relay} {content : Content} {entries : List PendingEntry}
    {id : ComputationId} (h : id ∈ (r.serve content entries).1.2) :
    ∃ e ∈ entries, id ∈ e.computations := by
  rcases Delivery.mem_waiting_foldl_offer h with hnone | ⟨request, hmem, hid⟩
  · exact absurd hnone List.not_mem_nil
  · obtain ⟨e, he, hmem⟩ := List.mem_flatMap.mp hmem
    exact ⟨e, he, PendingEntry.mem_computations.mpr ⟨request, hmem, hid⟩⟩

namespace Traffic

variable {asked : Interest → Prop} {given : Content → Prop} {own : ComputationId → Prop}
  {motive : Relay → Prop} {r r' : Relay}

private theorem count (h : Traffic asked given own motive) (hr : motive r)
    (change : RelayStats → RelayStats) : motive (r.count change) :=
  h.aside r.nonces r.source (change r.stats) hr

private theorem countFailure (h : Traffic asked given own motive) (hr : motive r)
    (outcome : Except RelayError Settled) : motive (r.countFailure outcome) := by
  cases outcome with
  | ok => exact hr
  | error => exact h.count hr fun s => { s with computationsFailed := s.computationsFailed + 1 }

private theorem cache (h : Traffic asked given own motive) (hr : motive r) {c : Content} (hc : given c)
    (isStatic : Bool) : motive (r.cache c isStatic) := by
  unfold Relay.cache
  split
  · next hput => exact h.count (h.put isStatic hr hc hput) _
  · next hput => exact h.count (h.put isStatic hr hc hput) _
  · next hput => exact h.put isStatic hr hc hput
  · next hput => exact h.put isStatic hr hc hput
  · exact hr

/-- A pending Interest of the kind is sent along its route. -/
theorem propagate (h : Traffic asked given own motive) (hr : motive r) {id : PendingId}
    (hid : ∀ e ∈ r.pending.entries, e.id = id → asked e.interest) :
    motive (r.propagate id).2 := by
  rcases r.propagate_cases id with heq | ⟨e, route, he, -, ⟨-, heq⟩ | ⟨-, heq⟩⟩
  · rw [heq]
    exact hr
  · obtain ⟨hmem, heid⟩ := PendingTable.mem_of_get? he
    rw [heq]
    dsimp only
    exact h.count (h.sendInterest route.face hr (hid e hmem heid)) _
  · obtain ⟨hmem, heid⟩ := PendingTable.mem_of_get? he
    rw [heq]
    exact h.sendInterest route.face hr (hid e hmem heid)

/-- The entry that is added is the only one with its number. -/
theorem asked_of_insert (h : Traffic asked given own motive) (hr : motive r) {i : Interest}
    (hi : asked i) (requester : Requester) (now : Nat) :
    ∀ e ∈ (r.pending.insert i requester now).2.entries,
      e.id = (r.pending.insert i requester now).1 → asked e.interest := by
  intro e he hid
  rcases List.mem_append.mp he with he | he
  · have hbelow := (h.wellFormed hr).id_lt he
    rw [hid] at hbelow
    exact absurd hbelow (Nat.lt_irrefl _)
  · rw [List.mem_singleton.mp he]
    exact hi

private theorem issue (h : Traffic asked given own motive) (hr : motive r) {c : Computation} {name : Name}
    (hid : own c.id) (hc : asked c.origin) (hname : c.Awaits name) :
    motive (r.issue c name).2 := by
  obtain ⟨uri, huri⟩ := hname.external
  have hsub : asked ((Interest.ofName name).withNonce r.source.next.1) :=
    h.nonce _ (h.external hc huri)
  have hsource := h.aside (r.nonces.record r.source.next.1 r.clock).2 r.source.next.2 r.stats hr
  have hasking : motive (r.asking c name) := by
    apply h.count
    apply h.insert hsource hsub
    rintro id ⟨⟩
    exact hid
  have hentry := h.asked_of_insert hsource hsub (.computation c.id) r.clock
  have hasked : motive (r.asked c name).2 := h.propagate hasking hentry
  rw [issue_eq]
  split
  · exact h.suspend hasked hid hc hname
  · have hkept : ∀ e ∈ (r.asked c name).2.pending.entries,
        e.id = ⟨r.pending.nextId⟩ → asked e.interest := by
      rw [show (r.asked c name).2.pending = (r.asking c name).pending from pending_propagate _ _]
      exact hentry
    have herased := h.erase hasked hkept
    exact h.aside _ (r.asked c name).2.source (r.asked c name).2.stats herased

private theorem await (h : Traffic asked given own motive) (hr : motive r) {c : Computation} {name : Name}
    (hid : own c.id) (hc : asked c.origin) (hname : c.Awaits name) :
    motive (r.await c name).2 := by
  obtain ⟨uri, huri⟩ := hname.external
  unfold Relay.await
  split
  · next hsame =>
    obtain ⟨e, he, rfl, hesame⟩ := PendingTable.mem_of_findSame hsame
    have hrequester : ∀ id, Requester.computation c.id = .computation id → own id := by
      rintro id ⟨⟩
      exact hid
    have hjoined := h.join none hr he (h.same hr (h.external hc huri) he hesame) hrequester
    exact h.suspend hjoined hid hc hname
  · exact h.issue hr hid hc hname

/-- A computation goes through cached data and yields a result for an Interest of the kind, if any. -/
theorem advances (h : Traffic asked given own motive) {n : Nat}
    {progress : Except ComputationError Progress} {outcome : Except RelayError Settled}
    (hadvances : Advances r progress n outcome r') (hr : motive r)
    (hprogress : ∀ p, progress = .ok p → p.Concerns asked own) :
    motive r' ∧ ∀ origin result, outcome = .ok (.finished origin result) → asked origin := by
  induction hadvances with
  | failed error =>
    refine ⟨hr, ?_⟩
    rintro origin result ⟨⟩
  | finished origin result transitions =>
    refine ⟨hr, ?_⟩
    rintro origin result ⟨⟩
    exact hprogress _ rfl
  | @awaits r c name hmiss =>
    obtain ⟨hid, hc, hname⟩ := hprogress _ rfl
    refine ⟨h.await hr hid hc hname, fun origin result heq => ?_⟩
    exact absurd heq (await_ne_finished r c name origin result)
  | @fetches r r' c name content store n outcome hhit rest ih =>
    obtain ⟨hid, hc, hname⟩ := hprogress _ rfl
    obtain ⟨uri, huri⟩ := hname.external
    have hfetched := (h.lookup hr (h.external hc huri) hhit).2
    apply ih (h.count hfetched _)
    intro p hp
    exact Computation.concerns_of_resume hid hc hp

private theorem carryOn (h : Traffic asked given own motive) (hr : motive r)
    {progress : Except ComputationError Progress}
    (hprogress : ∀ p, progress = .ok p → p.Concerns asked own) :
    motive (r.carryOn progress).2 ∧
      ∀ origin result, (r.carryOn progress).1 = .ok (.finished origin result) → asked origin := by
  obtain ⟨n, hadvances⟩ := r.exists_advances progress
  obtain ⟨hsettled, hfinished⟩ := h.advances hadvances hr hprogress
  rw [carryOn_eq]
  exact ⟨h.countFailure hsettled _, hfinished⟩

private theorem resumeComputation (h : Traffic asked given own motive) (hr : motive r) {id : ComputationId}
    (hid : own id) (payload : Bytes) :
    motive (r.resumeComputation id payload).2 ∧
      ∀ origin result, (r.resumeComputation id payload).1 = some (origin, result) → asked origin := by
  cases hc : r.computations.get? id with
  | none =>
    rw [resumeComputation_of_none hc]
    dsimp only
    refine ⟨h.countFailure hr _, ?_⟩
    rintro origin result ⟨⟩
  | some c =>
    obtain ⟨hmem, rfl⟩ := ComputationTable.mem_of_get? hc
    have hprogress : ∀ p, c.resume r.computations.stepLimit payload = .ok p →
        p.Concerns asked own :=
      fun p hp => Computation.concerns_of_resume hid (h.origin hr hmem hid) hp
    obtain ⟨hcarried, hfinished⟩ := h.carryOn (h.release hr hid) hprogress
    rw [resumeComputation_of_some hc]
    exact ⟨hcarried, fun origin result heq => hfinished origin result (eq_finished_of_result? heq)⟩

/-- Data of the kind is delivered, to computations that are among those in view. -/
theorem deliver (h : Traffic asked given own motive) (r' : Relay) {c : Content} (hr : motive r)
    (hc : given c) (hr' : motive { r' with pending := (r.pending.takeAnswered c).2 }) :
    motive ({ r' with pending := (r.pending.takeAnswered c).2 }.serve c
        (r.pending.takeAnswered c).1).2 ∧
      ∀ id ∈ ({ r' with pending := (r.pending.takeAnswered c).2 }.serve c
        (r.pending.takeAnswered c).1).1.2, own id := by
  refine ⟨h.serve _ hr' hc, fun id hid => ?_⟩
  obtain ⟨e, he, hmem⟩ := mem_waiting_serve hid
  obtain ⟨he, hanswered⟩ := List.mem_filter.mp he
  exact h.waiting hr hc he hanswered hmem

private theorem announce (h : Traffic asked given own motive) (hr : motive r) {origin : Interest}
    (horigin : asked origin) (result : Bytes) :
    motive (r.announce origin result).2 ∧ ∀ x ∈ (r.announce origin result).1, own x.1 := by
  have hc := h.result result horigin
  have hcached : motive (r.withResult origin result) := h.cache (h.count hr _) hc true
  obtain ⟨hserved, hown⟩ := h.deliver (r.withResult origin result) hcached hc (h.take hcached hc)
  refine ⟨hserved, fun x hx => ?_⟩
  obtain ⟨id, hid, rfl⟩ := List.mem_map.mp hx
  exact hown id hid

private theorem wake (h : Traffic asked given own motive) (hr : motive r)
    {agenda : List (ComputationId × Bytes)} (hagenda : ∀ x ∈ agenda, own x.1) :
    motive (r.wake agenda) := by
  fun_induction Relay.wake r agenda with
  | case1 r => exact hr
  | case2 r id payload rest r' heq _ ih =>
    have hresumed := (h.resumeComputation hr (hagenda (id, payload) List.mem_cons_self) payload).1
    rw [heq] at hresumed
    exact ih hresumed fun x hx => hagenda x (List.mem_cons_of_mem _ hx)
  | case3 r id payload rest origin result r' heq _ ih =>
    obtain ⟨hresumed, hfinished⟩ :=
      h.resumeComputation hr (hagenda (id, payload) List.mem_cons_self) payload
    rw [heq] at hresumed hfinished
    obtain ⟨hannounced, hown⟩ := h.announce hresumed (hfinished origin result rfl) result
    refine ih hannounced (List.forall_mem_append.mpr ⟨hown, fun x hx => ?_⟩)
    exact hagenda x (List.mem_cons_of_mem _ hx)

private theorem publish (h : Traffic asked given own motive) (hr : motive r) {origin : Interest}
    (horigin : asked origin) (result : Bytes) : motive (r.publish origin result) := by
  obtain ⟨hannounced, hown⟩ := h.announce hr horigin result
  exact h.wake hannounced hown

private theorem beginComputation (h : Traffic asked given own motive) (hr : motive r) {i : Interest}
    (hi : asked i) :
    motive (r.beginComputation i).2 ∧
      ∀ p, (r.beginComputation i).1 = .ok p → p.Concerns asked own := by
  unfold Relay.beginComputation
  split
  · refine ⟨hr, ?_⟩
    rintro p ⟨⟩
  · next c computations hcreate =>
    obtain ⟨hid, rfl⟩ := ComputationTable.eq_of_create hcreate
    have horigin := ComputationTable.origin_of_create hcreate
    obtain ⟨hown, hbegun⟩ := h.begin hr
    refine ⟨hbegun, fun p hp => ?_⟩
    exact Computation.concerns_of_drive (hid ▸ hown) (horigin ▸ hi) hp

private theorem startComputation (h : Traffic asked given own motive) (hr : motive r) {i : Interest}
    (hi : asked i) : motive (r.startComputation i).2 := by
  obtain ⟨hbegun, hprogress⟩ := h.beginComputation (r := r.reductionStarted) (h.count hr _) hi
  obtain ⟨hcarried, hfinished⟩ := h.carryOn hbegun hprogress
  rw [startComputation_eq]
  rcases heq : (r.reductionStarted.beginComputation i).2.carryOn
    (r.reductionStarted.beginComputation i).1 with ⟨_ | settled, r'⟩
  · rw [heq] at hcarried
    exact hcarried
  · rw [heq] at hcarried hfinished
    cases settled with
    | finished origin result => exact h.publish hcarried (hfinished origin result rfl) result
    | waiting id => exact hcarried

private theorem aggregate (h : Traffic asked given own motive) (hr : motive r) {i : Interest} (hi : asked i)
    {id : PendingId} (hsame : r.pending.findSame i = some id) (source : FaceId) :
    motive (r.aggregate source i id).2 := by
  obtain ⟨e, he, rfl, hesame⟩ := PendingTable.mem_of_findSame hsame
  have hasked := h.same hr hi he hesame
  have hjoined : motive (r.joined source i e.id) := by
    apply h.count
    apply h.join i.nonce hr he hasked
    rintro id ⟨⟩
  have hentry : ∀ e' ∈ (r.joined source i e.id).pending.entries, e'.id = e.id →
      asked e'.interest := by
    intro e' he' hid
    obtain ⟨e₀, he₀, rfl⟩ := List.mem_map.mp he'
    split at hid
    · next heq =>
      rw [if_pos heq, (h.wellFormed hr).eq_of_id he₀ he heq]
      exact hasked
    · next hne => exact absurd hid hne
  rw [snd_aggregate]
  split
  · exact h.propagate hjoined hentry
  · exact hjoined

private theorem forward (h : Traffic asked given own motive) (hr : motive r) {i : Interest} (hi : asked i)
    (source : FaceId) : motive (r.forward source i).2 := by
  have hentry := h.asked_of_insert hr hi (.face source) r.clock
  have hsent : motive (r.sentOn source i).2 := by
    apply h.propagate _ hentry
    apply h.insert hr hi
    rintro id ⟨⟩
  have hpending : (r.sentOn source i).2.pending = (r.pending.insert i (.face source) r.clock).2 :=
    pending_propagate _ _
  rw [snd_forward]
  split
  · exact hsent
  · exact h.count (h.erase hsent (by rw [hpending]; exact hentry)) _

private theorem resolve (h : Traffic asked given own motive) (hr : motive r) {i : Interest} (hi : asked i)
    (source : FaceId) : motive (r.resolve source i).2 := by
  cases hlookup : r.store.lookup i r.clock with
  | some found =>
    obtain ⟨c, store⟩ := found
    obtain ⟨hc, hfound⟩ := h.lookup hr hi hlookup
    have hsent : motive ((r.fetched store).send source (.content c)).2 :=
      h.sendContent source (h.count hfound _) hc
    rw [snd_resolve_of_some hlookup]
    split
    · exact h.count hsent _
    · exact hsent
  | none =>
    rw [Relay.resolve, hlookup]
    cases hsame : r.pending.findSame i with
    | some id => exact h.aggregate hr hi hsame source
    | none =>
      dsimp only
      split
      · apply h.startComputation _ hi
        apply h.insert hr hi
        rintro id ⟨⟩
      · exact h.forward hr hi source

private theorem accept (h : Traffic asked given own motive) (hr : motive r) {i : Interest} (hi : asked i) :
    motive (r.accept i).2 ∧ ∀ accepted, (r.accept i).1 = some accepted → asked accepted := by
  obtain ⟨nonces, source, haccept⟩ := r.accept_eq i
  constructor
  · rw [haccept]
    exact h.aside nonces source r.stats hr
  · intro accepted heq
    unfold Relay.accept at heq
    split at heq
    · split at heq
      · cases heq
        exact hi
      · cases heq
    · cases heq
      exact h.nonce _ hi

/-- What all acts keep is kept by the handling of an Interest of the kind. -/
theorem handleInterest (h : Traffic asked given own motive) (hr : motive r) {i : Interest}
    (hi : asked i) (source : FaceId) : motive (r.handleInterest source i).2 := by
  unfold Relay.handleInterest
  split
  · have hreceived : motive (r.interestReceived source) := h.count (h.touch source hr) _
    obtain ⟨haccepted, hasked⟩ := h.accept hreceived hi
    dsimp only [interestReceived] at haccepted hasked ⊢
    rcases heq : Relay.accept _ i with ⟨_ | accepted, r'⟩
    · rw [heq] at haccepted
      dsimp only at haccepted ⊢
      exact h.count haccepted _
    · rw [heq] at haccepted hasked
      exact h.resolve haccepted (hasked accepted rfl) source
  · exact hr

/-- What all acts keep is kept by the handling of data of the kind. -/
theorem handleContent (h : Traffic asked given own motive) (hr : motive r) {c : Content}
    (hc : given c) (source : FaceId) : motive (r.handleContent source c).2 := by
  unfold Relay.handleContent
  split
  · have hreceived : motive (r.contentReceived source) := h.count (h.touch source hr) _
    have htaken := h.take hreceived hc
    dsimp only [contentReceived] at hreceived htaken ⊢
    generalize (r.touch source).count _ = r₁ at hreceived htaken ⊢
    have hcached := h.cache htaken hc false
    obtain ⟨store, stats, hcache⟩ := cache_eq { r₁ with pending := (r₁.pending.takeAnswered c).2 } c false
    rw [hcache] at hcached
    obtain ⟨hserved, hown⟩ := h.deliver { r₁ with store, stats } hreceived hc hcached
    rcases heq : r₁.pending.takeAnswered c with ⟨_ | ⟨e, entries⟩, pending⟩
    · dsimp only
      exact h.count hreceived _
    · rw [heq] at hcache hserved hown
      dsimp only at hcache ⊢
      rw [hcache]
      apply h.wake hserved
      intro x hx
      obtain ⟨id, hid, rfl⟩ := List.mem_map.mp hx
      exact hown id hid
  · exact hr

end Traffic

end Relay

end NamedFunctions
