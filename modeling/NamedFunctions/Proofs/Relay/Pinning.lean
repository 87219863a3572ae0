import NamedFunctions.Proofs.Relay.Completion
import NamedFunctions.Proofs.Relay.Storage

/-!
# Data that stays

Static data is there for good: nothing that happens to a relay takes it from under its name, though other
data that is delivered under the name can take its place. So an Interest in the name is answered from the
content store ever after. The answer is the newest data that satisfies the Interest, which need not be the
data under the very name.
-/

namespace NamedFunctions

/-- A nonce makes no difference to what answers an Interest. -/
theorem ContentStore.lookup_withNonce (store : ContentStore) (interest : Interest) (nonce : UInt32)
    (now : Nat) : store.lookup (interest.withNonce nonce) now = store.lookup interest now := by
  have hserve (entries : List CacheEntry) :
      serveFirst (interest.withNonce nonce) now entries = serveFirst interest now entries := by
    induction entries with
    | nil => rfl
    | cons e older ih =>
      rw [serveFirst, serveFirst, ih]
      rfl
  rw [lookup, lookup, hserve]

namespace Relay

private theorem accept_of_unseen {r : Relay} {interest : Interest}
    (h : ∀ n ∈ interest.nonce, r.nonces.contains n = false) :
    ∃ nonce r', r.accept interest = (some (interest.withNonce nonce), r') := by
  have haccepted : ∃ accepted r', r.accept interest = (some accepted, r') := by
    unfold accept
    split
    · next nonce hnonce =>
      simp only [NonceTable.record, h nonce hnonce]
      exact ⟨_, _, rfl⟩
    · exact ⟨_, _, rfl⟩
  obtain ⟨accepted, r', haccept⟩ := haccepted
  obtain ⟨nonce, rfl⟩ := eq_withNonce_of_accept haccept
  exact ⟨nonce, r', haccept⟩

/-- An Interest that is answered from the content store has nothing computed. -/
theorem resolve_of_hit {r : Relay} {source : FaceId} {face : Face}
    (hf : r.faces.get? source = some face) {interest : Interest} {content : Content}
    {store : ContentStore} (hlookup : r.store.lookup interest r.clock = some (content, store)) :
    (r.resolve source interest).1 = .ok .cacheHit ∧
      (r.resolve source interest).2.computations = r.computations ∧
      (r.resolve source interest).2.stats.computationsStarted = r.stats.computationsStarted ∧
      ∀ id, (r.resolve source interest).2.faces.contents id =
        r.faces.contents id ++ if id = source ∧ ¬ face.IsFull then [content] else [] := by
  have hcomputations := computations_send (r.fetched store) source (.content content)
  have hstarted : ((r.fetched store).send source (.content content)).2.stats.computationsStarted =
      r.stats.computationsStarted := by
    rw [stats_send]
    rfl
  have hcontents := @contents_send_content (r.fetched store) source face hf content
  refine ⟨?_, ?_, ?_, fun id => ?_⟩
  · rw [resolve, hlookup]
    dsimp only
    split <;> rfl
  · rw [snd_resolve_of_some hlookup]
    split
    · exact hcomputations
    · exact hcomputations
  · rw [snd_resolve_of_some hlookup]
    split
    · exact hstarted
    · exact hstarted
  · rw [snd_resolve_of_some hlookup]
    split
    · exact hcontents id
    · exact hcontents id

/-- An Interest with an unseen nonce that an entry answers is answered with the data of the newest such
entry, and has nothing computed. -/
theorem handleInterest_of_find? {r : Relay} {source : FaceId} {face : Face}
    (hf : r.faces.get? source = some face) {interest : Interest}
    (hnonce : ∀ n ∈ interest.nonce, r.nonces.contains n = false) {e : CacheEntry}
    (hfind : r.store.entries.find? (·.answers interest) = some e) :
    (r.handleInterest source interest).1 = .ok .cacheHit ∧
      (r.handleInterest source interest).2.computations = r.computations ∧
      (r.handleInterest source interest).2.stats.computationsStarted = r.stats.computationsStarted ∧
      ∀ id, (r.handleInterest source interest).2.faces.contents id =
        r.faces.contents id ++ if id = source ∧ ¬ face.IsFull then [e.content] else [] := by
  have hsource : r.faces.contains source = true := by
    rw [FaceTable.contains_eq_isSome, hf]
    rfl
  obtain ⟨nonce, r', haccept⟩ := @accept_of_unseen (r.interestReceived source) interest hnonce
  obtain ⟨nonces, nonceSource, heq⟩ := (r.interestReceived source).accept_eq interest
  rw [haccept] at heq
  obtain rfl : r' = _ := heq
  have htouched : (r.faces.touch source r.clock).get? source =
      some { face with lastUsed := r.clock } := by
    have hid (face : Face) (h : face.id = source) : { face with lastUsed := r.clock }.id = source := h
    rw [FaceTable.touch, FaceTable.get?_modify hid, if_pos rfl, hf]
    rfl
  obtain ⟨store, hlookup⟩ := ContentStore.lookup_of_find? hfind r.clock
  rw [← ContentStore.lookup_withNonce _ _ nonce] at hlookup
  rw [handleInterest_of_accept hsource haccept]
  obtain ⟨houtcome, hcomputations, hstarted, hcontents⟩ := @resolve_of_hit
    { r.interestReceived source with nonces, source := nonceSource } source _ htouched _ _ _ hlookup
  refine ⟨houtcome, hcomputations, hstarted, fun id => ?_⟩
  rw [hcontents id]
  congr 1
  exact (r.faces.quiet_touch source r.clock).contents_eq id

/-- An entry that answers an Interest in the name of another entry is for a longer name, or for a part of
what the other one is for as a whole. -/
theorem longer_of_answers {store : ContentStore} (h : store.WellFormed) {newer older : List CacheEntry}
    {e e' : CacheEntry} (hentries : store.entries = newer ++ e :: older) (he' : e' ∈ newer)
    {interest : Interest} (hname : interest.name.agrees .exact e.content.name = true)
    (hanswers : e'.answers interest = true) :
    e.content.name.covers e'.content.name = true ∧
      (e.content.name.length < e'.content.name.length ∨
        e.content.name.chunk = none ∧ e'.content.name.chunk ≠ none) := by
  have hdistinct : e'.content.name.key ≠ e.content.name.key := by
    have hnodup := h.nodup
    rw [hentries, List.map_append, List.nodup_append] at hnodup
    exact hnodup.2.2 _ (List.mem_map_of_mem he') _ (List.mem_map_of_mem List.mem_cons_self)
  have hkey := Name.agrees_exact_iff.mp hname
  simp only [Name.key, Prod.mk.injEq] at hkey
  obtain ⟨hsuite, hcomponents, hchunk⟩ := hkey
  have hagrees : interest.name.agrees .request e'.content.name = true :=
    (Bool.and_eq_true_iff.mp hanswers).1
  simp only [Name.agrees, Bool.and_eq_true, Bool.or_eq_true, beq_iff_eq, Option.isNone_iff_eq_none,
    hsuite, hchunk] at hagrees
  obtain ⟨hsuite', hchunk', hcovers⟩ := hagrees
  rw [Name.covers, hcomponents] at hcovers
  refine ⟨hcovers, ?_⟩
  by_cases hlonger : e.content.name.length < e'.content.name.length
  · exact .inl hlonger
  · have hsame : e.content.name.components = e'.content.name.components :=
      (List.isPrefixOf_iff_prefix.mp hcovers).eq_of_length_le (Nat.not_lt.mp hlonger)
    have hother : e.content.name.chunk ≠ e'.content.name.chunk := by
      intro hchunks
      apply hdistinct
      rw [Name.key, Name.key, hsuite', hsame, hchunks]
    rcases hchunk' with hwhole | hpart
    · exact .inr ⟨hwhole, fun hnone => hother (hwhole.trans hnone.symm)⟩
    · exact absurd hpart hother

/-- An Interest in exactly the name of static data that satisfies it is answered from the content store,
with the newest data that satisfies it. That is the static data itself, unless data was stored since under
a longer name, or as a part of what is under this name, that satisfies the Interest too. -/
theorem cacheHit_of_static {r : Relay} (hr : r.Reachable) {source : FaceId} {face : Face}
    (hf : r.faces.get? source = some face) {newer older : List CacheEntry} {e : CacheEntry}
    (hentries : r.store.entries = newer ++ e :: older) (hstatic : e.isStatic = true)
    {interest : Interest} (hname : interest.name.agrees .exact e.content.name = true)
    (hsatisfied : interest.satisfiedBy e.content false = true)
    (hnonce : ∀ n ∈ interest.nonce, r.nonces.contains n = false) :
    (r.handleInterest source interest).1 = .ok .cacheHit ∧
      (∀ id, (r.handleInterest source interest).2.faces.contents id = r.faces.contents id ++
        if id = source ∧ ¬ face.IsFull then
          [((newer.find? (·.answers interest)).getD e).content]
        else []) ∧
      ∀ e' ∈ newer, e'.answers interest = true →
        e.content.name.covers e'.content.name = true ∧
          (e.content.name.length < e'.content.name.length ∨
            e.content.name.chunk = none ∧ e'.content.name.chunk ≠ none) := by
  have hwellFormed := wellFormedStore_of_reachable hr
  have hmem : e ∈ r.store.entries := by simp [hentries]
  have hanswers := hwellFormed.answers_of_static hmem hstatic hsatisfied
  have hfind : r.store.entries.find? (·.answers interest) =
      some ((newer.find? (·.answers interest)).getD e) := by
    rw [hentries, List.find?_append, List.find?_cons, hanswers]
    cases newer.find? (·.answers interest) <;> rfl
  obtain ⟨houtcome, -, -, hcontents⟩ := handleInterest_of_find? hf hnonce hfind
  exact ⟨houtcome, hcontents, fun e' he' => longer_of_answers hwellFormed hentries he' hname⟩

/-- Static data is asked for by its name, with older data under a longer name beside it. The static data
is the answer. -/
theorem cacheHit_of_static_alone :
    ∃ (r₀ r : Relay) (c older : Content) (interest : Interest), Relay.new {} (.ofSeed 0) = .ok r₀ ∧
      c = .ofPayload (.ofComponents [[0x61]]) [0x78] ∧
      older = .ofPayload (.ofComponents [[0x61], [0x62]]) [0x79] ∧
      r = r₀.performAll
        [.faceForPeer 0 (.unix "a"), .cacheContent older false, .cacheContent c true] ∧
      interest = (Interest.ofName c.name).withNonce 1 ∧
      (r.handleInterest ⟨1⟩ interest).1 = .ok .cacheHit ∧
      (r.handleInterest ⟨1⟩ interest).2.faces.contents ⟨1⟩ = [c] := by
  have hanswered {r : Relay} (hr : r.Reachable) {face : Face} (hf : r.faces.get? ⟨1⟩ = some face)
      (hroom : ¬ face.IsFull) (hqueue : r.faces.contents ⟨1⟩ = []) {e : CacheEntry}
      {older : List CacheEntry} (hentries : r.store.entries = [] ++ e :: older)
      (hstatic : e.isStatic = true) {c : Content} (hcontent : e.content = c) {interest : Interest}
      (hname : interest.name.agrees .exact c.name = true)
      (hsatisfied : interest.satisfiedBy c false = true)
      (hnonce : ∀ n ∈ interest.nonce, r.nonces.contains n = false) :
      (r.handleInterest ⟨1⟩ interest).1 = .ok .cacheHit ∧
        (r.handleInterest ⟨1⟩ interest).2.faces.contents ⟨1⟩ = [c] := by
    subst hcontent
    obtain ⟨houtcome, hcontents, -⟩ :=
      cacheHit_of_static hr hf hentries hstatic hname hsatisfied hnonce
    refine ⟨houtcome, ?_⟩
    rw [hcontents, hqueue, if_pos ⟨rfl, hroom⟩]
    rfl
  have hnew : Relay.new {} (.ofSeed 0) = .ok _ := rfl
  refine ⟨_, _, _, _, _, hnew, rfl, rfl, rfl, rfl,
    hanswered (.performAll (.new hnew) fun _ _ => trivial) rfl ?_ ?_ rfl rfl ?_ ?_ ?_ ?_⟩
  · decide
  · decide +kernel
  · rfl
  · decide +kernel
  · decide +kernel
  · rintro n ⟨⟩
    decide +kernel

/-- Static data is asked for by its name, with newer data under a longer name beside it. The newer data
is the answer. -/
theorem newer_answers :
    ∃ (r₀ r : Relay) (c newer : Content) (interest : Interest), Relay.new {} (.ofSeed 0) = .ok r₀ ∧
      c = .ofPayload (.ofComponents [[0x61]]) [0x78] ∧
      newer = .ofPayload (.ofComponents [[0x61], [0x62]]) [0x79] ∧ newer ≠ c ∧
      r = r₀.performAll
        [.faceForPeer 0 (.unix "a"), .cacheContent c true, .cacheContent newer false] ∧
      (∃ e, r.store.get? c.name = some e ∧ e.content = c ∧ e.isStatic = true) ∧
      r.faces.contains ⟨1⟩ = true ∧
      interest = (Interest.ofName c.name).withNonce 1 ∧
      interest.name.agrees .exact c.name = true ∧ interest.satisfiedBy c false = true ∧
      r.nonces.contains 1 = false ∧
      (r.handleInterest ⟨1⟩ interest).2.faces.contents ⟨1⟩ = [newer] := by
  have hnew : Relay.new {} (.ofSeed 0) = .ok _ := rfl
  refine ⟨_, _, _, _, _, hnew, rfl, rfl, ?_, rfl, ⟨_, rfl, rfl, rfl⟩, ?_, rfl, ?_, ?_, ?_, ?_⟩
  · decide
  · decide +kernel
  · decide +kernel
  · decide +kernel
  · decide +kernel
  · decide +kernel

/-- An Interest in a pinned name that asks for nothing besides is answered from the content store, and has
nothing computed. -/
theorem cacheHit_of_pins {r : Relay} (hr : r.Reachable) {name : Name} {kept : Content → Prop}
    (hpins : r.store.Pins name kept) {source : FaceId} (hsource : r.faces.contains source = true)
    {interest : Interest} (hname : interest.name.agrees .exact name = true)
    (hselectors : interest.selectors = .ofSuite interest.name.suite)
    (hnonce : ∀ n ∈ interest.nonce, r.nonces.contains n = false) :
    (r.handleInterest source interest).1 = .ok .cacheHit ∧
      (r.handleInterest source interest).2.computations = r.computations ∧
      (r.handleInterest source interest).2.stats.computationsStarted =
        r.stats.computationsStarted := by
  rw [FaceTable.contains_eq_isSome] at hsource
  obtain ⟨face, hf⟩ := Option.isSome_iff_exists.mp hsource
  obtain ⟨e, he, hkey⟩ := hpins.present
  obtain ⟨hstatic, -⟩ := hpins.pinned e he hkey
  have hexact : interest.name.agrees .exact e.content.name = true :=
    Name.agrees_exact_iff.mpr ((Name.agrees_exact_iff.mp hname).trans hkey.symm)
  have hsatisfied : interest.satisfiedBy e.content false = true := by
    rw [Interest.satisfiedBy_of_exact hexact, hselectors]
    cases interest.name.suite <;> rfl
  have hanswers := (wellFormedStore_of_reachable hr).answers_of_static he hstatic hsatisfied
  cases hfind : r.store.entries.find? (·.answers interest) with
  | none => exact absurd hanswers (List.find?_eq_none.mp hfind e he)
  | some found =>
    obtain ⟨houtcome, hcomputations, hstarted, -⟩ := handleInterest_of_find? hf hnonce hfind
    exact ⟨houtcome, hcomputations, hstarted⟩

/-- What is kept by all changes of the content store that an operation may make holds where a computation
comes to its result. -/
theorem Completes.store {P : ContentStore → Prop} {r s : Relay} {op : Operation} {id : ComputationId}
    {origin : Interest} {result : Bytes} (h : r.Completes op id s origin result) (hr : P r.store)
    (hchange : ∀ store c, r.Alters op c → P store → P (store.change c)) : P s.store := by
  have hlookup (store : ContentStore) (interest : Interest) (now : Nat) (hstore : P store) :
      P (store.change (.lookup interest now)) := hchange store _ trivial hstore
  cases h with
  | @atOnce r' _ source interest accepted _ _ _ haccept _ hfinished =>
    have haccepted : P r'.store := by
      obtain ⟨nonces, nonceSource, heq⟩ := (r.interestReceived source).accept_eq interest
      rw [haccept] at heq
      rw [show r' = _ from heq]
      exact hr
    have hbegun : P ((r'.begun source accepted).2.carryOn (r'.begun source accepted).1).2.store :=
      store_begin (r := (r'.withInterest source accepted).reductionStarted) hlookup haccepted accepted
    rw [hfinished] at hbegun
    exact hbegun
  | @resumed _ s₀ _ _ payload _ _ hmem hresult =>
    have hbefore : P s₀.store := (store_perform hr hchange).2 _ hmem
    have hresumed := store_resumeComputation hlookup hbefore id payload
    rw [hresult] at hresumed
    exact hresumed

/-- The result of a computation pins the name of its Interest, unless the same data is there already and
is not static. -/
theorem Completes.pins {r s : Relay} (hr : r.Reachable) (hcapacity : r.store.capacity = none)
    {op : Operation} {id : ComputationId} {origin : Interest} {result : Bytes}
    (h : r.Completes op id s origin result)
    (hsame : ∀ e, s.store.get? origin.name = some e → e.content.payload = result →
      e.isStatic = true) :
    (r.perform op).store.Pins origin.name fun _ => True := by
  have hwellFormed : s.store.WellFormed :=
    h.store (wellFormedStore_of_reachable hr) fun _ c _ hstore => hstore.change c
  have hunbounded : s.store.capacity = none := by
    refine h.store (P := fun store => store.capacity = none) hcapacity fun store c hc hstore => ?_
    rw [capacity_change_of_alters (List.ne_nil_of_mem h.delivers) hc, hstore]
  have hresult : (s.withResult origin result).store.Pins origin.name fun _ => True := by
    rw [withResult, store_cache]
    -- The name of a result differs from that of the Interest in a flag, which its key leaves out.
    have hpins := hwellFormed.pins_put hunbounded (resultContent origin result) s.clock hsame
    exact ⟨hpins.present, hpins.pinned⟩
  obtain ⟨rest, -, hlast⟩ := h.publishes
  have hkept (events : List Event) :
      Kept (Handled events) fun t => t.store.Pins origin.name fun _ => True :=
    kept_store (P := fun store => store.Pins origin.name fun _ => True) (fun _ _ => trivial)
      fun _ c _ hstore => hstore.change c fun _ _ _ _ _ => .inl trivial
  rw [hlast]
  exact ((hkept _).wake ((hkept []).announce hresult)).1

/-- Once a computation has come to its result, an Interest in exactly the name of the expression that asks
for nothing besides is answered from the content store, and has nothing computed: whatever happened before,
and whatever happens in between. The content store must not be bounded. And where the same data is in it
already when the computation comes to its result, this data must be static, as it stays what it is. -/
theorem cacheHit_of_completes {r s : Relay} (hr : r.Reachable) (hcapacity : r.store.capacity = none)
    {op : Operation} {id : ComputationId} {origin : Interest} {result : Bytes}
    (h : r.Completes op id s origin result)
    (hsame : ∀ e, s.store.get? origin.name = some e → e.content.payload = result →
      e.isStatic = true)
    (ops : List Operation) {source : FaceId} {interest : Interest}
    (hsource : ((r.perform op).performAll ops).faces.contains source = true)
    (hname : interest.name.agrees .exact origin.name = true)
    (hselectors : interest.selectors = .ofSuite interest.name.suite)
    (hnonce : ∀ n ∈ interest.nonce, ((r.perform op).performAll ops).nonces.contains n = false) :
    (((r.perform op).performAll ops).handleInterest source interest).1 = .ok .cacheHit ∧
      (((r.perform op).performAll ops).handleInterest source interest).2.computations =
        ((r.perform op).performAll ops).computations ∧
      (((r.perform op).performAll ops).handleInterest source interest).2.stats.computationsStarted =
        ((r.perform op).performAll ops).stats.computationsStarted := by
  have hcompleted : (r.perform op).Reachable := .perform hr trivial
  have hlater : ((r.perform op).performAll ops).Reachable := hcompleted.performAll fun _ _ => trivial
  have hpins := pins_performAll (h.pins hr hcapacity hsame) ops
  exact cacheHit_of_pins hlater hpins hsource hname hselectors hnonce

/-- An expression that is its own result is asked for again, two ticks after it was computed. -/
theorem cacheHit_of_completes_later :
    ∃ (r₀ r later : Relay) (first again : Interest), Relay.new {} (.ofSeed 0) = .ok r₀ ∧
      r = r₀.performAll [.faceForPeer 0 (.unix "a")] ∧
      first = (Interest.ofName (.ofComponents [[0x78], Name.expressionMarker])).withNonce 1 ∧
      again = { first with nonce := some 2 } ∧
      (∃ s result, r.Completes (.handleInterest ⟨1⟩ first) ⟨0⟩ s first result) ∧
      later = (r.perform (.handleInterest ⟨1⟩ first)).performAll [.tick, .tick] ∧
      (later.handleInterest ⟨1⟩ again).1 = .ok .cacheHit := by
  have hagain {r r' s : Relay} {first : Interest} (result : Bytes) (hr : r.Reachable)
      (hcapacity : r.store.capacity = none) (hid : r.computations.nextId = 0)
      (hsource : r.faces.contains ⟨1⟩ = true)
      (haccept : (r.interestReceived ⟨1⟩).accept first = (some first, r'))
      (hreduces : r'.Reduces first)
      (hfinished : (r'.begun ⟨1⟩ first).2.carryOn (r'.begun ⟨1⟩ first).1 =
        (.ok (.finished first result), s))
      (hnone : s.store.get? first.name = none)
      (hselectors : first.selectors = .ofSuite first.name.suite) {later : Relay}
      (hlater : later = (r.perform (.handleInterest ⟨1⟩ first)).performAll [.tick, .tick])
      (hawaited : (s.announce first result).1 = [])
      (hthere : ((s.announce first result).2.performAll [.tick, .tick]).faces.contains ⟨1⟩ = true)
      (hnonce : ((s.announce first result).2.performAll [.tick, .tick]).nonces.contains 2 = false) :
      (∃ s result, r.Completes (.handleInterest ⟨1⟩ first) ⟨0⟩ s first result) ∧
        later = (r.perform (.handleInterest ⟨1⟩ first)).performAll [.tick, .tick] ∧
        (later.handleInterest ⟨1⟩ { first with nonce := some 2 }).1 = .ok .cacheHit := by
    have hafter : r.perform (.handleInterest ⟨1⟩ first) = (s.announce first result).2 :=
      congrArg Prod.snd (handleInterest_of_finished hsource haccept hreduces hfinished hawaited)
    rw [← hafter] at hthere hnonce
    have hcompletes := Completes.atOnce hsource haccept hreduces hfinished
    rw [hid] at hcompletes
    have hsame : ∀ e, s.store.get? first.name = some e → e.content.payload = result →
        e.isStatic = true := by
      intro e he
      rw [hnone] at he
      cases he
    have hname : { first with nonce := some 2 : Interest }.name.agrees .exact first.name = true :=
      Name.agrees_exact_iff.mpr rfl
    have hunseen : ∀ n ∈ { first with nonce := some 2 : Interest }.nonce,
        ((r.perform (.handleInterest ⟨1⟩ first)).performAll [.tick, .tick]).nonces.contains n = false := by
      rintro n ⟨⟩
      exact hnonce
    have hhit :=
      cacheHit_of_completes hr hcapacity hcompletes hsame _ hthere hname hselectors hunseen
    rw [← hlater] at hhit
    exact ⟨⟨s, result, hcompletes⟩, hlater, hhit.1⟩
  have hnew : Relay.new {} (.ofSeed 0) = .ok _ := rfl
  refine ⟨_, _, _, _, _, hnew, rfl, rfl, rfl, hagain [0x78] (.performAll (.new hnew) fun _ _ => trivial)
    ?_ ?_ ?_ (Prod.ext ?_ rfl) ⟨?_, ?_, ?_⟩ (Prod.ext (eq_finished_of_result? ?_) rfl) ?_ ?_ rfl ?_ ?_ ?_⟩
  all_goals decide +kernel

/-- The result of an expression has come from elsewhere, and is stale, when it is asked for fresh and is
computed. It stays what it is, so it is dropped after a while, and is computed once more. -/
theorem computed_again :
    ∃ (r₀ r later : Relay) (name : Name) (first again : Interest),
      Relay.new { contentTimeout := 1 } (.ofSeed 0) = .ok r₀ ∧
      name = .ofComponents [[0x78], Name.expressionMarker] ∧
      r = r₀.performAll
        [.addStaticFace 0 (.unix "a") {}, .addStaticFace 0 (.unix "b") {},
          .addRoute (.ofComponents []) ⟨2⟩ .ndn2013,
          .handleInterest ⟨1⟩ ((Interest.ofName (.ofComponents [[0x78]])).withNonce 1),
          .handleContent ⟨2⟩ { Content.ofPayload name [0x78] with freshness := some ⟨0⟩ },
          .tick] ∧
      first = { name, selectors := .ndn2013 { mustBeFresh := true }, nonce := some 2 } ∧
      again = (Interest.ofName name).withNonce 3 ∧
      r.store.capacity = none ∧ (r.handleInterest ⟨1⟩ first).1 = .ok .computed ∧
      later = (r.perform (.handleInterest ⟨1⟩ first)).performAll [.tick, .tick] ∧
      later.faces.contains ⟨1⟩ = true ∧ later.nonces.contains 3 = false ∧
      (later.handleInterest ⟨1⟩ again).1 = .ok .computed ∧
      (later.handleInterest ⟨1⟩ again).2.stats.computationsStarted =
        later.stats.computationsStarted + 1 := by
  have hcomputed {r r' s : Relay} {interest : Interest} (hsource : r.faces.contains ⟨1⟩ = true)
      (haccept : (r.interestReceived ⟨1⟩).accept interest = (some interest, r'))
      (hreduces : r'.Reduces interest)
      (hfinished : (r'.begun ⟨1⟩ interest).2.carryOn (r'.begun ⟨1⟩ interest).1 =
        (.ok (.finished interest [0x78]), s))
      (hawaited : (s.announce interest [0x78]).1 = []) :
      r.handleInterest ⟨1⟩ interest = (.ok .computed, (s.announce interest [0x78]).2) :=
    handleInterest_of_finished hsource haccept hreduces hfinished hawaited
  have hstarted {later s : Relay} {again : Interest}
      (h : later.handleInterest ⟨1⟩ again = (.ok .computed, s))
      (hcount : s.stats.computationsStarted = later.stats.computationsStarted + 1) :
      (later.handleInterest ⟨1⟩ again).1 = .ok .computed ∧
        (later.handleInterest ⟨1⟩ again).2.stats.computationsStarted =
          later.stats.computationsStarted + 1 := by
    rw [h]
    exact ⟨rfl, hcount⟩
  have hnew : Relay.new { contentTimeout := 1 } (.ofSeed 0) = .ok _ := rfl
  refine ⟨_, _, _, _, _, _, hnew, rfl,
    congrArg (·.perform .tick) (perform_handleContent_of_unawaited ?_ ?_ ?_).1.symm, rfl, rfl, ?_, ?_,
    congrArg (·.2.performAll [.tick, .tick]) (hcomputed ?_ (Prod.ext ?_ rfl) ⟨?_, ?_, ?_⟩
      (Prod.ext (eq_finished_of_result? ?_) rfl) ?_).symm, ?_, ?_,
    hstarted (hcomputed ?_ (Prod.ext ?_ rfl) ⟨?_, ?_, ?_⟩ (Prod.ext (eq_finished_of_result? ?_) rfl) ?_) ?_⟩
  all_goals decide +kernel

/-- Data that is put in as static data, and is new, pins its name: there is static data under it ever
after, and it is this data itself as long as no data with another payload is delivered under the name and
none is put in by hand. -/
theorem pinned_of_inserted {r : Relay} {c : Content} (h : (r.cacheContent c true).1 = .ok .inserted)
    {ops : List Operation} (hops : ∀ data isStatic, .cacheContent data isStatic ∉ ops) :
    ∃ e, ((r.cacheContent c true).2.performAll ops).store.get? c.name = some e ∧ e.isStatic = true ∧
      ((∀ s data, .deliver s data ∈ (r.cacheContent c true).2.journalAll ops →
        data.name.agrees .exact c.name = true → data.payload = c.payload) → e.content = c) := by
  have hpins : (r.cacheContent c true).2.store.Pins c.name (· = c) := by
    unfold cacheContent at h ⊢
    split at h
    · next outcome store hput =>
      cases h
      exact ContentStore.pins_of_inserted hput
    · cases h
  have hstatic : (r.cacheContent c true).2.store.Pins c.name fun _ => True :=
    ⟨hpins.present, fun e he hkey => ⟨(hpins.pinned e he hkey).1, trivial⟩⟩
  obtain ⟨e, hget, hpinned, -⟩ := (pins_performAll hstatic ops).get?
  refine ⟨e, hget, hpinned, fun hsame => ?_⟩
  have hkept := pins_performAll_of_journalAll hpins hops fun s data hmem hkey =>
    hsame s data hmem (Name.agrees_exact_iff.mpr hkey)
  obtain ⟨e', hget', -, hcontent⟩ := hkept.get?
  rw [hget] at hget'
  cases hget'
  exact hcontent

/-- Other data under the name of static data comes unasked. It changes nothing. -/
theorem pinned_of_inserted_unasked :
    ∃ (r₀ r : Relay) (c other : Content) (ops : List Operation),
      Relay.new {} (.ofSeed 0) = .ok r₀ ∧ c = .ofPayload (.ofComponents [[0x61]]) [0x78] ∧
      other = .ofPayload (.ofComponents [[0x61]]) [0x79] ∧
      r = r₀.performAll [.faceForPeer 0 (.unix "a")] ∧
      ops = [.handleContent ⟨1⟩ other, .tick] ∧
      (r.cacheContent c true).1 = .ok .inserted ∧
      ∃ e, ((r.cacheContent c true).2.performAll ops).store.get? c.name = some e ∧
        e.isStatic = true ∧ e.content = c := by
  have hstays {r : Relay} {c : Content} (h : (r.cacheContent c true).1 = .ok .inserted)
      {ops : List Operation} (hops : ∀ data isStatic, .cacheContent data isStatic ∉ ops)
      (hnone : (r.cacheContent c true).2.journalAll ops = []) :
      (r.cacheContent c true).1 = .ok .inserted ∧
        ∃ e, ((r.cacheContent c true).2.performAll ops).store.get? c.name = some e ∧
          e.isStatic = true ∧ e.content = c := by
    obtain ⟨e, hget, hstatic, hcontent⟩ := pinned_of_inserted h hops
    refine ⟨h, e, hget, hstatic, hcontent fun s data hmem => ?_⟩
    rw [hnone] at hmem
    exact absurd hmem List.not_mem_nil
  have hnew : Relay.new {} (.ofSeed 0) = .ok _ := rfl
  refine ⟨_, _, _, _, _, hnew, rfl, rfl, rfl, rfl, hstays ?_ ?_ ?_⟩
  · decide +kernel
  · simp
  · decide +kernel

/-- A face asks for data under the name of static data, but from a certain publisher. What comes from there
takes the place of the static data. -/
theorem replaced_while_pinned :
    ∃ (r₀ r : Relay) (c other : Content) (ops : List Operation),
      Relay.new {} (.ofSeed 0) = .ok r₀ ∧ c = .ofPayload (.ofComponents [[0x61]]) [0x78] ∧
      other = { Content.ofPayload c.name [0x79] with details := .ndn2013 (some [0x01]) } ∧
      other.payload ≠ c.payload ∧
      r = r₀.performAll
        [.faceForPeer 0 (.unix "a"), .faceForPeer 0 (.unix "b"),
          .addRoute (.ofComponents []) ⟨2⟩ .ndn2013] ∧
      ops =
        [.handleInterest ⟨1⟩
            { name := c.name
              selectors := .ndn2013 { publisherLocator := some [0x01] }
              nonce := some 1 },
          .handleContent ⟨2⟩ other] ∧
      (r.cacheContent c true).1 = .ok .inserted ∧
      ((r.cacheContent c true).2.performAll ops).stats.computationsCompleted = 0 ∧
      ∃ e, ((r.cacheContent c true).2.performAll ops).store.get? c.name = some e ∧
        e.isStatic = true ∧ e.content = other := by
  have hfound {r s : Relay} {ops : List Operation} {name : Name} {other : Content}
      (hops : r.performAll ops = s.perform (.handleContent ⟨2⟩ other))
      (hsource : s.faces.contains ⟨2⟩ = true) (hanswered : (s.pending.takeAnswered other).1 ≠ [])
      (hnone : s.awaitedBy ⟨2⟩ other = [])
      (hcompleted : (s.handedOver ⟨2⟩ other).2.stats.computationsCompleted = 0)
      (hentry : ((s.handedOver ⟨2⟩ other).2.store.get? name).any
        (fun e => e.isStatic && e.content == other) = true) :
      (r.performAll ops).stats.computationsCompleted = 0 ∧
        ∃ e, (r.performAll ops).store.get? name = some e ∧ e.isStatic = true ∧ e.content = other := by
    rw [hops, (perform_handleContent_of_unawaited hsource hanswered hnone).1]
    refine ⟨hcompleted, ?_⟩
    cases hget : (s.handedOver ⟨2⟩ other).2.store.get? name with
    | none =>
      rw [hget] at hentry
      cases hentry
    | some e =>
      rw [hget] at hentry
      exact ⟨e, rfl, by simpa using hentry⟩
  have hnew : Relay.new {} (.ofSeed 0) = .ok _ := rfl
  refine ⟨_, _, _, _, _, hnew, rfl, rfl, ?_, rfl, rfl, ?_, hfound (s := Relay.perform _ _) rfl ?_ ?_ ?_ ?_ ?_⟩
  all_goals decide +kernel

end Relay

end NamedFunctions
