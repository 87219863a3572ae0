import NamedFunctions.Proofs.ContentStore.Freshness
import NamedFunctions.Proofs.Relay.Pinning
import NamedFunctions.Proofs.Relay.Settlement

/-!
# Data that can be had again

Data that a relay has fetched for somebody is there for the next one who asks in the same way, also where the
data has to be fresh or of a certain publisher. Only the same payload under the same name stands in the way of
that: a relay that has it already does not notice that it came anew.
-/

namespace NamedFunctions

namespace Relay

/-- Data for which no computation waits resumes none. -/
theorem awaitedBy_eq_nil {r : Relay} {content : Content}
    (h : ∀ e ∈ r.pending.entries, e.interest.satisfiedBy content false = true → e.computations = [])
    (source : FaceId) : r.awaitedBy source content = [] := by
  have hnone : (r.pending.takeAnswered content).1.flatMap (·.computations) = [] := by
    rw [List.flatMap_eq_nil_iff]
    intro e he
    obtain ⟨hmem, hsatisfied⟩ := List.mem_filter.mp he
    exact h e hmem hsatisfied
  have hwaiting : (r.handedOver source content).1.2 = [] := by
    rw [handedOver, waiting_serve _ content (hnone ▸ List.nodup_nil), hnone]
  rw [awaitedBy, hwaiting, List.map_nil]

/-- Data that is put into a store has an entry under its name then with its payload and its details, which is
not stale, and static if that was asked for, so a look-up answers every Interest that the data satisfies. In a
relay, data that arrives for somebody is in the store before any computation is resumed, and whoever asks a
relay with this store has a cache hit. Only the same payload makes no difference where it is already, so the
entry there has to be fresh, of the same publisher, and static if that was asked for. -/
theorem available_of_put {store store' : ContentStore} {content : Content} {isStatic : Bool} {now : Nat}
    {outcome : PutOutcome} (hput : store.put content isStatic now = some (outcome, store'))
    (hcaching : outcome ≠ .transient)
    (hsame : ∀ old, store.get? content.name = some old → old.content.payload = content.payload →
      old.isStale = false ∧ old.content.details = content.details ∧
        (isStatic = true → old.isStatic = true)) :
    (∃ e, store'.get? content.name = some e ∧ e.content.payload = content.payload ∧
      e.content.details = content.details ∧ (isStatic = true → e.isStatic = true) ∧ e.isStale = false) ∧
    (∀ interest later, interest.satisfiedBy content false = true →
      ∃ e ∈ store'.entries, e.answers interest = true ∧
        ∃ store'', store'.lookup interest later = some (e.content, store'')) ∧
    (∀ (r : Relay) (source : FaceId), r.store = store → r.clock = now → isStatic = false →
      r.faces.contains source = true →
      (∃ e ∈ r.pending.entries, e.interest.satisfiedBy content false = true) →
      ∃ (queued : Nat) (s : Relay) (agenda : List (ComputationId × Bytes)),
        r.handleContent source content = (.ok (.delivered queued agenda.length), s.wake agenda) ∧
        s.store = store' ∧
        ((∀ e ∈ r.pending.entries, e.interest.satisfiedBy content false = true → e.computations = []) →
          agenda = [])) ∧
    ∀ (r : Relay) (asker : FaceId) (face : Face) (interest : Interest), r.store = store' →
      r.faces.get? asker = some face → (∀ n ∈ interest.nonce, r.nonces.contains n = false) →
      interest.satisfiedBy content false = true →
      (r.handleInterest asker interest).1 = .ok .cacheHit ∧
        ∃ e ∈ store'.entries, e.answers interest = true ∧
          ∀ id, (r.handleInterest asker interest).2.faces.contents id =
            r.faces.contents id ++ if id = asker ∧ ¬ face.IsFull then [e.content] else [] := by
  have hstands : ∀ old, store.get? content.name = some old → old.content.payload = content.payload →
      old.StandsFor content isStatic := by
    intro old hold hpayload
    obtain ⟨hfresh, hdetails, hstatic⟩ := hsame old hold hpayload
    exact ⟨hpayload, hdetails, hstatic, hfresh⟩
  obtain ⟨e, hget, he⟩ := ContentStore.exists_standsFor_of_put hput hcaching hstands
  have hnewest (interest : Interest) (hsatisfied : interest.satisfiedBy content false = true) :=
    ContentStore.exists_newest_of_standsFor hget he hsatisfied
  refine ⟨⟨e, hget, he.payload, he.details, he.isStatic, he.isFresh⟩, ?_, ?_, ?_⟩
  · intro interest later hsatisfied
    obtain ⟨newest, hmem, hanswers, hfind⟩ := hnewest interest hsatisfied
    exact ⟨newest, hmem, hanswers, ContentStore.lookup_of_find? hfind later⟩
  · rintro r source rfl rfl rfl hsource ⟨e, hmem, hsatisfied⟩
    refine ⟨_, _, _, (handleContent_of_answered hsource (answered_of_satisfied hmem hsatisfied)).1, ?_,
      fun hnone => awaitedBy_eq_nil hnone source⟩
    rw [store_handedOver, store_of_put hput]
  · rintro r asker face interest rfl hface hnonce hsatisfied
    obtain ⟨newest, hmem, hanswers, hfind⟩ := hnewest interest hsatisfied
    obtain ⟨houtcome, -, -, hcontents⟩ := handleInterest_of_find? hface hnonce hfind
    exact ⟨houtcome, newest, hmem, hanswers, hcontents⟩

/-- A face wants fresh data of a publisher where there is stale data of no publisher. The data that comes for
it takes the place of what was there, and answers the same Interest when it is made again. -/
theorem available_of_put_fetched :
    ∃ (r₀ r : Relay) (old content : Content) (interest : Interest) (store' : ContentStore),
      Relay.new {} (.ofSeed 0) = .ok r₀ ∧
      old = { Content.ofPayload (.ofComponents [[0x61]]) [0x78] with freshness := some ⟨0⟩ } ∧
      content = { Content.ofPayload (.ofComponents [[0x61]]) [0x79] with details := .ndn2013 (some [1]) } ∧
      interest =
        { Interest.ofName (.ofComponents [[0x61]]) with
          selectors := .ndn2013 { mustBeFresh := true, publisherLocator := some [1] }, nonce := some 1 } ∧
      r = r₀.performAll
        [.faceForPeer 0 (.unix "a"), .faceForPeer 0 (.unix "b"), .addRoute (.ofComponents []) ⟨2⟩ .ndn2013,
          .cacheContent old false, .tick, .handleInterest ⟨1⟩ interest] ∧
      r.store.get? content.name = some { CacheEntry.fresh old false 0 with isStale := true } ∧
      store' = { entries := [.fresh content false 1], capacity := none } ∧
      r.store.put content false r.clock = some (.replaced, store') ∧
      (r.handleContent ⟨2⟩ content).2.store = store' ∧
      ((r.handleContent ⟨2⟩ content).2.handleInterest ⟨1⟩ { interest with nonce := some 2 }).1 =
        .ok .cacheHit := by
  have hagain {r : Relay} {store' : ContentStore} {content : Content}
      (hother : (r.store.get? content.name).all (·.content.payload != content.payload) = true)
      (hput : r.store.put content false r.clock = some (.replaced, store'))
      (hsource : r.faces.contains ⟨2⟩ = true)
      (hasked : r.pending.entries.any (·.interest.satisfiedBy content false) = true)
      (hcomputations : r.pending.entries.all (·.computations.isEmpty) = true)
      (hanswered : (r.pending.takeAnswered content).1 ≠ []) (hnone : r.awaitedBy ⟨2⟩ content = [])
      (hface : (r.handedOver ⟨2⟩ content).2.faces.contains ⟨1⟩ = true) {interest : Interest}
      {nonce : UInt32} (hgiven : interest.nonce = some nonce)
      (hnonce : (r.handedOver ⟨2⟩ content).2.nonces.contains nonce = false)
      (hsame : interest.satisfiedBy content false = true) :
      (r.handleContent ⟨2⟩ content).2.store = store' ∧
        ((r.handleContent ⟨2⟩ content).2.handleInterest ⟨1⟩ interest).1 = .ok .cacheHit := by
    have hover := (perform_handleContent_of_unawaited hsource hanswered hnone).1
    rw [perform] at hover
    rw [← hover] at hface hnonce
    rw [FaceTable.contains_eq_isSome] at hface
    obtain ⟨face, hf⟩ := Option.isSome_iff_exists.mp hface
    obtain ⟨-, -, hfetched, hagain⟩ :=
      available_of_put hput (by decide) fun old hold hpayload => by
        simp [hold, hpayload] at hother
    obtain ⟨queued, s, agenda, hhandled, hstore, hagenda⟩ :=
      hfetched r ⟨2⟩ rfl rfl rfl hsource (List.any_eq_true.mp hasked)
    obtain rfl := hagenda fun e he _ => List.isEmpty_iff.mp (List.all_eq_true.mp hcomputations e he)
    have hafter : (r.handleContent ⟨2⟩ content).2.store = store' := by
      rw [hhandled, wake]
      exact hstore
    have hunseen : ∀ n ∈ interest.nonce, (r.handleContent ⟨2⟩ content).2.nonces.contains n = false := by
      rw [hgiven]
      rintro n ⟨⟩
      exact hnonce
    exact ⟨hafter, (hagain _ _ _ _ hafter hf hunseen hsame).1⟩
  have hnew : Relay.new {} (.ofSeed 0) = .ok _ := rfl
  refine ⟨_, _, _, _, _, _, hnew, rfl, rfl, rfl, rfl, ?_, rfl, ?_,
    hagain ?_ ?_ ?_ ?_ ?_ ?_ ?_ ?_ rfl ?_ ?_⟩
  all_goals decide +kernel

/-- The payload of a stale entry comes again, as static data of a publisher. It counts as a duplicate, and the
entry stays stale, not static and of no publisher: no look-up answers those who want fresh data or that of the
publisher, though the data that came satisfies them. -/
theorem stale_after_put :
    ∃ (store : ContentStore) (old content : Content) (fresh published : Interest),
      old = .ofPayload (.ofComponents [[0x61]]) [0x78] ∧
      content = { old with details := .ndn2013 (some [1]) } ∧
      store = ContentStore.changeAll { capacity := none } [.put old false 0, .markStale old.name] ∧
      store.put content true 1 = some (.duplicate, store) ∧
      (∃ e, store.get? content.name = some e ∧ e.isStale = true ∧ e.isStatic = false ∧
        e.content.details ≠ content.details) ∧
      fresh = { Interest.ofName old.name with selectors := .ndn2013 { mustBeFresh := true } } ∧
      fresh.satisfiedBy content false = true ∧ store.lookup fresh 1 = none ∧
      published = { Interest.ofName old.name with selectors := .ndn2013 { publisherLocator := some [1] } } ∧
      published.satisfiedBy content false = true ∧ store.lookup published 1 = none := by
  refine ⟨_, _, _, _, _, rfl, rfl, rfl, ?_, ⟨_, rfl, ?_, ?_, ?_⟩, rfl, ?_, ?_, rfl, ?_, ?_⟩
  all_goals decide

end Relay

end NamedFunctions
