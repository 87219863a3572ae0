import NamedFunctions.Proofs.PendingTable.Evolution
import NamedFunctions.Proofs.Relay.Pinning
import NamedFunctions.Proofs.Relay.Queueing

/-!
# Interests that are sent again

With each tick a relay sends a pending Interest again as it was when it became pending, its nonce
included. A relay that the Interest comes to for the second time answers it from the content store if it no
longer knows the nonce. As long as it does it takes the Interest for one that has come back in a loop, also
if its own answer was lost on the way.
-/

namespace NamedFunctions

/-- A nonce that is recorded is known. -/
theorem NonceTable.contains_record (table : NonceTable) (nonce : UInt32) (now : Nat) :
    (table.record nonce now).2.contains nonce = true := by
  unfold record
  split
  · next hknown => exact hknown
  · simp [contains]

/-- A nonce that is known after another one was recorded was known before. -/
theorem NonceTable.contains_of_record {table : NonceTable} {nonce other : UInt32} {now : Nat}
    (h : (table.record nonce now).2.contains other = true) :
    other = nonce ∨ table.contains other = true := by
  unfold record at h
  split at h
  · exact .inr h
  · obtain ⟨record, hmem, hother⟩ := List.any_eq_true.mp h
    rcases List.mem_append.mp hmem with hkept | hadded
    · exact .inr (List.any_eq_true.mpr ⟨record, List.mem_of_mem_drop hkept, hother⟩)
    · rw [List.mem_singleton.mp hadded] at hother
      exact .inl (beq_iff_eq.mp hother).symm

namespace Relay

open PendingTable (Evolved)

variable {r r' : Relay} {agenda agenda' : List ComputationId} {events : List Event}

private theorem Carried.evolved {id : ComputationId} {outcome : Except RelayError Settled}
    (h : Carried r id outcome r') : Evolved r.pending r'.pending := by
  cases h with
  | stopped => exact .refl _
  | joined => exact .addRequester _ _ _ _ _
  | issued => exact .insert _ _ _ _
  | stranded => exact .withdraw _ _ _ _

private theorem evolved_step (h : Step r agenda events r' agenda') : Evolved r.pending r'.pending := by
  cases h with
  | aside hpending => exact hpending ▸ .refl _
  | ask => exact .insert _ _ _ _
  | join => exact .addRequester _ _ _ _ _
  | withdraw => exact .withdraw _ _ _ _
  | answer source _ content =>
    rw [pending_send]
    exact .refl _
  | deliver => exact .filter _ _
  | resume _ _ hcarried => exact hcarried.evolved
  | miss => exact .refl _
  | begin hcarried => exact hcarried.evolved

private theorem evolved_course (h : Course r agenda events r' agenda') : Evolved r.pending r'.pending := by
  induction h with
  | refl => exact .refl _
  | step first _ ih => exact (evolved_step first).trans ih

private theorem evolved_removeFace (r : Relay) (id : FaceId) :
    Evolved r.pending (r.removeFace id).2.pending :=
  removeFace_induction (motive := fun s => Evolved r.pending s.pending) r id (fun _ => .refl _)
    fun _ _ => .dropRequester _ _

private theorem evolved_removeFaces (r : Relay) (ids : List FaceId) :
    Evolved r.pending (r.removeFaces ids).pending := by
  induction ids generalizing r with
  | nil => exact .refl _
  | cons id ids ih => exact (r.evolved_removeFace id).trans (ih _)

private theorem evolved_swept {entry : PendingId} (h : Swept r entry r') : Evolved r.pending r'.pending := by
  cases h with
  | missing => exact .refl _
  | expired => exact .filter _ _
  | retried => exact .modify _ _ (fun _ => rfl) fun _ => rfl

private theorem evolved_sweeps (ids : List PendingId) (sweep : Sweep) :
    Evolved sweep.2.pending (ids.foldl sweepPending sweep).2.pending := by
  induction ids generalizing sweep with
  | nil => exact .refl _
  | cons id ids ih => exact (evolved_swept (swept sweep id)).trans (ih _)

private theorem evolved_aged (r : Relay) : Evolved r.pending r.aged.2.pending := by
  obtain ⟨store, haged⟩ := r.aged_eq
  rw [haged]
  exact evolved_removeFaces { r with clock := r.clock + 1 } _

private theorem evolved_perform (r : Relay) (op : Operation) : Evolved r.pending (r.perform op).pending := by
  have heffect := r.effect op
  generalize r.perform op = r' at heffect
  cases heffect with
  | course hcourse => exact evolved_course hcourse
  | faces => exact .refl _
  | removal id => exact r.evolved_removeFace id
  | tick =>
    exact tick_induction (motive := fun s => Evolved r.pending s.pending) r (.refl _)
      (fun s id hs => hs.trans (s.evolved_removeFace id))
      (fun _ _ _ hs hswept => hs.trans (evolved_swept hswept)) fun _ _ _ hs => hs

private theorem evolved_performAll (r : Relay) (ops : List Operation) :
    Evolved r.pending (r.performAll ops).pending := by
  induction ops generalizing r with
  | nil => exact .refl _
  | cons op ops ih => exact (r.evolved_perform op).trans (ih _)

/-- Where a tick sends an Interest again, pending Interests have gone away at most. -/
theorem Sends.evolved {s : Relay} {id : PendingId} (h : Sends r .tick s id) :
    Evolved r.pending s.pending := by
  cases h with
  | retried =>
    exact (r.evolved_aged.trans (evolved_sweeps _ _)).trans
      (.modify _ _ (fun _ => rfl) fun _ => rfl)

/-- An Interest that is sent again is the one that is pending, however much has happened since. -/
theorem Sends.interest_eq {s : Relay} {e e' : PendingEntry} (hr : r.pending.WellFormed)
    (he : e ∈ r.pending.entries) {ops : List Operation} (h : Sends (r.performAll ops) .tick s e.id)
    (he' : s.pending.get? e.id = some e') : e'.interest = e.interest := by
  have hholds : s.pending.Holds e.id e.interest :=
    (PendingTable.Holds.of_mem hr he).evolved ((r.evolved_performAll ops).trans h.evolved)
  obtain ⟨hmem, hid⟩ := PendingTable.mem_of_get? he'
  exact hholds.interest_eq e' hmem hid

private theorem accept_of_known {interest : Interest} {nonce : UInt32} (hnonce : interest.nonce = some nonce)
    (hknown : r.nonces.contains nonce = true) : r.accept interest = (none, r) := by
  unfold accept
  simp only [hnonce, NonceTable.record, hknown, if_true]

/-- An Interest whose nonce is new is accepted, and the nonce is recorded. -/
theorem accept_of_new {interest : Interest} {nonce : UInt32} (hnonce : interest.nonce = some nonce)
    (hnew : r.nonces.contains nonce = false) :
    r.accept interest =
      (some interest, { r with nonces := (r.nonces.record nonce r.clock).2 }) := by
  unfold accept
  simp only [hnonce, NonceTable.record, hnew, Bool.false_eq_true, if_false]

/-- An Interest whose nonce is known is taken for one that has come back. -/
theorem handleInterest_of_known {source : FaceId} (hsource : r.faces.contains source = true)
    {interest : Interest} {nonce : UInt32} (hnonce : interest.nonce = some nonce)
    (hknown : r.nonces.contains nonce = true) :
    r.handleInterest source interest =
      (.error (.duplicateNonce nonce), (r.interestReceived source).drop) := by
  have haccept : (r.interestReceived source).accept interest =
      (none, r.interestReceived source) := accept_of_known hnonce hknown
  unfold interestReceived at haccept
  rw [handleInterest, if_pos hsource]
  dsimp only
  rw [haccept, hnonce]
  rfl

/-- An Interest that is answered leaves the nonces alone. -/
theorem nonces_resolve_of_hit {source : FaceId} {interest : Interest} {content : Content}
    {store : ContentStore} (hlookup : r.store.lookup interest r.clock = some (content, store)) :
    (r.resolve source interest).2.nonces = r.nonces := by
  have hsent := (r.fetched store).nonces_send source (.content content)
  rw [snd_resolve_of_some hlookup]
  split
  · exact hsent
  · exact hsent

/-- A relay that has just answered an Interest takes a second copy of it for one that has come back. -/
theorem duplicateNonce_of_answered {source : FaceId} (hsource : r.faces.contains source = true)
    {interest : Interest} {nonce : UInt32} (hnonce : interest.nonce = some nonce)
    (hnew : r.nonces.contains nonce = false) {e : CacheEntry}
    (hfind : r.store.entries.find? (·.answers interest) = some e) :
    ((r.handleInterest source interest).2.handleInterest source interest).1 =
      .error (.duplicateNonce nonce) := by
  obtain ⟨store, hlookup⟩ := ContentStore.lookup_of_find? hfind r.clock
  have haccept : (r.interestReceived source).accept interest =
      (some interest, { r.interestReceived source with nonces := (r.nonces.record nonce r.clock).2 }) :=
    accept_of_new hnonce hnew
  have hrecorded : (r.handleInterest source interest).2.nonces = (r.nonces.record nonce r.clock).2 := by
    rw [handleInterest_of_accept hsource haccept]
    exact nonces_resolve_of_hit hlookup
  have hknown : (r.handleInterest source interest).2.nonces.contains nonce = true :=
    hrecorded ▸ r.nonces.contains_record nonce r.clock
  have hstays : (r.handleInterest source interest).2.faces.contains source = true :=
    (contains_of_layout (r.layout_handleInterest source interest) source).trans hsource
  exact congrArg Prod.fst (handleInterest_of_known hstays hnonce hknown)

/-- An Interest that is pending is sent again as it is, whatever has happened since: it is on the queue of
the face that its route leads through when the tick is over. A relay that it comes to, and that has data
for it, answers it with data from the content store, which is queued for the face that it came from if
there is room; unless it knows the nonce of the Interest still, as it does once it has answered: another
copy is then refused. -/
theorem cacheHit_of_resent {A B : Relay} (hA : A.Reachable) {e : PendingEntry}
    (he : e ∈ A.pending.entries) {ops : List Operation} {s : Relay} {b : FaceId}
    (hsends : Sends (A.performAll ops) .tick s e.id) (hqueued : (s.propagate e.id).1 = some b)
    {a : FaceId} {face : Face} (hface : B.faces.get? a = some face)
    (hstored : ∃ x ∈ B.store.entries, x.answers e.interest = true)
    (hforgotten : ∀ nonce ∈ e.interest.nonce, B.nonces.contains nonce = false) :
    (∃ route, s.routes.lookup e.interest.name = some route ∧ route.face = b) ∧
      (s.propagate e.id).2.faces.queue b = s.faces.queue b ++ [.interest e.interest] ∧
      .interest e.interest ∈ (A.performAll ops).tick.2.faces.queue b ∧
      (B.handleInterest a e.interest).1 = .ok .cacheHit ∧
      (∀ nonce ∈ e.interest.nonce, ((B.handleInterest a e.interest).2.handleInterest a e.interest).1 =
        .error (.duplicateNonce nonce)) ∧
      ∃ x ∈ B.store.entries, x.answers e.interest = true ∧
        ∀ id, (B.handleInterest a e.interest).2.faces.contents id =
          B.faces.contents id ++ if id = a ∧ ¬ face.IsFull then [x.content] else [] := by
  have hwellFormed := (tidy_of_reachable hA).wellFormed
  rcases s.propagate_cases e.id with heq | ⟨e', route, he', hroute, ⟨-, heq⟩ | ⟨-, heq⟩⟩
  · rw [heq] at hqueued
    cases hqueued
  · have hsame := hsends.interest_eq hwellFormed he he'
    have hsent := s.queue_propagate e.id b
    rw [if_pos hqueued, he'] at hsent
    have hmem := hsends.mem_queue_tick hqueued he'
    rw [heq] at hqueued
    rw [hsame] at hmem hroute
    obtain ⟨x, hx, hanswers⟩ := hstored
    cases hfind : B.store.entries.find? (·.answers e.interest) with
    | none => exact absurd hanswers (List.find?_eq_none.mp hfind x hx)
    | some found =>
      obtain ⟨houtcome, -, -, hcontents⟩ := handleInterest_of_find? hface hforgotten hfind
      have hknown : B.faces.contains a = true := by
        rw [FaceTable.contains_eq_isSome, hface]
        rfl
      refine ⟨⟨route, hroute, Option.some.inj hqueued⟩, ?_, hmem, houtcome, ?_, found,
        List.mem_of_find?_eq_some hfind, by simpa using List.find?_some hfind, hcontents⟩
      · rw [hsent, ← hsame]
        rfl
      · intro nonce hnonce
        exact duplicateNonce_of_answered hknown hnonce (hforgotten nonce hnonce) hfind
  · rw [heq] at hqueued
    cases hqueued

/-- A relay that keeps nonces for one tick has answered an Interest. By the time that the Interest is sent
again it has forgotten the nonce, and answers once more. -/
theorem cacheHit_of_resent_forgotten :
    ∃ (a₀ b₀ A B s : Relay) (i : Interest) (c : Content),
      Relay.new {} (.ofSeed 0) = .ok a₀ ∧ Relay.new { nonceTimeout := 1 } (.ofSeed 1) = .ok b₀ ∧
      i = (Interest.ofName (.ofComponents [[0x78]])).withNonce 7 ∧ c = .ofPayload i.name [0x79] ∧
      A = a₀.performAll
        [.faceForPeer 0 (.unix "a"), .faceForPeer 1 (.unix "b"),
          .addRoute (.ofComponents []) ⟨2⟩ .ndn2013, .handleInterest ⟨1⟩ i] ∧
      B = b₀.performAll
        [.faceForPeer 0 (.unix "a"), .cacheContent c false, .handleInterest ⟨1⟩ i, .tick, .tick] ∧
      Sends (A.performAll [.tick]) .tick s ⟨0⟩ ∧ (s.propagate ⟨0⟩).1 = some ⟨2⟩ ∧
      .interest i ∈ (A.performAll [.tick]).tick.2.faces.queue ⟨2⟩ ∧
      (B.handleInterest ⟨1⟩ i).1 = .ok .cacheHit ∧
      (B.handleInterest ⟨1⟩ i).2.faces.contents ⟨1⟩ = [c, c] := by
  have hagain {A B s : Relay} (hA : A.Reachable) {e : PendingEntry} {i : Interest} {c : Content}
      (he : A.pending.entries = [e]) (hid : e.id = ⟨0⟩) (hi : e.interest = i)
      (hsends : Sends (A.performAll [.tick]) .tick s ⟨0⟩)
      (hqueued : (s.propagate ⟨0⟩).1 = some ⟨2⟩) {face : Face}
      (hface : B.faces.get? ⟨1⟩ = some face) (hroom : ¬ face.IsFull)
      (hcontents : B.faces.contents ⟨1⟩ = [c]) {x : CacheEntry} (hx : B.store.entries = [x])
      (hc : x.content = c) (hanswers : x.answers i = true)
      (hforgotten : ∀ nonce ∈ i.nonce, B.nonces.contains nonce = false) :
      Sends (A.performAll [.tick]) .tick s ⟨0⟩ ∧ (s.propagate ⟨0⟩).1 = some ⟨2⟩ ∧
        .interest i ∈ (A.performAll [.tick]).tick.2.faces.queue ⟨2⟩ ∧
        (B.handleInterest ⟨1⟩ i).1 = .ok .cacheHit ∧
        (B.handleInterest ⟨1⟩ i).2.faces.contents ⟨1⟩ = [c, c] := by
    have hmem : e ∈ A.pending.entries := he ▸ List.mem_singleton_self e
    have hstored : x ∈ B.store.entries := hx ▸ List.mem_singleton_self x
    rw [← hid] at hsends hqueued
    subst hi
    obtain ⟨-, -, hresent, houtcome, -, y, hy, -, hanswered⟩ :=
      cacheHit_of_resent hA hmem hsends hqueued hface ⟨x, hstored, hanswers⟩ hforgotten
    obtain rfl : y = x := List.mem_singleton.mp (hx ▸ hy)
    rw [hid] at hsends hqueued
    refine ⟨hsends, hqueued, hresent, houtcome, ?_⟩
    rw [hanswered, hcontents, if_pos ⟨rfl, hroom⟩, hc]
    rfl
  have hnewA : Relay.new {} (.ofSeed 0) = .ok _ := rfl
  have hnewB : Relay.new { nonceTimeout := 1 } (.ofSeed 1) = .ok _ := rfl
  refine ⟨_, _, _, _, _, _, _, hnewA, hnewB, rfl, rfl, rfl, rfl,
    hagain (.performAll (.new hnewA) fun _ _ => trivial) rfl rfl rfl
      (@Sends.retried _ [] [] ⟨0⟩ _ rfl rfl ?_) rfl rfl ?_ ?_ rfl rfl ?_ ?_⟩
  · decide +kernel
  · decide +kernel
  · rfl
  · decide +kernel
  · rintro n ⟨⟩
    decide +kernel

/-- A relay has answered an Interest and the answer is lost. The Interest is sent again with the next tick.
The data is there still, but the nonce is known. -/
theorem resent_refused :
    ∃ (r₀ A B later s : Relay) (i : Interest) (c : Content),
      Relay.new {} (.ofSeed 0) = .ok r₀ ∧
      i = (Interest.ofName (.ofComponents [[0x78]])).withNonce 7 ∧ c = .ofPayload i.name [0x79] ∧
      A = r₀.performAll
        [.faceForPeer 0 (.unix "a"), .faceForPeer 1 (.unix "b"),
          .addRoute (.ofComponents []) ⟨2⟩ .ndn2013, .handleInterest ⟨1⟩ i] ∧
      B = r₀.performAll [.faceForPeer 0 (.unix "a"), .cacheContent c false] ∧
      (A.drainReady 0).1 = [⟨⟨2⟩, 1, .unix "b", .interest i⟩] ∧
      (B.handleInterest ⟨1⟩ i).1 = .ok .cacheHit ∧
      Sends (A.perform (.drainReady 0)) .tick s ⟨0⟩ ∧ (s.propagate ⟨0⟩).1 = some ⟨2⟩ ∧
      ((A.performAll [.drainReady 0, .tick]).drainReady 1).1 =
        [⟨⟨2⟩, 1, .unix "b", .interest i⟩] ∧
      later = (B.handleInterest ⟨1⟩ i).2.performAll [.drainReady 0, .tick] ∧
      (∃ x ∈ later.store.entries, x.answers i = true) ∧ later.faces.contains ⟨1⟩ = true ∧
      (later.handleInterest ⟨1⟩ i).1 = .error (.duplicateNonce 7) := by
  have hnew : Relay.new {} (.ofSeed 0) = .ok _ := rfl
  exact ⟨_, _, _, _, _, _, _, hnew, rfl, rfl, rfl, rfl, rfl, rfl,
    @Sends.retried _ [] [] ⟨0⟩ _ rfl rfl (by decide +kernel), rfl, rfl, rfl,
    ⟨_, List.mem_cons_self, rfl⟩, rfl, rfl⟩

end Relay

end NamedFunctions
