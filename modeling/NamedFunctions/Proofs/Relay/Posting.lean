import Mathlib.Data.List.Induction
import NamedFunctions.Proofs.Relay.Queueing

/-!
# The Interests that an operation sends

An operation puts Interests on queues only where it sends pending ones along their routes. A list of
postings says which, in the order in which that is done, each with the relay at that moment. What else
happens in the course of the operation leaves the Interests on queues alone.
-/

namespace NamedFunctions

/-- The Interest in a packet, unless it is data. -/
def Packet.interest? : Packet → Option Interest
  | interest i => some i
  | content _ => none

/-- The Interests in the queue of the face with a number, the first of them first. -/
def FaceTable.interests (table : FaceTable) (id : FaceId) : List Interest :=
  (table.queue id).filterMap Packet.interest?

namespace Relay

/-- A pending Interest that is put on the queue of a face: the relay in which it is sent, and its
number. -/
structure Posting where
  relay : Relay
  id : PendingId
  face : FaceId

/-- The Interests that some postings put on the queue of a face. -/
def postedOn (postings : List Posting) (face : FaceId) : List Interest :=
  (postings.filter (·.face = face)).filterMap fun p => (p.relay.pending.get? p.id).map (·.interest)

/-- The posting of a pending Interest that is sent along its route, if it is queued there. -/
def posting (r : Relay) (id : PendingId) : List Posting :=
  (r.propagate id).1.toList.map fun face => ⟨r, id, face⟩

/-- Whether a relay has come about from another with some postings, all of which are among those that
are sent, and with no other Interests put on queues or counted. -/
structure Posts (sends : Relay → PendingId → Prop) (r : Relay) (postings : List Posting)
    (r' : Relay) : Prop where
  sent : ∀ p ∈ postings, sends p.relay p.id ∧ (p.relay.propagate p.id).1 = some p.face
  queued : ∀ x, r'.faces.interests x = r.faces.interests x ++ postedOn postings x
  counted : r'.stats.interestsForwarded = r.stats.interestsForwarded + postings.length

/-- Whether a relay has come about from another with no Interests put on queues or counted. -/
structure Still (r r' : Relay) : Prop where
  interests : ∀ x, r'.faces.interests x = r.faces.interests x
  forwarded : r'.stats.interestsForwarded = r.stats.interestsForwarded
  nextId : r.pending.nextId ≤ r'.pending.nextId

/-- Whether no more Interests are counted as forwarded than before, or one of some that are sent was
queued. -/
def ForwardsOf (sent : Relay → PendingId → Prop) (r r' : Relay) : Prop :=
  r'.stats.interestsForwarded = r.stats.interestsForwarded ∨
    ∃ s id face, sent s id ∧ (s.propagate id).1 = some face

variable {sends sends' : Relay → PendingId → Prop} {r r' r'' : Relay} {postings postings' : List Posting}

private theorem postedOn_append (postings postings' : List Posting) (face : FaceId) :
    postedOn (postings ++ postings') face = postedOn postings face ++ postedOn postings' face := by
  rw [postedOn, List.filter_append, List.filterMap_append, ← postedOn, ← postedOn]

namespace Posts

private theorem imp (h : Posts sends r postings r') (himp : ∀ s id, sends s id → sends' s id) :
    Posts sends' r postings r' :=
  ⟨fun p hp => (h.sent p hp).imp_left (himp p.relay p.id), h.queued, h.counted⟩

private theorem trans (h : Posts sends r postings r') (h' : Posts sends r' postings' r'') :
    Posts sends r (postings ++ postings') r'' := by
  constructor
  · exact List.forall_mem_append.mpr ⟨h.sent, h'.sent⟩
  · intro x
    rw [h'.queued, h.queued, postedOn_append, List.append_assoc]
  · rw [h'.counted, h.counted, List.length_append, Nat.add_assoc]

private theorem of_still (h : Still r r') : Posts sends r [] r' :=
  ⟨List.forall_mem_nil _, fun x => (h.interests x).trans (List.append_nil _).symm, h.forwarded⟩

private theorem after (h : Posts sends r' postings r'') (hstill : Still r r') : Posts sends r postings r'' :=
  (of_still hstill).trans h

private theorem before (h : Posts sends r postings r') (hstill : Still r' r'') :
    Posts sends r postings r'' := by
  have hposts := h.trans (of_still hstill)
  rwa [List.append_nil] at hposts

/-- What is counted as forwarded has been sent. -/
theorem forwards (h : Posts sends r postings r') : ForwardsOf sends r r' := by
  cases postings with
  | nil => exact .inl h.counted
  | cons p postings =>
    obtain ⟨hsent, hqueued⟩ := h.sent p List.mem_cons_self
    exact .inr ⟨p.relay, p.id, p.face, hsent, hqueued⟩

end Posts

/-- A pending Interest that is sent on is put on the queue of its face, or nothing is. -/
theorem interests_propagate (r : Relay) (id : PendingId) (x : FaceId) :
    (r.propagate id).2.faces.interests x = r.faces.interests x ++ postedOn (r.posting id) x := by
  rw [FaceTable.interests, queue_propagate, List.filterMap_append, ← FaceTable.interests]
  congr 1
  unfold postedOn posting
  cases (r.propagate id).1 with
  | none => rfl
  | some face =>
    by_cases hx : face = x
    · cases he : r.pending.get? id with
      | none => simp [hx, he]
      | some e => simp [hx, he, Packet.interest?]
    · simp [hx]

private theorem posts_propagate {id : PendingId} (hsent : sends r id) :
    Posts sends r (r.posting id) (r.propagate id).2 := by
  refine ⟨?_, interests_propagate r id, ?_⟩
  · intro p hp
    obtain ⟨face, hface, rfl⟩ := List.mem_map.mp hp
    exact ⟨hsent, Option.mem_toList.mp hface⟩
  · rcases r.propagate_cases id with heq | ⟨e, route, -, -, ⟨-, heq⟩ | ⟨-, heq⟩⟩
    · rw [posting, heq]
      rfl
    · rw [posting, heq]
      exact congrArg (·.interestsForwarded + 1) (r.stats_send route.face (.interest e.interest))
    · rw [posting, heq]
      exact congrArg (·.interestsForwarded) (r.stats_send route.face (.interest e.interest))

namespace Still

/-- A relay that stays is still. -/
@[refl] protected theorem refl (r : Relay) : Still r r := ⟨fun _ => rfl, rfl, Nat.le_refl _⟩

private theorem trans (h : Still r r') (h' : Still r' r'') : Still r r'' :=
  ⟨fun x => (h'.interests x).trans (h.interests x), h'.forwarded.trans h.forwarded,
    Nat.le_trans h.nextId h'.nextId⟩

private theorem touch (r : Relay) (id : FaceId) : Still r (r.touch id) := by
  refine ⟨fun x => ?_, rfl, Nat.le_refl _⟩
  exact congrArg (List.filterMap Packet.interest?) (r.faces.queue_touch id r.clock x)

private theorem cache (r : Relay) (content : Content) (isStatic : Bool) :
    Still r (r.cache content isStatic) := by
  unfold Relay.cache
  split <;> exact ⟨fun _ => rfl, rfl, Nat.le_refl _⟩

/-- Data that is sent is no Interest. -/
theorem send (r : Relay) (id : FaceId) (content : Content) :
    Still r (r.send id (.content content)).2 := by
  refine ⟨fun x => ?_, ?_, ?_⟩
  · rw [FaceTable.interests, queue_send, List.filterMap_append, ← FaceTable.interests]
    split <;> simp [Packet.interest?]
  · rw [stats_send]
  · exact Nat.le_of_eq (congrArg PendingTable.nextId (r.pending_send id (.content content)).symm)

private theorem serve (r : Relay) (content : Content) (entries : List PendingEntry) :
    Still r (r.serve content entries).2 := by
  refine ⟨fun x => ?_, rfl, Nat.le_refl _⟩
  rw [FaceTable.interests, queue_serve, List.filterMap_append, ← FaceTable.interests]
  split <;> simp [Packet.interest?]

private theorem announce (r : Relay) (origin : Interest) (result : Bytes) :
    Still r (r.announce origin result).2 := by
  have hcounted : Still r
      (r.count fun s => { s with computationsCompleted := s.computationsCompleted + 1 }) :=
    ⟨fun _ => rfl, rfl, Nat.le_refl _⟩
  have hcached : Still r (r.withResult origin result) := hcounted.trans (cache _ _ true)
  have htaken : Still (r.withResult origin result)
      { r.withResult origin result with
        pending :=
          ((r.withResult origin result).pending.takeAnswered (resultContent origin result)).2 } :=
    ⟨fun _ => rfl, rfl, Nat.le_refl _⟩
  exact hcached.trans (htaken.trans (serve _ _ _))

private theorem countFailure (r : Relay) (outcome : Except RelayError Settled) :
    Still r (r.countFailure outcome) := by
  unfold Relay.countFailure
  split
  · exact .refl r
  · exact ⟨fun _ => rfl, rfl, Nat.le_refl _⟩

private theorem beginComputation (r : Relay) (interest : Interest) :
    Still r (r.beginComputation interest).2 := by
  unfold Relay.beginComputation
  split <;> exact ⟨fun _ => rfl, rfl, Nat.le_refl _⟩

private theorem accepted {source : FaceId} {interest : Interest} {accepted : Option Interest}
    (haccept : (r.interestReceived source).accept interest = (accepted, r')) : Still r r' := by
  obtain ⟨nonces, nonceSource, heq⟩ := accept_eq (r.interestReceived source) interest
  rw [haccept] at heq
  obtain rfl := heq
  exact (touch r source).trans ⟨fun _ => rfl, rfl, Nat.le_refl _⟩

end Still

/-- Whether the Interests of some postings have become pending one after the other on the way from one
relay to another. -/
structure Fresh (r : Relay) (postings : List Posting) (r' : Relay) : Prop where
  nextId : r.pending.nextId ≤ r'.pending.nextId
  increasing : (postings.map (·.id.val)).Pairwise (· < ·)
  bounds : ∀ p ∈ postings, r.pending.nextId ≤ p.id.val ∧ p.id.val < r'.pending.nextId

/-- Whether a relay has come about from another with postings of Interests that have become pending on
the way. -/
def PostsNew (sends : Relay → PendingId → Prop) (r r' : Relay) : Prop :=
  ∃ postings, Posts sends r postings r' ∧ Fresh r postings r'

/-- Whether a relay has come about from another with postings of different Interests. -/
def PostsOnce (sends : Relay → PendingId → Prop) (r r' : Relay) : Prop :=
  ∃ postings, Posts sends r postings r' ∧ (postings.map (·.id)).Nodup

namespace Fresh

private theorem trans (h : Fresh r postings r') (h' : Fresh r' postings' r'') :
    Fresh r (postings ++ postings') r'' := by
  refine ⟨Nat.le_trans h.nextId h'.nextId, ?_, List.forall_mem_append.mpr ⟨?_, ?_⟩⟩
  · rw [List.map_append, List.pairwise_append]
    refine ⟨h.increasing, h'.increasing, ?_⟩
    intro n hn m hm
    obtain ⟨p, hp, rfl⟩ := List.mem_map.mp hn
    obtain ⟨p', hp', rfl⟩ := List.mem_map.mp hm
    exact Nat.lt_of_lt_of_le (h.bounds p hp).2 (h'.bounds p' hp').1
  · intro p hp
    exact ⟨(h.bounds p hp).1, Nat.lt_of_lt_of_le (h.bounds p hp).2 h'.nextId⟩
  · intro p hp
    exact ⟨Nat.le_trans h.nextId (h'.bounds p hp).1, (h'.bounds p hp).2⟩

private theorem nodup (h : Fresh r postings r') : (postings.map (·.id)).Nodup := by
  apply List.Nodup.of_map PendingId.val
  rw [List.map_map]
  exact h.increasing.imp Nat.ne_of_lt

end Fresh

namespace PostsNew

private theorem imp (h : PostsNew sends r r') (himp : ∀ s id, sends s id → sends' s id) :
    PostsNew sends' r r' := by
  obtain ⟨postings, hposts, hfresh⟩ := h
  exact ⟨postings, hposts.imp himp, hfresh⟩

private theorem trans (h : PostsNew sends r r') (h' : PostsNew sends r' r'') : PostsNew sends r r'' := by
  obtain ⟨postings, hposts, hfresh⟩ := h
  obtain ⟨postings', hposts', hfresh'⟩ := h'
  exact ⟨postings ++ postings', hposts.trans hposts', hfresh.trans hfresh'⟩

private theorem of_still (h : Still r r') : PostsNew sends r r' :=
  ⟨[], .of_still h, h.nextId, List.Pairwise.nil, List.forall_mem_nil _⟩

private theorem after (h : PostsNew sends r' r'') (hstill : Still r r') : PostsNew sends r r'' :=
  (of_still hstill).trans h

private theorem before (h : PostsNew sends r r') (hstill : Still r' r'') : PostsNew sends r r'' :=
  h.trans (of_still hstill)

private theorem once (h : PostsNew sends r r') : PostsOnce sends r r' := by
  obtain ⟨postings, hposts, hfresh⟩ := h
  exact ⟨postings, hposts, hfresh.nodup⟩

end PostsNew

/-- A posting is one at most. -/
theorem nodup_posting (r : Relay) (id : PendingId) : ((r.posting id).map (·.id)).Nodup := by
  unfold posting
  cases (r.propagate id).1 with
  | none => exact List.nodup_nil
  | some face => exact List.nodup_singleton _

/-- The Interest that a computation needs data for is new. -/
theorem postsNew_asked {c : Computation} {name : Name}
    (hsent : sends (r.asking c name) ⟨r.pending.nextId⟩) :
    PostsNew sends r (r.asked c name).2 := by
  have hasking : Still r (r.asking c name) := ⟨fun _ => rfl, rfl, Nat.le_succ _⟩
  have hpending : (r.asked c name).2.pending = (r.asking c name).pending := pending_propagate _ _
  refine ⟨(r.asking c name).posting ⟨r.pending.nextId⟩, (posts_propagate hsent).after hasking, ?_⟩
  refine ⟨hpending ▸ hasking.nextId, ?_, ?_⟩
  · unfold posting
    cases ((r.asking c name).propagate ⟨r.pending.nextId⟩).1 with
    | none => exact List.Pairwise.nil
    | some face => exact List.pairwise_singleton _ _
  · intro p hp
    obtain ⟨face, -, rfl⟩ := List.mem_map.mp hp
    rw [hpending]
    exact ⟨Nat.le_refl _, Nat.lt_succ_self _⟩

private theorem postsNew_settle (r : Relay) (progress : Except ComputationError Progress) :
    PostsNew (Issues r progress) r (r.settle progress).2 := by
  obtain ⟨n, h⟩ := r.exists_advances progress
  generalize (r.settle progress).1 = outcome at h
  generalize (r.settle progress).2 = r' at h
  induction h with
  | failed => exact .of_still (.refl _)
  | finished => exact .of_still (.refl _)
  | @awaits r c name hmiss =>
    unfold await
    split
    · exact .of_still ⟨fun _ => rfl, rfl, Nat.le_refl _⟩
    · next hnew =>
      have hasked : PostsNew (Issues r (.ok (.suspended c name))) r (r.asked c name).2 :=
        postsNew_asked (.now hmiss hnew)
      rw [issue_eq]
      split
      · exact hasked.before ⟨fun _ => rfl, rfl, Nat.le_refl _⟩
      · exact hasked.before ⟨fun _ => rfl, rfl, Nat.le_refl _⟩
  | @fetches r _ _ _ _ store _ _ hhit _ ih =>
    have hfetched : Still r (r.fetched store) := ⟨fun _ => rfl, rfl, Nat.le_refl _⟩
    exact (ih.after hfetched).imp fun _ _ => .later hhit

private theorem postsNew_carryOn (r : Relay) (progress : Except ComputationError Progress) :
    PostsNew (Issues r progress) r (r.carryOn progress).2 := by
  rw [carryOn_eq]
  exact (r.postsNew_settle progress).before (.countFailure _ _)

private theorem postsNew_resumeComputation (r : Relay) (id : ComputationId) (payload : Bytes)
    (rest : List (ComputationId × Bytes)) :
    PostsNew (WakeIssues r ((id, payload) :: rest)) r (r.resumeComputation id payload).2 := by
  cases hc : r.computations.get? id with
  | none =>
    rw [resumeComputation_of_none hc]
    exact .of_still (.countFailure r (.error (.computation (.unknownComputation id))))
  | some c =>
    have herased : Still r { r with computations := r.computations.erase id } :=
      ⟨fun _ => rfl, rfl, Nat.le_refl _⟩
    rw [resumeComputation_of_some hc]
    exact ((postsNew_carryOn _ _).after herased).imp fun _ _ => .resumed hc

private theorem postsNew_wake (r : Relay) (agenda : List (ComputationId × Bytes)) :
    PostsNew (WakeIssues r agenda) r (r.wake agenda) := by
  fun_induction wake r agenda with
  | case1 => exact .of_still (.refl _)
  | case2 r id payload rest r' h _ ih =>
    have hresumed := r.postsNew_resumeComputation id payload rest
    rw [h] at hresumed
    exact hresumed.trans (ih.imp fun _ _ => .stopped h)
  | case3 r id payload rest origin result r' h _ ih =>
    have hresumed := r.postsNew_resumeComputation id payload rest
    rw [h] at hresumed
    have hannounced := ih.after (.announce r' origin result)
    exact hresumed.trans (hannounced.imp fun _ _ => .finished h)

private theorem postsNew_startComputation (r : Relay) (interest : Interest) :
    PostsNew (ReductionIssues r interest) r (r.startComputation interest).2 := by
  have hstarted : Still r r.reductionStarted := ⟨fun _ => rfl, rfl, Nat.le_refl _⟩
  have hcarried := ((postsNew_carryOn (r.reductionStarted.beginComputation interest).2
    (r.reductionStarted.beginComputation interest).1).after
      (hstarted.trans (.beginComputation _ interest))).imp fun _ _ => ReductionIssues.begun
  rw [startComputation_eq]
  split
  · next heq =>
    rw [heq] at hcarried
    exact hcarried
  · next heq =>
    rw [heq] at hcarried
    exact hcarried
  · next origin result r' heq =>
    rw [heq] at hcarried
    have hwoken := (postsNew_wake (r'.announce origin result).2
      (r'.announce origin result).1).after (.announce r' origin result)
    exact hcarried.trans (hwoken.imp fun _ _ => .published heq)

private theorem postsOnce_of_still (h : Still r r') : PostsOnce sends r r' :=
  ⟨[], .of_still h, List.nodup_nil⟩

/-- A pending Interest that is sent on may have become pending, or have been joined, right before. -/
theorem postsOnce_propagate {id : PendingId} (hstill : Still r r') (hsent : sends r' id) :
    PostsOnce sends r (r'.propagate id).2 :=
  ⟨r'.posting id, (posts_propagate hsent).after hstill, r'.nodup_posting id⟩

private theorem PostsOnce.before (h : PostsOnce sends r r') (hstill : Still r' r'') :
    PostsOnce sends r r'' := by
  obtain ⟨postings, hposts, hnodup⟩ := h
  exact ⟨postings, hposts.before hstill, hnodup⟩

private theorem postsOnce_resolve {source : FaceId} {interest accepted : Interest}
    (hsource : r.faces.contains source = true)
    (haccept : (r.interestReceived source).accept interest = (some accepted, r')) :
    PostsOnce (Sends r (.handleInterest source interest)) r (r'.resolve source accepted).2 := by
  have haccepted := Still.accepted haccept
  cases hlookup : r'.store.lookup accepted r'.clock with
  | some found =>
    have hfetched : Still r' (r'.fetched found.2) := ⟨fun _ => rfl, rfl, Nat.le_refl _⟩
    have hsent := haccepted.trans (hfetched.trans (.send (r'.fetched found.2) source found.1))
    rw [snd_resolve_of_some hlookup]
    split
    · exact postsOnce_of_still (hsent.trans ⟨fun _ => rfl, rfl, Nat.le_refl _⟩)
    · exact postsOnce_of_still hsent
  | none =>
    rw [resolve, hlookup]
    cases hsame : r'.pending.findSame accepted with
    | some id =>
      have hjoined : Still r (r'.joined source accepted id) :=
        haccepted.trans ⟨fun _ => rfl, rfl, Nat.le_refl _⟩
      dsimp only
      rw [snd_aggregate]
      split
      · next hforward =>
        exact postsOnce_propagate hjoined (.joined hsource haccept hlookup hsame hforward)
      · exact postsOnce_of_still hjoined
    | none =>
      have hinserted : Still r
          { r' with pending := (r'.pending.insert accepted (.face source) r'.clock).2 } :=
        haccepted.trans ⟨fun _ => rfl, rfl, Nat.le_succ _⟩
      dsimp only
      split
      · next hexpression =>
        have hstarted := (postsNew_startComputation _ accepted).after hinserted
        exact (hstarted.imp fun _ _ => .reduced hsource haccept ⟨hlookup, hsame, hexpression⟩).once
      · next hexpression =>
        have hsent : PostsOnce (Sends r (.handleInterest source interest)) r
            (r'.sentOn source accepted).2 :=
          postsOnce_propagate hinserted (.arrived hsource haccept hlookup hsame hexpression)
        rw [snd_forward]
        split
        · exact hsent
        · exact hsent.before ⟨fun _ => rfl, rfl, Nat.le_refl _⟩

private theorem postsOnce_handleInterest (r : Relay) (source : FaceId) (interest : Interest) :
    PostsOnce (Sends r (.handleInterest source interest)) r (r.handleInterest source interest).2 := by
  unfold handleInterest
  split
  · next hsource =>
    dsimp only
    split
    · next haccept => exact postsOnce_resolve hsource haccept
    · next haccept =>
      have hdropped := Still.accepted haccept
      exact postsOnce_of_still (hdropped.trans ⟨fun _ => rfl, rfl, Nat.le_refl _⟩)
  · exact postsOnce_of_still (.refl r)

private theorem postsOnce_handleContent (r : Relay) (source : FaceId) (content : Content) :
    PostsOnce (Sends r (.handleContent source content)) r (r.handleContent source content).2 := by
  have hreceived : Still r (r.contentReceived source) :=
    (Still.touch r source).trans ⟨fun _ => rfl, rfl, Nat.le_refl _⟩
  unfold handleContent
  split
  · next hsource =>
    dsimp only
    rcases htake : PendingTable.takeAnswered _ content with ⟨_ | ⟨e, entries⟩, pending⟩
    · exact postsOnce_of_still (hreceived.trans ⟨fun _ => rfl, rfl, Nat.le_refl _⟩)
    · have hnextId : pending = ((r.contentReceived source).pending.takeAnswered content).2 :=
        (congrArg Prod.snd htake).symm
      have htaken : Still (r.contentReceived source) { r.contentReceived source with pending } := by
        rw [hnextId]
        exact ⟨fun _ => rfl, rfl, Nat.le_refl _⟩
      have hserved := hreceived.trans (htaken.trans ((Still.cache _ content false).trans
        (.serve _ content (e :: entries))))
      exact (((postsNew_wake _ _).after hserved).imp fun _ _ => .delivered hsource htake rfl).once
  · exact postsOnce_of_still (.refl r)

private theorem posts_sweepPending {sweep : Sweep} {id : PendingId}
    (hsent : ∀ e, sweep.2.pending.get? id = some e → ¬ sweep.2.hasRunOut e = true →
      sends
        { sweep.2 with
          pending := sweep.2.pending.modify id fun e => { e with retries := e.retries + 1 } } id) :
    ∃ postings, Posts sends sweep.2 postings (sweepPending sweep id).2 ∧
      (postings.map (·.id)).Sublist [id] := by
  cases he : sweep.2.pending.get? id with
  | none =>
    have hsame : (sweepPending sweep id).2 = sweep.2 := by
      rw [sweepPending, he]
    rw [hsame]
    exact ⟨[], .of_still (.refl _), List.nil_sublist _⟩
  | some e =>
    by_cases hout : sweep.2.hasRunOut e = true
    · have hexpired : Still sweep.2 (sweepPending sweep id).2 := by
        rw [sweepPending, he]
        dsimp only
        rw [if_pos hout]
        exact ⟨fun _ => rfl, rfl, Nat.le_refl _⟩
      exact ⟨[], .of_still hexpired, List.nil_sublist _⟩
    · rw [snd_sweepPending he hout]
      refine ⟨_, (posts_propagate (hsent e he hout)).after ⟨fun _ => rfl, rfl, Nat.le_refl _⟩, ?_⟩
      unfold posting
      cases (propagate _ id).1 with
      | none => exact List.nil_sublist _
      | some face => exact List.Sublist.refl _

/-- A tick puts each pending Interest on a queue once at most, after faces that were idle for too long
are gone. -/
theorem posts_tick (r : Relay) :
    ∃ postings, Posts (Sends r .tick) r.aged.2 postings r.tick.2 ∧
      (postings.map (·.id)).Sublist r.aged.2.pending.ids := by
  -- The induction is on the Interests that the tick has come to so far: each is sent in the relay that
  -- those before it have left.
  have hsweeps (before : List PendingId) :
      (∃ after, r.aged.2.pending.ids = before ++ after) →
        ∃ postings, Posts (Sends r .tick) r.aged.2 postings (before.foldl sweepPending r.aged).2 ∧
          (postings.map (·.id)).Sublist before := by
    induction before using List.reverseRecOn with
    | nil => exact fun _ => ⟨[], .of_still (.refl _), List.Sublist.refl _⟩
    | append_singleton before id ih =>
      rintro ⟨after, hids⟩
      rw [List.append_assoc, List.singleton_append] at hids
      obtain ⟨postings, hposts, hsub⟩ := ih ⟨_, hids⟩
      obtain ⟨postings', hposts', hsub'⟩ :=
        posts_sweepPending fun e he hout => Sends.retried hids he hout
      rw [List.foldl_append]
      refine ⟨postings ++ postings', hposts.trans hposts', ?_⟩
      rw [List.map_append]
      exact hsub.append hsub'
  obtain ⟨postings, hposts, hsub⟩ := hsweeps r.aged.2.pending.ids ⟨[], (List.append_nil _).symm⟩
  exact ⟨postings, hposts.before ⟨fun _ => rfl, rfl, Nat.le_refl _⟩, hsub⟩

private theorem wellFormed_aged (hr : r.pending.WellFormed) : r.aged.2.pending.WellFormed := by
  refine aged_induction (motive := fun s => s.pending.WellFormed) r hr ?_ fun _ _ hs => hs
  intro s id hs
  exact removeFace_induction (motive := fun s => s.pending.WellFormed) s id (fun _ => hs)
    fun _ _ => hs.dropRequester (.face id)

/-- An operation puts pending Interests on queues, each once at most, and no other Interests. -/
theorem posts_perform (r : Relay) (op : Operation) :
    ∃ postings, Posts (Sends r op) (r.untilPosting op) postings (r.perform op) ∧
      (r.pending.WellFormed → (postings.map (·.id)).Nodup) := by
  have honce (h : PostsOnce (Sends r op) (r.untilPosting op) (r.perform op)) :
      ∃ postings, Posts (Sends r op) (r.untilPosting op) postings (r.perform op) ∧
        (r.pending.WellFormed → (postings.map (·.id)).Nodup) := by
    obtain ⟨postings, hposts, hnodup⟩ := h
    exact ⟨postings, hposts, fun _ => hnodup⟩
  cases op with
  | handleInterest source interest => exact honce (r.postsOnce_handleInterest source interest)
  | handleContent source content => exact honce (r.postsOnce_handleContent source content)
  | tick =>
    obtain ⟨postings, hposts, hsub⟩ := r.posts_tick
    exact ⟨postings, hposts, fun hr => hsub.nodup (wellFormed_aged hr).nodup⟩
  | _ => exact honce (postsOnce_of_still (.refl _))

private theorem stats_removeFace (r : Relay) (id : FaceId) : (r.removeFace id).2.stats = r.stats :=
  removeFace_induction (motive := fun s => s.stats = r.stats) r id (fun _ => rfl) fun _ _ => rfl

/-- What manages a relay counts nothing. -/
theorem stats_apply (r : Relay) (command : Command) : (r.apply command).2.stats = r.stats := by
  have hmanages := r.manages command
  generalize (r.apply command).2 = r' at hmanages
  cases hmanages with
  | added => rfl
  | removed face => exact r.stats_removeFace face
  | aside => rfl

/-- No Interest is counted as forwarded before one is put on a queue. -/
theorem stats_untilPosting (r : Relay) (op : Operation) : (r.untilPosting op).stats = r.stats := by
  cases op with
  | handleInterest => rfl
  | handleContent => rfl
  | tick =>
    exact aged_induction (motive := fun s => s.stats = r.stats) r rfl
      (fun s id hs => (s.stats_removeFace id).trans hs) fun _ _ hs => hs
  | faceForPeer => rfl
  | addStaticFace => rfl
  | removeFace face => exact r.stats_removeFace face
  | addRoute name face suite =>
    obtain ⟨routes, hroute⟩ := r.addRoute_eq name face suite
    have hstats := congrArg stats hroute
    exact hstats
  | cacheContent content isStatic =>
    obtain ⟨store, hstore⟩ := r.cacheContent_eq content isStatic
    have hstats := congrArg stats hstore
    exact hstats
  | drainReady => rfl
  | apply command => exact r.stats_apply command

/-- An operation that counts an Interest as forwarded has sent one of those that `Sends` tells of. -/
theorem forwardsOf_perform (r : Relay) (op : Operation) :
    ForwardsOf (Sends r op) r (r.perform op) := by
  obtain ⟨postings, hposts, -⟩ := r.posts_perform op
  have hforwards := hposts.forwards
  rwa [ForwardsOf, r.stats_untilPosting op] at hforwards

end Relay

end NamedFunctions
