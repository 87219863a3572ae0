import NamedFunctions.Proofs.PendingTable.Tidy
import NamedFunctions.Proofs.Relay.Posting

/-!
# The tables of a relay agree

Between operations the table of pending Interests is tidy, and all faces that wait there or that routes
lead through are in the table of faces. Where an operation sends Interests and delivers data, the faces
are there too.
-/

namespace NamedFunctions.Relay

variable {r r' : Relay} {agenda agenda' : List ComputationId} {events : List Event}

private theorem Carried.tidy {id : ComputationId} {outcome : Except RelayError Settled}
    (h : Carried r id outcome r') (hr : r.pending.Tidy) : r'.pending.Tidy := by
  cases h with
  | stopped => exact hr
  | joined => exact hr.join _ _ _ _
  | @issued _ _ _ _ _ _ name nonce _ _ hnone =>
    have hnew : r.pending.findSame ((Interest.ofName name).withNonce nonce) = none := hnone
    exact hr.insert hnew _ _
  | stranded => exact hr.withdraw _ _ _

private theorem tidy_step (hr : r.pending.Tidy) (h : Step r agenda events r' agenda') :
    r'.pending.Tidy := by
  cases h with
  | aside hpending => exact hpending ▸ hr
  | ask interest _ hnew => exact hr.insert hnew _ _
  | join entry nonce => exact hr.join entry _ nonce _
  | withdraw source interest => exact hr.withdraw interest _ _
  | answer source _ content => exact (r.pending_send source (.content content)).symm ▸ hr
  | deliver => exact hr.filter _
  | resume _ _ hcarried => exact hcarried.tidy hr
  | miss => exact hr
  | begin hcarried => exact hcarried.tidy hr

private theorem tidy_course (hr : r.pending.Tidy) (h : Course r agenda events r' agenda') :
    r'.pending.Tidy := by
  induction h with
  | refl => exact hr
  | step first _ ih => exact ih (tidy_step hr first)

/-- Removing a face keeps the pending Interests tidy. -/
theorem tidy_removeFace (hr : r.pending.Tidy) (id : FaceId) :
    (r.removeFace id).2.pending.Tidy :=
  removeFace_induction (motive := fun s => s.pending.Tidy) r id (fun _ => hr)
    fun _ _ => hr.dropRequester (.face id)

/-- Sweeping an entry keeps the pending Interests tidy. -/
theorem tidy_swept (hr : r.pending.Tidy) {entry : PendingId} (h : Swept r entry r') :
    r'.pending.Tidy := by
  cases h with
  | missing => exact hr
  | expired => exact hr.filter _
  | retried => exact hr.modify entry (fun _ => rfl) (fun _ => rfl) fun _ he => ⟨he.1, he.2, he.3⟩

private theorem tidy_effect (hr : r.pending.Tidy) {op : Operation} (h : Effect r op r') :
    r'.pending.Tidy := by
  cases h with
  | course hcourse => exact tidy_course hr hcourse
  | faces => exact hr
  | removal id => exact tidy_removeFace hr id
  | tick =>
    exact tick_induction (motive := fun s => s.pending.Tidy) r hr
      (fun _ id hs => tidy_removeFace hs id) (fun _ _ _ hs hswept => tidy_swept hs hswept)
      fun _ _ _ hs => hs

/-- Whatever operations bring a relay about, its pending Interests are tidy. -/
theorem tidy_of_reachable {kind : Operation → Prop} (hr : ReachableBy kind r) : r.pending.Tidy := by
  refine hr.invariant (motive := fun r => r.pending.Tidy) ?_ fun _ _ _ h _ heffect =>
    tidy_effect h heffect
  intro r hpending _ _
  exact hpending ▸ .empty

/-- Whoever is next in a delivery is there, if all that wait are there at its start. -/
theorem get?_offer_ne_none {s : Relay} (hs : Attended s) {content : Content}
    {before after : List Request} {request : Request}
    (hrequests : (s.pending.takeAnswered content).1.flatMap (·.requests) = before ++ request :: after)
    {id : FaceId} (hid : request.requester = .face id) :
    (before.foldl (Delivery.offer content s.clock) { faces := s.faces }).faces.get? id ≠ none := by
  have hmem : request ∈ (s.pending.takeAnswered content).1.flatMap (·.requests) := by
    rw [hrequests]
    exact List.mem_append_right _ List.mem_cons_self
  obtain ⟨e, he, hrequest⟩ := List.mem_flatMap.mp hmem
  have hface : id ∈ e.faces := PendingEntry.mem_faces.mpr ⟨request, hrequest, hid⟩
  have hpresent := hs.present e (List.mem_of_mem_filter he) id hface
  rw [FaceTable.contains_eq_isSome, Option.isSome_iff_ne_none] at hpresent
  rw [Delivery.get?_faces_foldl_offer]
  split
  · simpa using hpresent
  · exact hpresent

/-- All faces that wait are there whenever data is delivered. -/
theorem attended_of_journal (hr : Attended r) {op : Operation} {s : Relay} {content : Content}
    (hmem : .deliver s content ∈ r.journal op) : Attended s :=
  before_of_journal (motive := Attended) (fun hstep hs => hs.step hstep) hr hmem

/-- Whether the tables of a relay agree with each other and do not repeat themselves. -/
structure Consistent (r : Relay) : Prop where
  /-- No two pending Interests ask for the same. -/
  interests : r.pending.entries.Pairwise fun e e' => e.interest.asksSame e'.interest = false
  /-- Somebody waits for each, nobody twice, and no nonce is kept twice. -/
  requested : ∀ e ∈ r.pending.entries, e.requests ≠ []
  requesters : ∀ e ∈ r.pending.entries, (e.requests.map (·.requester)).Nodup
  nonces : ∀ e ∈ r.pending.entries, e.nonces.Nodup
  /-- All faces that wait or that routes lead through are there. -/
  waiting : ∀ e ∈ r.pending.entries, ∀ id ∈ e.faces, r.faces.contains id = true
  routes : ∀ route ∈ r.routes.routes, r.faces.contains route.face = true
  /-- No two faces lead to the same peer through the same interface. -/
  peers : r.faces.faces.Pairwise fun face face' =>
    ¬ (face.interface = face'.interface ∧ face.peer.same face'.peer = true)

/-- Whatever operations bring a relay about, its tables agree. As long as the numbers of faces have not come
round, the number of a face that is removed is not issued again. In the course of an operation all faces that
Interests are sent to, or that data is offered to in turn, are there; no Interest is forwarded that is not
among those that are sent. -/
theorem consistent_of_reachable (hr : r.Reachable) :
    Consistent r ∧
      (∀ config source r₀ before, Relay.new config source = .ok r₀ → r = r₀.performAll before →
        ∀ id ops, r.faces.contains id = true → (r.performAll ops).faces.contains id = false →
          ∀ more, r₀.CountsUp (before ++ (ops ++ more)) →
            ((r.performAll ops).performAll more).faces.contains id = false ∧
              ∀ op, r₀.CountsUp (before ++ (ops ++ more ++ [op])) →
                ((r.performAll ops).performAll more).issued? op ≠ some id) ∧
      (∀ op, ForwardsOf (Sends r op) r (r.perform op) ∧
        ∀ s id, Sends r op s id → ∀ e route, s.pending.get? id = some e →
          s.routes.lookup e.interest.name = some route → s.faces.get? route.face ≠ none) ∧
      ∀ op s content, .deliver s content ∈ r.journal op → ∀ before request after,
        (s.pending.takeAnswered content).1.flatMap (·.requests) = before ++ request :: after →
        ∀ id, request.requester = .face id →
          (before.foldl (Delivery.offer content s.clock) { faces := s.faces }).faces.get? id ≠
            none := by
  have htidy := tidy_of_reachable hr
  have hattended := attended_of_reachable hr
  have hlaidOut := laidOut_of_reachable hr
  refine ⟨⟨List.pairwise_map.mp htidy.distinct, fun e he => (htidy.entries e he).requested,
      fun e he => (htidy.entries e he).requesters, fun e he => (htidy.entries e he).nonces,
      hattended.present, hlaidOut.routes, ?_⟩,
    fun config source r₀ before hnew hbefore id ops honce hgone more hcounts => ?_,
    fun op => ⟨r.forwardsOf_perform op, fun s id hsends e route _ hroute => ?_⟩,
    fun op s content hmem before request after => ?_⟩
  · apply hlaidOut.faces.nodup.of_map.pairwise_of_forall_ne
    rintro face hface face' hface' hne ⟨hinterface, hpeer⟩
    exact hne (hlaidOut.faces.eq_of_same hface hface' hinterface hpeer)
  · rw [countsUp_append, ← hbefore] at hcounts
    obtain ⟨hstill, hnever⟩ :=
      not_issued_of_gone (ascending_of_new hnew hbefore hcounts.1) honce hcounts.2 hgone
    refine ⟨hstill, fun op hlater => hnever op ?_⟩
    rw [countsUp_append, ← hbefore] at hlater
    exact hlater.2
  · exact hsends.get?_ne_none hlaidOut hroute
  · intro hrequests id hid
    exact get?_offer_ne_none (attended_of_journal hattended hmem) hrequests hid

/-- A face has asked for data that another face leads to. The Interest is sent there again with a tick,
and the face does not get its number back once it was removed. -/
theorem consistent_of_reachable_asked :
    ∃ r₀ r : Relay, Relay.new {} (.ofSeed 0) = .ok r₀ ∧
      r = r₀.performAll
        [.faceForPeer 0 (.unix "a"), .faceForPeer 1 (.unix "b"),
          .addRoute (.ofComponents [[0x61]]) ⟨2⟩ .ndn2013,
          .handleInterest ⟨1⟩ (.ofName (.ofComponents [[0x61], [0x62]]))] ∧
      r.pending.ids = [⟨0⟩] ∧ Consistent r ∧
      (r.perform (.removeFace ⟨2⟩)).issued? (.faceForPeer 1 (.unix "b")) ≠ some ⟨2⟩ ∧
      ∃ s e route, Sends r .tick s ⟨0⟩ ∧ s.pending.get? ⟨0⟩ = some e ∧
        s.routes.lookup e.interest.name = some route ∧ s.faces.get? route.face ≠ none := by
  have hagree (r₀ r : Relay) (before : List Operation) (hnew : Relay.new {} (.ofSeed 0) = .ok r₀)
      (hbefore : r = r₀.performAll before) (hids : r.pending.ids = [⟨0⟩])
      (hthere : r.faces.contains ⟨2⟩ = true)
      (hgone : (r.performAll [.removeFace ⟨2⟩]).faces.contains ⟨2⟩ = false)
      (hcounts : r₀.CountsUp (before ++ [.removeFace ⟨2⟩]) ∧
        r₀.CountsUp (before ++ [.removeFace ⟨2⟩, .faceForPeer 1 (.unix "b")]))
      (hsends : ∃ s e route, Sends r .tick s ⟨0⟩ ∧ s.pending.get? ⟨0⟩ = some e ∧
        s.routes.lookup e.interest.name = some route) :
      r.pending.ids = [⟨0⟩] ∧ Consistent r ∧
        (r.perform (.removeFace ⟨2⟩)).issued? (.faceForPeer 1 (.unix "b")) ≠ some ⟨2⟩ ∧
        ∃ s e route, Sends r .tick s ⟨0⟩ ∧ s.pending.get? ⟨0⟩ = some e ∧
          s.routes.lookup e.interest.name = some route ∧ s.faces.get? route.face ≠ none := by
    have hr : r.Reachable := hbefore ▸ .performAll (.new hnew) fun _ _ => trivial
    obtain ⟨hconsistent, hissued, hsent, -⟩ := consistent_of_reachable hr
    obtain ⟨s, e, route, hs, he, hroute⟩ := hsends
    obtain ⟨-, hnever⟩ := hissued _ _ r₀ before hnew hbefore _ _ hthere hgone [] hcounts.1
    exact ⟨hids, hconsistent, hnever _ hcounts.2, s, e, route, hs, he, hroute,
      (hsent .tick).2 s _ hs e route he hroute⟩
  have hnew : Relay.new {} (.ofSeed 0) = .ok _ := rfl
  refine ⟨_, _, hnew, rfl, hagree _ _ _ hnew rfl ?_ ?_ ?_ ?_ ?_⟩
  · decide +kernel
  · decide +kernel
  · decide +kernel
  · decide +kernel
  · exact ⟨_, _, _, @Sends.retried _ [] [] ⟨0⟩ _ rfl rfl (by decide +kernel), rfl, rfl⟩

end NamedFunctions.Relay
