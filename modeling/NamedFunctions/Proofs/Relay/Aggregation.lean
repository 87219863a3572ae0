import NamedFunctions.Proofs.Relay.Resolution
import NamedFunctions.Proofs.Relay.Retransmission
import NamedFunctions.Proofs.Relay.Settlement

/-!
# Interests of many faces for the same

As long as no data is there for it, an Interest that asks for the same as a pending one joins that one and
is not sent on again. So the Interests of any number of faces are sent on once, whatever else arrives in
between, and data that satisfies them goes to each of the faces.
-/

namespace NamedFunctions

namespace Relay

variable {r : Relay} {source : FaceId} {interest other : Interest}

/-- The relay that has recorded the nonce of an Interest of a face. -/
def noted (r : Relay) (source : FaceId) (nonce : UInt32) : Relay :=
  { r.interestReceived source with nonces := (r.nonces.record nonce r.clock).2 }

private theorem flags_noted (r : Relay) (source : FaceId) (nonce : UInt32) (x : FaceId) :
    (r.noted source nonce).faces.flags x = r.faces.flags x :=
  (r.faces.quiet_touch source r.clock).flags_eq x

private theorem asked_noted (r : Relay) (source : FaceId) (nonce : UInt32) (interest : Interest)
    (x : FaceId) :
    (r.noted source nonce).faces.asked interest x = r.faces.asked interest x :=
  r.faces.asked_touch source r.clock interest x

/-- An Interest with a new nonce finds an answer or a way. -/
theorem resolves_of_known (hsource : r.faces.contains source = true) {nonce : UInt32}
    (hnonce : interest.nonce = some nonce) (hnew : r.nonces.contains nonce = false)
    (hname : interest.name.flags.expression = false) :
    Resolves (r.noted source nonce) source interest (r.handleInterest source interest).1
      (r.handleInterest source interest).2 := by
  have haccept : (r.interestReceived source).accept interest =
      (some interest, r.noted source nonce) := accept_of_new hnonce hnew
  rw [handleInterest_of_accept hsource haccept]
  exact resolves hname _ source

/-- An Interest whose face is not known changes nothing. -/
theorem resolves_of_handleInterest {nonce : UInt32} (hnonce : interest.nonce = some nonce)
    (hnew : r.nonces.contains nonce = false) (hname : interest.name.flags.expression = false)
    (source : FaceId) :
    r.handleInterest source interest = (.error (.unknownFace source), r) ∨
      Resolves (r.noted source nonce) source interest (r.handleInterest source interest).1
        (r.handleInterest source interest).2 := by
  by_cases hsource : r.faces.contains source = true
  · exact .inr (resolves_of_known hsource hnonce hnew hname)
  · left
    rw [handleInterest, if_neg hsource]

/-- The relay once Interests have arrived on faces, the first of them first. -/
def receiveAll (r : Relay) (arrivals : List (FaceId × Interest)) : Relay :=
  r.performAll (arrivals.map fun a => .handleInterest a.1 a.2)

private theorem receiveAll_append (r : Relay) (before after : List (FaceId × Interest)) :
    r.receiveAll (before ++ after) = (r.receiveAll before).receiveAll after := by
  rw [receiveAll, List.map_append, performAll, List.foldl_append]
  rfl

/-- Whether Interests have nonces of their own, none of which a relay knows. -/
structure Unseen (r : Relay) (arrivals : List (FaceId × Interest)) : Prop where
  given : ∀ a ∈ arrivals, ∃ nonce, a.2.nonce = some nonce
  distinct : (arrivals.filterMap (·.2.nonce)).Nodup
  unknown : ∀ nonce ∈ arrivals.filterMap (·.2.nonce), r.nonces.contains nonce = false

/-- Whether an Interest that arrives names no expression, and, if it asks for the same as a given one, comes
from a known face that does not have all Interests sent on. -/
structure Plain (r : Relay) (interest : Interest) (a : FaceId × Interest) : Prop where
  name : a.2.name.flags.expression = false
  face : a.2.asksSame interest = true →
    ∃ flags, r.faces.flags a.1 = some flags ∧ flags.forwardAll = false

/-- What has become of a relay and of an Interest since the relay was another one and had neither data nor
a pending Interest for it. The Interests that have come for the same are in one entry, and the first of
them was sent on through a face. -/
structure Gathered (r₀ : Relay) (interest : Interest) (b : FaceId)
    (copies : List (FaceId × Interest)) (r : Relay) : Prop where
  reachable : ReachableBy Operation.IsUnmarked r
  lacks : r.store.Lacks interest
  flags : ∀ x, r.faces.flags x = r₀.faces.flags x
  pending : copies = [] ∧ r.pending.asking interest = [] ∨
    ∃ e, r.pending.asking interest = [e] ∧ e.Gathers copies
  queued : ∀ x, r.faces.asked interest x =
    r₀.faces.asked interest x ++ if x = b then copies.head?.toList.map (.interest ·.2) else []

namespace Unseen

variable {arrivals before rest : List (FaceId × Interest)}

private theorem of_append (h : r.Unseen (before ++ rest)) : r.Unseen before := by
  have hsub : (before.filterMap (·.2.nonce)).Sublist ((before ++ rest).filterMap (·.2.nonce)) :=
    (List.sublist_append_left before rest).filterMap _
  exact ⟨fun a ha => h.given a (List.mem_append_left _ ha), hsub.nodup h.distinct,
    fun nonce hmem => h.unknown nonce (hsub.subset hmem)⟩

/-- The nonces of those that are still to come are not known either after the first has come. -/
theorem tail (h : r.Unseen ((source, other) :: arrivals))
    (hname : other.name.flags.expression = false) :
    (r.handleInterest source other).2.Unseen arrivals := by
  obtain ⟨nonce, hnonce⟩ := h.given _ List.mem_cons_self
  have hall : ((source, other) :: arrivals).filterMap (·.2.nonce) =
      nonce :: arrivals.filterMap (·.2.nonce) := List.filterMap_cons_some hnonce
  have hdistinct := h.distinct
  have hunknown := h.unknown
  rw [hall] at hdistinct hunknown
  refine ⟨fun a ha => h.given a (List.mem_cons_of_mem _ ha), hdistinct.of_cons, fun n hn => ?_⟩
  have hn' := hunknown n (List.mem_cons_of_mem _ hn)
  rcases resolves_of_handleInterest hnonce (hunknown nonce List.mem_cons_self) hname source with
    heq | hresolves
  · rw [heq]
    exact hn'
  · by_contra hknown
    rw [hresolves.nonces, Bool.not_eq_false] at hknown
    rcases NonceTable.contains_of_record hknown with rfl | hbefore
    · exact (List.nodup_cons.mp hdistinct).1 hn
    · rw [hn'] at hbefore
      cases hbefore

/-- The nonces of those that are still to come are not known either after some have come. -/
theorem after (h : r.Unseen (before ++ rest))
    (hnames : ∀ a ∈ before, a.2.name.flags.expression = false) :
    (r.receiveAll before).Unseen rest := by
  induction before generalizing r with
  | nil => exact h
  | cons a before ih =>
    obtain ⟨source, other⟩ := a
    have htail := h.tail (hnames _ List.mem_cons_self)
    exact ih htail fun a ha => hnames a (List.mem_cons_of_mem _ ha)

end Unseen

/-- A relay that has handled an Interest can be reached. -/
theorem reachable_handleInterest {kind : Operation → Prop} (hr : ReachableBy kind r) (source : FaceId)
    (interest : Interest) (hkind : kind (.handleInterest source interest)) :
    ReachableBy kind (r.handleInterest source interest).2 :=
  @ReachableBy.perform _ r (.handleInterest source interest) hr hkind

namespace Gathered

variable {r₀ : Relay} {b : FaceId} {copies : List (FaceId × Interest)} {nonce : UInt32}

/-- An Interest that does not ask for the same changes nothing about those that do. -/
theorem after_other (h : Gathered r₀ interest b copies r) (hnonce : other.nonce = some nonce)
    (hnew : r.nonces.contains nonce = false) (hname : other.name.flags.expression = false)
    (hother : other.asksSame interest = false) :
    Gathered r₀ interest b copies (r.handleInterest source other).2 := by
  rcases resolves_of_handleInterest hnonce hnew hname source with heq | hresolves
  · rw [heq]
    exact h
  · have hwellFormed := (tidy_of_reachable h.reachable).wellFormed
    refine ⟨reachable_handleInterest h.reachable source other trivial,
      hresolves.lacks h.lacks, fun x => ?_, ?_, fun x => ?_⟩
    · rw [hresolves.flags, flags_noted, h.flags]
    · rw [hresolves.asking_of_other hwellFormed hother]
      exact h.pending
    · rw [hresolves.asked_of_other hwellFormed hother, asked_noted, h.queued]

/-- The first Interest that is sent on is the first of those that are gathered. -/
theorem after_first (h : Gathered r₀ interest b [] r) (hnonce : other.nonce = some nonce)
    (hnew : r.nonces.contains nonce = false) (hname : other.name.flags.expression = false)
    (hsame : other.asksSame interest = true)
    (houtcome : (r.handleInterest source other).1 = .ok (.forwarded b)) :
    Gathered r₀ interest b [(source, other)] (r.handleInterest source other).2 := by
  rcases resolves_of_handleInterest hnonce hnew hname source with heq | hresolves
  · rw [heq] at houtcome
    cases houtcome
  · have hwellFormed := (tidy_of_reachable h.reachable).wellFormed
    have hnone : r.pending.asking interest = [] := by
      rcases h.pending with ⟨-, hnone⟩ | ⟨e, -, hgathers⟩
      · exact hnone
      · cases hgathers.interest
    rw [houtcome] at hresolves
    obtain ⟨hentry, hasked⟩ := hresolves.of_forwarded hsame hnone hwellFormed
    refine ⟨reachable_handleInterest h.reachable source other trivial,
      hresolves.lacks h.lacks, fun x => ?_, .inr hentry, fun x => ?_⟩
    · rw [hresolves.flags, flags_noted, h.flags]
    · have hqueued := h.queued x
      rw [List.head?_nil, Option.toList_none, List.map_nil, ite_self, List.append_nil] at hqueued
      rw [hasked, asked_noted, hqueued]
      rfl

/-- Another Interest that asks for the same is gathered with those that are there, and not sent on. -/
theorem after_copy (h : Gathered r₀ interest b copies r) (hcopies : copies ≠ [])
    (hnonce : other.nonce = some nonce) (hnew : r.nonces.contains nonce = false)
    (hplain : Plain r₀ interest (source, other)) (hsame : other.asksSame interest = true)
    (hdistinct : ((copies ++ [(source, other)]).filterMap (·.2.nonce)).Nodup) :
    (r.handleInterest source other).1 = .ok .aggregated ∧
      Gathered r₀ interest b (copies ++ [(source, other)]) (r.handleInterest source other).2 := by
  obtain ⟨flags, hflags, hstays⟩ := hplain.face hsame
  have hface := (h.flags source).trans hflags
  obtain ⟨e, hone, hgathers⟩ : ∃ e, r.pending.asking interest = [e] ∧ e.Gathers copies :=
    h.pending.resolve_left fun hnone => hcopies hnone.1
  have hfresh : nonce ∉ copies.filterMap (·.2.nonce) := by
    rw [List.filterMap_append, List.nodup_append] at hdistinct
    intro hmem
    refine hdistinct.2.2 nonce hmem nonce ?_ rfl
    simp [hnonce]
  have hsource : r.faces.contains source = true := by
    rw [FaceTable.contains_eq_isSome, ← Option.isSome_map (f := Face.flags)]
    exact congrArg Option.isSome hface
  have hforward : ((r.noted source nonce).faces.get? source).any (·.flags.forwardAll) = false := by
    have hany := congrArg (·.any FaceFlags.forwardAll) ((r.flags_noted source nonce source).trans hface)
    rw [FaceTable.flags, Option.any_map] at hany
    exact hany.trans hstays
  have hresolves := resolves_of_known hsource hnonce hnew hplain.name
  obtain ⟨houtcome, hjoined, hfaces⟩ := hresolves.of_gathered hsame h.lacks hone hforward
  refine ⟨houtcome, reachable_handleInterest h.reachable source other trivial,
    hresolves.lacks h.lacks, fun x => ?_, .inr ⟨_, hjoined, hgathers.join source hnonce hfresh _⟩,
    fun x => ?_⟩
  · rw [hfaces, flags_noted, h.flags]
  · rw [hfaces, asked_noted, List.head?_append_of_ne_nil _ hcopies, h.queued]

/-- Whatever Interests arrive, those that ask for the same are gathered once the first is there. -/
theorem receiveAll (h : Gathered r₀ interest b copies r) {arrivals : List (FaceId × Interest)}
    (hfirst : copies = [] → ∀ a ∈ arrivals, a.2.asksSame interest = false)
    (hplain : ∀ a ∈ arrivals, Plain r₀ interest a) (hunseen : r.Unseen arrivals)
    (hdistinct : ((copies ++ arrivals).filterMap (·.2.nonce)).Nodup) :
    Gathered r₀ interest b (copies ++ arrivals.filter (·.2.asksSame interest))
      (r.receiveAll arrivals) := by
  -- That nonces differ is asked of the run: the table forgets the earliest ones when it is full, so it
  -- does not tell the Interests that are to come from those that are gathered.
  induction arrivals generalizing r copies with
  | nil =>
    rw [List.filter_nil, List.append_nil]
    exact h
  | cons a arrivals ih =>
    obtain ⟨source, other⟩ := a
    obtain ⟨nonce, hnonce⟩ := hunseen.given _ List.mem_cons_self
    have hnew := hunseen.unknown nonce (List.mem_filterMap.mpr ⟨_, List.mem_cons_self, hnonce⟩)
    have hother := hplain _ List.mem_cons_self
    have hrest := fun a ha => hplain a (List.mem_cons_of_mem _ ha)
    have htail := hunseen.tail hother.name
    by_cases hsame : other.asksSame interest = true
    · have hcopies : copies ≠ [] := fun hnone => by
        rw [hfirst hnone _ List.mem_cons_self] at hsame
        cases hsame
      rw [List.append_cons] at hdistinct
      have hsub : ((copies ++ [(source, other)]).filterMap (·.2.nonce)).Sublist
          (((copies ++ [(source, other)]) ++ arrivals).filterMap (·.2.nonce)) :=
        (List.sublist_append_left _ _).filterMap _
      obtain ⟨-, hnext⟩ := h.after_copy hcopies hnonce hnew hother hsame (hsub.nodup hdistinct)
      have hfilter : ((source, other) :: arrivals).filter (·.2.asksSame interest) =
          (source, other) :: arrivals.filter (·.2.asksSame interest) :=
        List.filter_cons_of_pos hsame
      rw [hfilter, List.append_cons]
      exact ih hnext (fun hnone => by simp at hnone) hrest htail hdistinct
    · have hothers := Bool.eq_false_iff.mpr hsame
      have hsub : ((copies ++ arrivals).filterMap (·.2.nonce)).Sublist
          ((copies ++ (source, other) :: arrivals).filterMap (·.2.nonce)) :=
        ((List.sublist_cons_self _ _).append_left copies).filterMap _
      have hfilter : ((source, other) :: arrivals).filter (·.2.asksSame interest) =
          arrivals.filter (·.2.asksSame interest) := List.filter_cons_of_neg hsame
      rw [hfilter]
      exact ih (h.after_other hnonce hnew hother.name hothers)
        (fun hnone a ha => hfirst hnone a (List.mem_cons_of_mem _ ha)) hrest htail
        (hsub.nodup hdistinct)

end Gathered

/-- A relay that has neither data nor a pending Interest for it has gathered nothing yet. -/
theorem Gathered.start (hr : ReachableBy Operation.IsUnmarked r) (hlacks : r.store.Lacks interest)
    (hnew : r.pending.findSame interest = none) (b : FaceId) : Gathered r interest b [] r := by
  rw [PendingTable.findSame_eq (Interest.asksSame_refl interest), Option.map_eq_none_iff,
    List.head?_eq_none_iff] at hnew
  refine ⟨hr, hlacks, fun _ => rfl, .inl ⟨rfl, hnew⟩, fun x => ?_⟩
  rw [List.head?_nil, Option.toList_none, List.map_nil, ite_self, List.append_nil]

/-- From the first Interest on that is sent on, those that ask for the same are gathered. -/
theorem Gathered.of_arrivals {r₀ : Relay} {b : FaceId} {before after : List (FaceId × Interest)}
    (hr : ReachableBy Operation.IsUnmarked r₀) (hlacks : r₀.store.Lacks interest)
    (hnew : r₀.pending.findSame interest = none)
    (hbefore : ∀ a ∈ before, a.2.asksSame interest = false)
    (hplain : ∀ a ∈ before ++ (source, interest) :: after, Plain r₀ interest a)
    (hunseen : r₀.Unseen (before ++ (source, interest) :: after))
    (hforwarded : ((r₀.receiveAll before).handleInterest source interest).1 = .ok (.forwarded b)) :
    Gathered r₀ interest b ((source, interest) :: after.filter (·.2.asksSame interest))
      (r₀.receiveAll (before ++ (source, interest) :: after)) := by
  have hplain₁ := fun a ha => hplain a (List.mem_append_left _ ha)
  have hplain₂ := hplain _ (List.mem_append_right _ List.mem_cons_self)
  have hplain₃ := fun a ha => hplain a (List.mem_append_right _ (List.mem_cons_of_mem _ ha))
  have hthere := (Gathered.start hr hlacks hnew b).receiveAll (fun _ => hbefore) hplain₁
    hunseen.of_append hunseen.of_append.distinct
  have hnothing : before.filter (·.2.asksSame interest) = [] :=
    List.filter_eq_nil_iff.mpr fun a ha => by simp [hbefore a ha]
  rw [hnothing, List.append_nil] at hthere
  have hrest := hunseen.after fun a ha => (hplain₁ a ha).name
  obtain ⟨nonce, hnonce⟩ := hrest.given _ List.mem_cons_self
  have hknown := hrest.unknown nonce (List.mem_filterMap.mpr ⟨_, List.mem_cons_self, hnonce⟩)
  have hfirst := hthere.after_first hnonce hknown hplain₂.name (Interest.asksSame_refl interest)
    hforwarded
  rw [receiveAll_append]
  exact hfirst.receiveAll (fun hnone => by cases hnone) hplain₃ (hrest.tail hplain₂.name) hrest.distinct

/-- Whatever Interests in no expressions arrive at a relay that comes about without marks from outside and has
neither data nor a pending Interest for one of them: if the first that asks for that is sent on, all others
that ask for the same join it. Of all of them only the first is put on a queue, on that of the face that it is
sent on through. One entry is there for them; the faces that they came from wait there, each once and in the
order in which the first of each came, and it has all their nonces in order. Data from a known face that
satisfies them takes the entry away and comes once to each of these faces that has room. -/
theorem aggregated_of_arrivals {r₀ : Relay} {interest : Interest} {source b : FaceId}
    {before after : List (FaceId × Interest)} (hr : ReachableBy Operation.IsUnmarked r₀)
    (hlacks : r₀.store.Lacks interest) (hnew : r₀.pending.findSame interest = none)
    (hbefore : ∀ a ∈ before, a.2.asksSame interest = false)
    (hplain : ∀ a ∈ before ++ (source, interest) :: after, Plain r₀ interest a)
    (hunseen : r₀.Unseen (before ++ (source, interest) :: after))
    (hforwarded : ((r₀.receiveAll before).handleInterest source interest).1 = .ok (.forwarded b)) :
    (∀ earlier face copy later, after = earlier ++ (face, copy) :: later →
      copy.asksSame interest = true →
      ((r₀.receiveAll (before ++ (source, interest) :: earlier)).handleInterest face copy).1 =
        .ok .aggregated) ∧
    (∀ x, (r₀.receiveAll (before ++ (source, interest) :: after)).faces.asked interest x =
      r₀.faces.asked interest x ++ if x = b then [.interest interest] else []) ∧
    ∃ e, (r₀.receiveAll (before ++ (source, interest) :: after)).pending.asking interest = [e] ∧
      e.Gathers ((source, interest) :: after.filter (·.2.asksSame interest)) ∧
      e.faces = (((source, interest) :: after.filter (·.2.asksSame interest)).map (·.1)).eraseDups ∧
      ∀ face content,
        (r₀.receiveAll (before ++ (source, interest) :: after)).faces.contains face = true →
        interest.satisfiedBy content false = true →
        (r₀.receiveAll (before ++ (source, interest) :: after)).Fulfils face content e := by
  have hgathered := Gathered.of_arrivals hr hlacks hnew hbefore hplain hunseen hforwarded
  refine ⟨?_, hgathered.queued, ?_⟩
  · rintro earlier face copy later rfl hsame
    have hall : before ++ (source, interest) :: (earlier ++ (face, copy) :: later) =
        (before ++ (source, interest) :: earlier) ++ (face, copy) :: later := by
      rw [List.append_assoc, List.cons_append]
    rw [hall] at hplain hunseen
    have hsoFar := fun a ha => hplain a (List.mem_append_left _ ha)
    have hthere := Gathered.of_arrivals hr hlacks hnew hbefore hsoFar hunseen.of_append hforwarded
    have hrest := hunseen.after fun a ha => (hsoFar a ha).name
    obtain ⟨nonce, hnonce⟩ := hrest.given _ List.mem_cons_self
    have hknown := hrest.unknown nonce (List.mem_filterMap.mpr ⟨_, List.mem_cons_self, hnonce⟩)
    have hcopies : ((source, interest) :: earlier.filter (·.2.asksSame interest)).Sublist
        (before ++ (source, interest) :: earlier) :=
      (List.filter_sublist.cons_cons _).trans (List.sublist_append_right _ _)
    have hsub := (hcopies.append (List.singleton_sublist.mpr
      (List.mem_cons_self (a := (face, copy)) (l := later)))).filterMap (·.2.nonce)
    exact (hthere.after_copy (List.cons_ne_nil _ _) hnonce hknown
      (hplain _ (List.mem_append_right _ List.mem_cons_self)) hsame (hsub.nodup hunseen.distinct)).1
  · obtain ⟨e, hone, hgathers⟩ := hgathered.pending.resolve_left fun hnone => by cases hnone.1
    refine ⟨e, hone, hgathers, hgathers.faces, fun face content hface hsatisfied => ?_⟩
    obtain ⟨he, hasks⟩ := PendingTable.mem_asking.mp (hone ▸ List.mem_singleton_self e)
    rw [← Interest.satisfiedBy_of_asksSame hasks] at hsatisfied
    exact fulfils_of_satisfied (attended_of_reachable hgathered.reachable)
      (unmarked_of_reachable hgathered.reachable) hface he hsatisfied

/-- Two faces ask for the same, one of them twice, after one of them has asked for something else. -/
theorem aggregated_of_arrivals_three :
    ∃ (a r₀ r : Relay) (other i j k : Interest) (c : Content),
      Relay.new {} (.ofSeed 0) = .ok a ∧
      other = (Interest.ofName (.ofComponents [[0x79]])).withNonce 6 ∧
      i = (Interest.ofName (.ofComponents [[0x78]])).withNonce 7 ∧ j = { i with nonce := some 8 } ∧
      k = { i with nonce := some 9 } ∧ c = .ofPayload i.name [0x7a] ∧
      r₀ = a.performAll
        [.faceForPeer 0 (.unix "a"), .faceForPeer 1 (.unix "b"), .faceForPeer 2 (.unix "c"),
          .addRoute (.ofComponents []) ⟨3⟩ .ndn2013] ∧
      r = r₀.receiveAll [(⟨1⟩, other), (⟨1⟩, i), (⟨2⟩, j), (⟨1⟩, k)] ∧
      ((r₀.receiveAll [(⟨1⟩, other)]).handleInterest ⟨1⟩ i).1 = .ok (.forwarded ⟨3⟩) ∧
      ((r₀.receiveAll [(⟨1⟩, other), (⟨1⟩, i)]).handleInterest ⟨2⟩ j).1 = .ok .aggregated ∧
      ((r₀.receiveAll [(⟨1⟩, other), (⟨1⟩, i), (⟨2⟩, j)]).handleInterest ⟨1⟩ k).1 =
        .ok .aggregated ∧
      r.faces.asked i ⟨3⟩ = [.interest i] ∧
      ∃ e, r.pending.asking i = [e] ∧ e.faces = [⟨1⟩, ⟨2⟩] ∧ e.nonces = [7, 8, 9] ∧
        r.Fulfils ⟨3⟩ c e := by
  have hgather {r₀ r : Relay} {other i j k : Interest} {c : Content}
      (hr : ReachableBy Operation.IsUnmarked r₀)
      (hafter : r = r₀.receiveAll [(⟨1⟩, other), (⟨1⟩, i), (⟨2⟩, j), (⟨1⟩, k)])
      (hstore : r₀.store.entries = []) (hpending : r₀.pending.entries = [])
      (hknown : r₀.nonces.records = []) (hother : other.asksSame i = false)
      (hj : j = { i with nonce := some 8 }) (hk : k = { i with nonce := some 9 })
      (hnonces : other.nonce = some 6 ∧ i.nonce = some 7)
      (hnames : other.name.flags.expression = false ∧ i.name.flags.expression = false)
      (hflags₁ : r₀.faces.flags ⟨1⟩ = some {}) (hflags₂ : r₀.faces.flags ⟨2⟩ = some {})
      (hforwarded : ((r₀.receiveAll [(⟨1⟩, other)]).handleInterest ⟨1⟩ i).1 = .ok (.forwarded ⟨3⟩))
      (hqueue : r₀.faces.asked i ⟨3⟩ = []) (hface : r.faces.contains ⟨3⟩ = true)
      (hc : i.satisfiedBy c false = true) :
      ((r₀.receiveAll [(⟨1⟩, other)]).handleInterest ⟨1⟩ i).1 = .ok (.forwarded ⟨3⟩) ∧
        ((r₀.receiveAll [(⟨1⟩, other), (⟨1⟩, i)]).handleInterest ⟨2⟩ j).1 = .ok .aggregated ∧
        ((r₀.receiveAll [(⟨1⟩, other), (⟨1⟩, i), (⟨2⟩, j)]).handleInterest ⟨1⟩ k).1 =
          .ok .aggregated ∧
        r.faces.asked i ⟨3⟩ = [.interest i] ∧
        ∃ e, r.pending.asking i = [e] ∧ e.faces = [⟨1⟩, ⟨2⟩] ∧ e.nonces = [7, 8, 9] ∧
          r.Fulfils ⟨3⟩ c e := by
    have hsame : j.asksSame i = true ∧ k.asksSame i = true := by
      rw [hj, hk]
      exact ⟨Interest.asksSame_refl i, Interest.asksSame_refl i⟩
    have hlacks : r₀.store.Lacks i := by
      rw [ContentStore.Lacks, hstore]
      exact List.forall_mem_nil _
    have hnew : r₀.pending.findSame i = none := by rw [PendingTable.findSame, hpending]; rfl
    have hplain : ∀ a ∈ [((⟨1⟩ : FaceId), other), (⟨1⟩, i), (⟨2⟩, j), (⟨1⟩, k)], Plain r₀ i a := by
      simp only [List.forall_mem_cons, hj, hk]
      exact ⟨⟨hnames.1, fun _ => ⟨_, hflags₁, rfl⟩⟩, ⟨hnames.2, fun _ => ⟨_, hflags₁, rfl⟩⟩,
        ⟨hnames.2, fun _ => ⟨_, hflags₂, rfl⟩⟩, ⟨hnames.2, fun _ => ⟨_, hflags₁, rfl⟩⟩,
        List.forall_mem_nil _⟩
    have hunseen : r₀.Unseen [(⟨1⟩, other), (⟨1⟩, i), (⟨2⟩, j), (⟨1⟩, k)] := by
      refine ⟨?_, ?_, ?_⟩
      · simp [hj, hk, hnonces]
      · simp [hj, hk, hnonces]
      · simp [NonceTable.contains, hknown]
    obtain ⟨hlater, hasked, e, hone, hgathers, hfaces, hfulfils⟩ :=
      @aggregated_of_arrivals r₀ i ⟨1⟩ ⟨3⟩ [(⟨1⟩, other)] [(⟨2⟩, j), (⟨1⟩, k)] hr hlacks hnew
        (List.forall_mem_singleton.mpr hother) hplain hunseen hforwarded
    have hcopies : [((⟨2⟩ : FaceId), j), (⟨1⟩, k)].filter (·.2.asksSame i) = [(⟨2⟩, j), (⟨1⟩, k)] := by
      simp [hsame]
    rw [hcopies] at hgathers hfaces
    have hlast := hasked ⟨3⟩
    rw [hqueue, if_pos rfl] at hlast
    have hkept : e.nonces = [7, 8, 9] := by
      rw [hgathers.nonces]
      simp [hj, hk, hnonces]
    rw [hafter] at hface ⊢
    exact ⟨hforwarded, hlater [] _ _ _ rfl hsame.1, hlater [(⟨2⟩, j)] _ _ _ rfl hsame.2, hlast, e,
      hone, hfaces, hkept, hfulfils _ _ hface hc⟩
  have hnewRelay : Relay.new {} (.ofSeed 0) = .ok _ := rfl
  refine ⟨_, _, _, _, _, _, _, _, hnewRelay, rfl, rfl, rfl, rfl, rfl, rfl, rfl,
    hgather (.performAll (.new hnewRelay) ?_) rfl rfl rfl rfl rfl rfl rfl
      ⟨rfl, rfl⟩ ⟨rfl, rfl⟩ rfl rfl rfl rfl rfl rfl⟩
  simp [Operation.IsUnmarked]

/-- A face that is added with a mark on it asks for data, and the Interest is sent on. The data is not put on
its queue, which has room. From a face that is not known the data does not even take the entry away. -/
theorem unfulfilled_of_mark :
    ∃ (a r₀ r : Relay) (i : Interest) (c : Content),
      Relay.new {} (.ofSeed 0) = .ok a ∧
      i = (Interest.ofName (.ofComponents [[0x78]])).withNonce 7 ∧ c = .ofPayload i.name [0x7a] ∧
      r₀ = a.performAll
        [.addStaticFace 0 (.unix "a") { served := true }, .faceForPeer 1 (.unix "b"),
          .addRoute (.ofComponents []) ⟨2⟩ .ndn2013] ∧
      r = r₀.receiveAll [(⟨1⟩, i)] ∧ r₀.Reachable ∧ r₀.store.Lacks i ∧
      r₀.pending.findSame i = none ∧ Plain r₀ i (⟨1⟩, i) ∧ r₀.Unseen [(⟨1⟩, i)] ∧
      (r₀.handleInterest ⟨1⟩ i).1 = .ok (.forwarded ⟨2⟩) ∧ i.satisfiedBy c false = true ∧
      ∃ e, r.pending.asking i = [e] ∧ e.faces = [⟨1⟩] ∧ ¬ r.Fulfils ⟨2⟩ c e ∧ ¬ r.Fulfils ⟨3⟩ c e := by
  have hlost {r : Relay} {i : Interest} {c : Content}
      (hasking : (r.pending.asking i).map PendingEntry.faces = [[⟨1⟩]])
      (hroom : (r.faces.get? ⟨1⟩).all (fun face => !decide face.IsFull) = true)
      (hsource : r.faces.contains ⟨2⟩ = true) (hother : r.faces.contains ⟨3⟩ = false)
      (hanswered : (r.pending.takeAnswered c).1 ≠ []) (hnone : r.awaitedBy ⟨2⟩ c = [])
      (hnothing : (r.handedOver ⟨2⟩ c).2.faces.contents ⟨1⟩ = []) :
      ∃ e, r.pending.asking i = [e] ∧ e.faces = [⟨1⟩] ∧ ¬ r.Fulfils ⟨2⟩ c e ∧ ¬ r.Fulfils ⟨3⟩ c e := by
    obtain ⟨e, hone, hfaces⟩ := List.map_eq_singleton_iff.mp hasking
    refine ⟨e, hone, hfaces, fun h => ?_, fun h => ?_⟩
    · obtain ⟨face, others, hf, -, hplaced⟩ := h.offered ⟨1⟩ (hfaces ▸ List.mem_singleton_self _)
      have hafter := (perform_handleContent_of_unawaited hsource hanswered hnone).1
      rw [hf, Option.all_some, Bool.not_eq_true', decide_eq_false_iff_not] at hroom
      rw [perform] at hafter
      rw [hafter, hnothing, if_neg hroom] at hplaced
      simp at hplaced
    · obtain ⟨queued, resumed, hdelivered⟩ := h.delivered
      rw [handleContent, if_neg (by simp [hother])] at hdelivered
      cases hdelivered
  have hnew : Relay.new {} (.ofSeed 0) = .ok _ := rfl
  refine ⟨_, _, _, _, _, hnew, rfl, rfl, rfl, rfl, .performAll (.new hnew) fun _ _ => trivial,
    List.forall_mem_nil _, rfl, ⟨rfl, fun _ => ⟨_, rfl, rfl⟩⟩, ⟨?_, ?_, ?_⟩, rfl, rfl,
    hlost ?_ ?_ ?_ ?_ ?_ ?_ ?_⟩
  · exact List.forall_mem_singleton.mpr ⟨7, rfl⟩
  · exact List.nodup_singleton _
  · exact List.forall_mem_singleton.mpr rfl
  all_goals decide +kernel

end Relay

end NamedFunctions
