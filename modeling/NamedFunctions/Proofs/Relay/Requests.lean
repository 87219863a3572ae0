import NamedFunctions.Proofs.Relay.Answering
import NamedFunctions.Proofs.Relay.Handling

/-!
# What becomes of the requests of faces

A face that waits in a pending Interest goes on to wait there until it is offered data that satisfies
the Interest, the Interest runs out, or the face is removed. Nothing else takes its request away.
-/

namespace NamedFunctions.Relay

/-- Whether data is delivered to a face for its request in a pending Interest: the data comes onto its
queue, unless that is full. -/
def Event.Serves (e : PendingEntry) (id : FaceId) : Event → Prop
  | deliver s content =>
    s.pending.Keeps e id ∧ e.interest.satisfiedBy content false = true ∧
      ((deliver s content).faces.contents id = s.faces.contents id ++ [content] ∨
        ∃ face, s.faces.get? id = some face ∧ face.IsFull)
  | _ => False

private theorem Event.Serves.of_same {e e₁ : PendingEntry} {id : FaceId} {event : Event}
    (h : event.Serves e₁ id) (hid : e₁.id = e.id) (hinterest : e₁.interest = e.interest) :
    event.Serves e id := by
  cases event with
  | deliver s content => exact ⟨h.1.of_same hid hinterest, hinterest ▸ h.2.1, h.2.2⟩
  | answer => exact h
  | resume => exact h

/-- Whether all faces that wait in pending Interests are there. -/
structure Attended (r : Relay) : Prop where
  wellFormed : r.pending.WellFormed
  present : ∀ e ∈ r.pending.entries, ∀ id ∈ e.faces, r.faces.contains id = true

variable {r r' : Relay} {agenda agenda' : List ComputationId} {events : List Event}

/-- A computation that is taken further changes no request of a face. -/
theorem Carried.requests {id : ComputationId} {outcome : Except RelayError Settled}
    (h : Carried r id outcome r') (hwellFormed : r.pending.WellFormed) :
    r'.pending.WellFormed ∧
      (∀ e ∈ r.pending.entries, ∀ x ∈ e.faces, r'.pending.Keeps e x) ∧
      ∀ e' ∈ r'.pending.entries, ∀ x ∈ e'.faces, ∃ e ∈ r.pending.entries, x ∈ e.faces := by
  cases h with
  | stopped =>
    exact ⟨hwellFormed, fun e he x hx => ⟨e, he, rfl, rfl, hx⟩, fun e he x hx => ⟨e, he, hx⟩⟩
  | @joined store stats c name entry hid hawaiting hsame =>
    refine ⟨hwellFormed.modify entry fun _ => rfl, fun e he x hx => ?_, fun e' he' x hx => ?_⟩
    · exact PendingTable.keeps_modify he hx entry rfl rfl (PendingEntry.mem_faces_join.mpr (.inr hx))
    · obtain ⟨e, he, rfl⟩ := List.mem_map.mp he'
      refine ⟨e, he, ?_⟩
      split at hx
      · rcases PendingEntry.mem_faces_join.mp hx with hnow | hbefore
        · cases hnow
        · exact hbefore
      · exact hx
  | issued store stats source nonces faces nonce =>
    refine ⟨hwellFormed.insert _ _ _, fun e he x hx => PendingTable.keeps_insert he hx _ _ _, ?_⟩
    intro e' he' x hx
    rcases List.mem_append.mp he' with he' | he'
    · exact ⟨e', he', hx⟩
    · obtain rfl := List.mem_singleton.mp he'
      exact absurd hx List.not_mem_nil
  | stranded error store stats source nonces faces interest =>
    have hentries := hwellFormed.entries_erase_insert interest (.computation id) r.clock
    refine ⟨(hwellFormed.insert _ _ _).filter _, fun e he x hx => ?_, fun e he x hx => ?_⟩
    · exact ⟨e, hentries.symm ▸ he, rfl, rfl, hx⟩
    · exact ⟨e, hentries ▸ he, hx⟩

private theorem contains_step (h : Step r agenda events r' agenda') (id : FaceId) :
    r'.faces.contains id = r.faces.contains id := by
  cases h with
  | aside _ _ hquiet => exact hquiet.contains_eq id
  | answer source interest content => exact r.contains_send source _ id
  | deliver content => exact r.contains_serve content _ id
  | resume _ _ hcarried => exact hcarried.quiet.contains_eq id
  | begin hcarried => exact hcarried.quiet.contains_eq id
  | _ => rfl

/-- No step leaves a mark on a face. -/
theorem unmarkedAt_step (h : Step r agenda events r' agenda') {id : FaceId}
    (hm : r.faces.UnmarkedAt id) : r'.faces.UnmarkedAt id := by
  cases h with
  | aside _ _ hquiet => exact hquiet.unmarkedAt hm
  | answer source interest content => exact unmarkedAt_send hm source _
  | deliver content => exact r.unmarked_serve content _ id
  | resume _ _ hcarried => exact hcarried.quiet.unmarkedAt hm
  | begin hcarried => exact hcarried.quiet.unmarkedAt hm
  | _ => exact hm

private theorem Carried.present {id : ComputationId} {outcome : Except RelayError Settled}
    (h : Carried r id outcome r') (hr : Attended r) :
    r'.pending.WellFormed ∧ ∀ e' ∈ r'.pending.entries, ∀ x ∈ e'.faces, r.faces.contains x = true := by
  obtain ⟨hwellFormed, -, hfaces⟩ := h.requests hr.wellFormed
  refine ⟨hwellFormed, fun e' he' x hx => ?_⟩
  obtain ⟨e, he, hx⟩ := hfaces e' he' x hx
  exact hr.present e he x hx

namespace Attended

/-- With each step all faces that wait are there. -/
theorem step (h : Attended r) (hstep : Step r agenda events r' agenda') : Attended r' := by
  suffices hpending : r'.pending.WellFormed ∧
      ∀ e' ∈ r'.pending.entries, ∀ id ∈ e'.faces, r.faces.contains id = true by
    refine ⟨hpending.1, fun e' he' id hid => ?_⟩
    rw [contains_step hstep]
    exact hpending.2 e' he' id hid
  cases hstep with
  | aside hpending => exact hpending ▸ ⟨h.wellFormed, h.present⟩
  | @ask _ source interest hsource =>
    refine ⟨h.wellFormed.insert _ _ _, fun e' he' id hid => ?_⟩
    rcases List.mem_append.mp he' with he' | he'
    · exact h.present e' he' id hid
    · obtain rfl := List.mem_singleton.mp he'
      obtain rfl := List.mem_singleton.mp hid
      exact hsource
  | @join _ source entry nonce hsource =>
    refine ⟨h.wellFormed.modify entry fun _ => rfl, fun e' he' id hid => ?_⟩
    obtain ⟨e, he, rfl⟩ := List.mem_map.mp he'
    split at hid
    · rcases PendingEntry.mem_faces_join.mp hid with hnow | hbefore
      · cases hnow
        exact hsource
      · exact h.present e he id hbefore
    · exact h.present e he id hid
  | withdraw source interest =>
    have hentries := h.wellFormed.entries_erase_insert interest (.face source) r.clock
    refine ⟨(h.wellFormed.insert _ _ _).filter _, fun e he id hid => ?_⟩
    exact h.present e (hentries ▸ he) id hid
  | answer source interest content =>
    rw [pending_send]
    exact ⟨h.wellFormed, h.present⟩
  | deliver content =>
    exact ⟨h.wellFormed.filter _, fun e he => h.present e (List.mem_of_mem_filter he)⟩
  | resume _ _ hcarried => exact hcarried.present ⟨h.wellFormed, h.present⟩
  | miss => exact ⟨h.wellFormed, h.present⟩
  | begin hcarried => exact hcarried.present ⟨h.wellFormed, h.present⟩

private theorem course (h : Attended r) (hcourse : Course r agenda events r' agenda') : Attended r' := by
  induction hcourse with
  | refl => exact h
  | step first _ ih => exact ih (h.step first)

end Attended

/-- Data that satisfies a pending Interest is delivered to a face that waits there without a mark. -/
theorem Attended.serves (h : Attended r) {e : PendingEntry} (he : e ∈ r.pending.entries) {id : FaceId}
    (hid : id ∈ e.faces) (hm : r.faces.UnmarkedAt id) {content : Content}
    (hsatisfied : e.interest.satisfiedBy content false = true) :
    (Event.deliver r content).Serves e id := by
  refine ⟨⟨e, he, rfl, rfl, hid⟩, hsatisfied, ?_⟩
  have hasked : ∃ e ∈ (r.pending.takeAnswered content).1, id ∈ e.faces :=
    ⟨e, List.mem_filter.mpr ⟨he, hsatisfied⟩, hid⟩
  have hpresent := h.present e he id hid
  rw [FaceTable.contains_eq_isSome] at hpresent
  obtain ⟨face, hf⟩ := Option.isSome_iff_exists.mp hpresent
  by_cases hfull : face.IsFull
  · exact .inr ⟨face, hf, hfull⟩
  · have hcontents := r.contents_serve content hf hasked
    rw [if_neg (by simp [hm face hf, hfull])] at hcontents
    exact .inl hcontents

/-- A request of a face outlasts a step, unless data is delivered for it. -/
theorem keeps_step (h : Attended r) (hstep : Step r agenda events r' agenda') {e : PendingEntry}
    (he : e ∈ r.pending.entries) {id : FaceId} (hid : id ∈ e.faces) (hm : r.faces.UnmarkedAt id) :
    r'.pending.Keeps e id ∨ ∃ event ∈ events, event.Serves e id := by
  cases hstep with
  | aside hpending => exact .inl ⟨e, hpending.symm ▸ he, rfl, rfl, hid⟩
  | ask interest => exact .inl (PendingTable.keeps_insert he hid interest _ _)
  | join entry nonce =>
    exact .inl (PendingTable.keeps_modify he hid entry rfl rfl
      (PendingEntry.mem_faces_join.mpr (.inr hid)))
  | withdraw source interest =>
    have hentries := h.wellFormed.entries_erase_insert interest (.face source) r.clock
    exact .inl ⟨e, hentries.symm ▸ he, rfl, rfl, hid⟩
  | answer source interest content =>
    exact .inl ⟨e, (r.pending_send source _).symm ▸ he, rfl, rfl, hid⟩
  | deliver content =>
    by_cases hsatisfied : e.interest.satisfiedBy content false = true
    · exact .inr ⟨_, List.mem_cons_self, h.serves he hid hm hsatisfied⟩
    · refine .inl ⟨e, List.mem_filter.mpr ⟨he, ?_⟩, rfl, rfl, hid⟩
      simpa using hsatisfied
  | resume _ _ hcarried => exact .inl ((hcarried.requests h.wellFormed).2.1 e he id hid)
  | miss => exact .inl ⟨e, he, rfl, rfl, hid⟩
  | begin hcarried => exact .inl ((hcarried.requests h.wellFormed).2.1 e he id hid)

/-- A request of a face outlasts a course, unless data is delivered for it on the way. -/
theorem keeps_course (h : Attended r) (hcourse : Course r agenda events r' agenda')
    {e : PendingEntry} (he : e ∈ r.pending.entries) {id : FaceId} (hid : id ∈ e.faces)
    (hm : r.faces.UnmarkedAt id) :
    r'.pending.Keeps e id ∨ ∃ event ∈ events, event.Serves e id := by
  induction hcourse generalizing e with
  | refl => exact .inl ⟨e, he, rfl, rfl, hid⟩
  | step first _ ih =>
    rcases keeps_step h first he hid hm with hkeeps | ⟨event, hmem, hserves⟩
    · obtain ⟨e₁, he₁, hsame, hinterest, hface⟩ := hkeeps
      rcases ih (h.step first) he₁ hface (unmarkedAt_step first hm) with hkeeps | ⟨event, hmem, hserves⟩
      · exact .inl (hkeeps.of_same hsame hinterest)
      · exact .inr ⟨event, List.mem_append_right _ hmem, hserves.of_same hsame hinterest⟩
    · exact .inr ⟨event, List.mem_append_left _ hmem, hserves⟩

/-- Removing a face takes it away and no other. -/
theorem contains_removeFace (r : Relay) (face id : FaceId) :
    (r.removeFace face).2.faces.contains id = (r.faces.contains id && id != face) := by
  refine removeFace_induction
    (motive := fun s => s.faces.contains id = (r.faces.contains id && id != face)) r face ?_ ?_
  · intro hface
    by_cases h : id = face
    · simp [h, hface]
    · simp [h]
  · intro routes nonces
    exact r.faces.contains_erase face id

private theorem unmarkedAt_removeFace {id : FaceId} (hm : r.faces.UnmarkedAt id) (face : FaceId) :
    (r.removeFace face).2.faces.UnmarkedAt id := by
  refine removeFace_induction (motive := fun s => s.faces.UnmarkedAt id) r face (fun _ => hm) ?_
  intro routes nonces f hf
  dsimp only at hf
  rw [FaceTable.get?_erase] at hf
  split at hf
  · cases hf
  · exact hm f hf

private theorem Attended.removeFace (h : Attended r) (face : FaceId) : Attended (r.removeFace face).2 := by
  refine removeFace_induction (motive := Attended) r face (fun _ => h) ?_
  intro routes nonces
  refine ⟨h.wellFormed.dropRequester (.face face), fun e' he' id hid => ?_⟩
  obtain ⟨e, he, rfl, -⟩ := PendingTable.mem_dropRequester.mp he'
  obtain ⟨hne, hmem⟩ := PendingEntry.mem_faces_leave.mp hid
  rw [FaceTable.contains_erase, h.present e he id hmem]
  simpa using hne

/-- The entry in which a face waits loses other faces only. -/
theorem entry_removeFace {e : PendingEntry} (he : e ∈ r.pending.entries) {id face : FaceId}
    (hid : id ∈ e.faces) (hne : id ≠ face) :
    ∃ requests, { e with requests } ∈ (r.removeFace face).2.pending.entries ∧
      id ∈ { e with requests }.faces := by
  refine removeFace_induction
    (motive := fun s =>
      ∃ requests, { e with requests } ∈ s.pending.entries ∧ id ∈ { e with requests }.faces)
    r face (fun _ => ⟨e.requests, he, hid⟩) ?_
  intro routes nonces
  have hleft : id ∈ (e.leave (.face face)).faces :=
    PendingEntry.mem_faces_leave.mpr ⟨by simpa using hne, hid⟩
  refine ⟨(e.leave (.face face)).requests, ?_, hleft⟩
  refine PendingTable.mem_dropRequester.mpr ⟨e, he, rfl, ?_⟩
  obtain ⟨request, hmem, -⟩ := PendingEntry.mem_faces.mp hleft
  exact List.ne_nil_of_mem hmem

private theorem contains_removeFaces_of_not {id : FaceId} (h : r.faces.contains id = false)
    (ids : List FaceId) : (r.removeFaces ids).faces.contains id = false := by
  induction ids generalizing r with
  | nil => exact h
  | cons face ids ih =>
    apply ih
    rw [contains_removeFace, h, Bool.false_and]

/-- The entry in which a face waits loses other faces only, unless the face is removed too. -/
theorem entry_removeFaces {e : PendingEntry} (he : e ∈ r.pending.entries) {id : FaceId}
    (hid : id ∈ e.faces) (ids : List FaceId) :
    (id ∈ ids ∧ (r.removeFaces ids).faces.contains id = false) ∨
      ∃ requests, { e with requests } ∈ (r.removeFaces ids).pending.entries ∧
        id ∈ { e with requests }.faces := by
  induction ids generalizing r e with
  | nil => exact .inr ⟨e.requests, he, hid⟩
  | cons face ids ih =>
    by_cases hne : id = face
    · refine .inl ⟨hne ▸ List.mem_cons_self, contains_removeFaces_of_not ?_ ids⟩
      rw [contains_removeFace, hne]
      simp
    · obtain ⟨requests, hmem, hface⟩ := entry_removeFace he hid hne
      rcases ih hmem hface with ⟨hin, hgone⟩ | hkept
      · exact .inl ⟨List.mem_cons_of_mem _ hin, hgone⟩
      · exact .inr hkept

private theorem Attended.removeFaces (h : Attended r) (ids : List FaceId) : Attended (r.removeFaces ids) := by
  induction ids generalizing r with
  | nil => exact h
  | cons face ids ih => exact ih (h.removeFace face)

/-- Removing faces leaves the clock and the settings. -/
theorem clock_removeFaces (r : Relay) (ids : List FaceId) :
    (r.removeFaces ids).clock = r.clock ∧ (r.removeFaces ids).config = r.config := by
  induction ids generalizing r with
  | nil => exact ⟨rfl, rfl⟩
  | cons face ids ih =>
    obtain ⟨hclock, hconfig⟩ := ih (r.removeFace face).2
    exact ⟨hclock.trans (r.clock_removeFace face).1, hconfig.trans (r.clock_removeFace face).2⟩

/-- What a tick does about a pending Interest leaves the clock, the settings and the faces as they are,
and other pending Interests too. -/
structure SparedBut (ids : List PendingId) (r r' : Relay) : Prop where
  clock : r'.clock = r.clock
  config : r'.config = r.config
  contains : ∀ id, r'.faces.contains id = r.faces.contains id
  others : ∀ x ∉ ids, r'.pending.get? x = r.pending.get? x

private theorem Swept.sparedBut {id : PendingId} (h : Swept r id r') : SparedBut [id] r r' := by
  cases h with
  | missing => exact ⟨rfl, rfl, fun _ => rfl, fun _ _ => rfl⟩
  | expired =>
    refine ⟨rfl, rfl, fun _ => rfl, fun x hx => ?_⟩
    exact PendingTable.get?_erase_of_ne _ fun heq => hx (List.mem_singleton.mpr heq)
  | retried _ _ _ hquiet =>
    refine ⟨rfl, rfl, hquiet.contains_eq, fun x hx => ?_⟩
    exact PendingTable.get?_modify_of_ne _ (fun _ => rfl) fun heq => hx (List.mem_singleton.mpr heq)

/-- Sweeping entries spares all but these. -/
theorem sparedBut_sweeps (ids : List PendingId) (sweep : Sweep) :
    SparedBut ids sweep.2 (ids.foldl sweepPending sweep).2 := by
  induction ids generalizing sweep with
  | nil => exact ⟨rfl, rfl, fun _ => rfl, fun _ _ => rfl⟩
  | cons id ids ih =>
    have hhead := (swept sweep id).sparedBut
    have hrest := ih (sweepPending sweep id)
    refine ⟨hrest.clock.trans hhead.clock, hrest.config.trans hhead.config, fun x => ?_, fun x hx => ?_⟩
    · exact (hrest.contains x).trans (hhead.contains x)
    · rw [List.mem_cons, not_or] at hx
      exact (hrest.others x hx.2).trans (hhead.others x fun hmem => hx.1 (List.mem_singleton.mp hmem))

/-- When a tick goes through the pending Interests, one that has not run out stays. -/
theorem get?_sweeps {sweep : Sweep} {e : PendingEntry} (he : sweep.2.pending.get? e.id = some e)
    (hout : ¬ sweep.2.hasRunOut e = true) {ids : List PendingId} (hids : ids.Nodup) :
    ∃ retries, (ids.foldl sweepPending sweep).2.pending.get? e.id = some { e with retries } := by
  by_cases hmem : e.id ∈ ids
  · obtain ⟨before, after, rfl⟩ := List.append_of_mem hmem
    obtain ⟨-, hafter, hdisjoint⟩ := List.nodup_append.mp hids
    have hbefore : e.id ∉ before := fun h => hdisjoint e.id h e.id List.mem_cons_self rfl
    rw [List.foldl_append, List.foldl_cons]
    have hfirst := sparedBut_sweeps before sweep
    have hlast := sparedBut_sweeps after (sweepPending (before.foldl sweepPending sweep) e.id)
    rw [hlast.others e.id (List.nodup_cons.mp hafter).1]
    have hget := (hfirst.others e.id hbefore).trans he
    have hswept := swept (before.foldl sweepPending sweep) e.id
    generalize (sweepPending (before.foldl sweepPending sweep) e.id).2 = r' at hswept
    cases hswept with
    | missing hnone =>
      rw [hget] at hnone
      cases hnone
    | @expired e' he' hout' nonces =>
      obtain rfl : e = e' := Option.some.inj (hget.symm.trans he')
      rw [hasRunOut, hfirst.clock, hfirst.config] at hout'
      exact absurd hout' hout
    | retried =>
      have hid (e : PendingEntry) : { e with retries := e.retries + 1 }.id = e.id := rfl
      refine ⟨e.retries + 1, ?_⟩
      dsimp only
      rw [PendingTable.get?_modify _ _ _ hid, hget, Option.map_some, if_pos rfl]
  · exact ⟨e.retries, ((sparedBut_sweeps ids sweep).others e.id hmem).trans he⟩

/-- A request of a face outlasts a tick, unless its Interest runs out or the face was idle for too
long. -/
theorem keeps_tick (h : Attended r) {e : PendingEntry} (he : e ∈ r.pending.entries) {id : FaceId}
    (hid : id ∈ e.faces) :
    r.tick.2.pending.Keeps e id ∨ { r with clock := r.clock + 1 }.hasRunOut e = true ∨
      (id ∈ r.faces.idle (r.clock + 1) r.config.faceTimeout ∧ r.tick.2.faces.contains id = false) := by
  obtain ⟨store, sweep, nonces, hsweep, htick⟩ := r.tick_eq
  obtain ⟨hclock, hconfig⟩ := clock_removeFaces { r with clock := r.clock + 1 }
    (r.faces.idle (r.clock + 1) r.config.faceTimeout)
  have hclocked : Attended { r with clock := r.clock + 1 } := ⟨h.wellFormed, h.present⟩
  have hattended := hclocked.removeFaces (r.faces.idle (r.clock + 1) r.config.faceTimeout)
  have hspared := sparedBut_sweeps sweep.2.pending.ids sweep
  rw [htick]
  rcases @entry_removeFaces { r with clock := r.clock + 1 } e he id hid
    (r.faces.idle (r.clock + 1) r.config.faceTimeout) with ⟨hidle, hgone⟩ | ⟨requests, hmem, hface⟩
  · refine .inr (.inr ⟨hidle, ?_⟩)
    dsimp only
    rw [hspared.contains, hsweep]
    exact hgone
  · by_cases hout : { r with clock := r.clock + 1 }.hasRunOut e = true
    · exact .inr (.inl hout)
    · have hget : sweep.2.pending.get? e.id = some { e with requests } := by
        rw [hsweep]
        exact hattended.wellFormed.get?_eq_some hmem
      have hstays : ¬ sweep.2.hasRunOut { e with requests } = true := by
        rw [hsweep, hasRunOut, hclock, hconfig]
        exact hout
      have hnodup : sweep.2.pending.ids.Nodup := by
        rw [hsweep]
        exact hattended.wellFormed.nodup
      obtain ⟨retries, hkept⟩ := get?_sweeps hget hstays hnodup
      exact .inl ⟨_, (PendingTable.mem_of_get? hkept).1, rfl, rfl, hface⟩

private theorem Attended.swept (h : Attended r) {entry : PendingId} (hswept : Swept r entry r') :
    Attended r' := by
  have hcontains := hswept.sparedBut.contains
  cases hswept with
  | missing => exact h
  | expired =>
    exact ⟨h.wellFormed.filter _, fun e he => h.present e (List.mem_of_mem_filter he)⟩
  | retried =>
    refine ⟨h.wellFormed.modify entry fun _ => rfl, fun e' he' id hid => ?_⟩
    obtain ⟨e, he, rfl⟩ := List.mem_map.mp he'
    rw [hcontains]
    split at hid
    · exact h.present e he id hid
    · exact h.present e he id hid

private theorem Attended.effect (h : Attended r) {op : Operation} (heffect : Effect r op r') :
    Attended r' := by
  cases heffect with
  | course hcourse => exact h.course hcourse
  | faces _ heased =>
    exact ⟨h.wellFormed, fun e he id hid => heased.contains id (h.present e he id hid)⟩
  | removal id => exact h.removeFace id
  | tick =>
    exact tick_induction (motive := Attended) r ⟨h.wellFormed, h.present⟩
      (fun _ id hs => hs.removeFace id) (fun _ _ _ hs hswept => hs.swept hswept)
      fun _ _ _ hs => ⟨hs.wellFormed, hs.present⟩

/-- Whatever operations bring a relay about, all faces that wait are there. -/
theorem attended_of_reachable {kind : Operation → Prop} (hr : ReachableBy kind r) : Attended r := by
  refine hr.invariant ?_ fun _ _ _ h _ heffect => h.effect heffect
  intro r hpending _ _
  refine ⟨hpending ▸ .empty, ?_⟩
  rw [hpending]
  exact fun _ h => absurd h List.not_mem_nil

private theorem unmarkedAt_course (h : Course r agenda events r' agenda') {id : FaceId}
    (hm : r.faces.UnmarkedAt id) : r'.faces.UnmarkedAt id := by
  induction h with
  | refl => exact hm
  | step first _ ih => exact ih (unmarkedAt_step first hm)

/-- Operations that mark no face leave none marked. -/
theorem unmarked_effect (hm : r.faces.Unmarked) {op : Operation} (hop : op.IsUnmarked)
    (heffect : Effect r op r') : r'.faces.Unmarked := by
  cases heffect with
  | course hcourse => exact fun id => unmarkedAt_course hcourse (hm id)
  | faces _ _ hmark => exact hmark hop hm
  | removal face => exact fun id => unmarkedAt_removeFace (hm id) face
  | tick =>
    refine tick_induction (motive := fun s => s.faces.Unmarked) r hm
      (fun _ face hs id => unmarkedAt_removeFace (hs id) face) (fun s entry s' hs hswept => ?_)
      fun _ _ _ hs => hs
    cases hswept with
    | missing => exact hs
    | expired => exact hs
    | retried _ _ _ hquiet => exact fun id => hquiet.unmarkedAt (hs id)

/-- In relays that come about without marks from outside, no face is marked between operations. -/
theorem unmarked_of_reachable (hr : ReachableBy Operation.IsUnmarked r) : r.faces.Unmarked := by
  refine hr.invariant (motive := fun r => r.faces.Unmarked) ?_
    fun _ _ _ h hop heffect => unmarked_effect h hop heffect
  intro r _ hfaces _ id face hf
  rw [FaceTable.get?, hfaces] at hf
  cases hf

/-- Whether an operation keeps up or settles the request of a face in a pending Interest. -/
inductive Honours (r : Relay) (op : Operation) (e : PendingEntry) (id : FaceId) : Prop where
  /-- The face still waits there. -/
  | waits {e' : PendingEntry} (he : e' ∈ (r.perform op).pending.entries) (hid : e'.id = e.id)
      (hinterest : e'.interest = e.interest) (hface : id ∈ e'.faces)
  /-- Data that satisfies the Interest has come onto the queue of the face, or found it full. -/
  | offered {event : Event} (hmem : event ∈ r.journal op) (hserves : event.Serves e id)
  /-- The Interest has run out with a tick. -/
  | ranOut (hop : op = .tick) (hout : { r with clock := r.clock + 1 }.hasRunOut e = true)
  /-- The face was removed, by the user or because it was idle. -/
  | removed
      (hop : op.removed? = some id ∨
        op = .tick ∧ id ∈ r.faces.idle (r.clock + 1) r.config.faceTimeout)
      (hgone : (r.perform op).faces.contains id = false)

/-- In a relay that comes about without marks from outside, each operation honours each request of a face. -/
theorem requests_of_reachable (hr : ReachableBy Operation.IsUnmarked r) {e : PendingEntry}
    (he : e ∈ r.pending.entries) {id : FaceId} (hid : id ∈ e.faces) (op : Operation) :
    r.Honours op e id := by
  have h := attended_of_reachable hr
  have heffect := r.effect op
  generalize hperform : r.perform op = r' at heffect
  cases heffect with
  | course hcourse =>
    rcases keeps_course h hcourse he hid (unmarked_of_reachable hr id) with
      ⟨e', he', hid', hinterest, hface⟩ | ⟨event, hmem, hserves⟩
    · exact .waits (hperform ▸ he') hid' hinterest hface
    · exact .offered hmem hserves
  | faces => exact .waits (hperform ▸ he) rfl rfl hid
  | removal face _ hop =>
    by_cases hne : id = face
    · refine .removed (.inl (hne ▸ hop)) ?_
      rw [hperform, contains_removeFace, hne]
      simp
    · obtain ⟨requests, hmem, hface⟩ := entry_removeFace he hid hne
      rw [← hperform] at hmem
      exact .waits hmem rfl rfl hface
  | tick =>
    rcases keeps_tick h he hid with ⟨e', he', hid', hinterest, hface⟩ | hout | ⟨hidle, hgone⟩
    · exact .waits (hperform ▸ he') hid' hinterest hface
    · exact .ranOut rfl hout
    · exact .removed (.inr ⟨rfl, hidle⟩) (hperform ▸ hgone)

/-- A face has asked for data that another face is asked for in turn. When the data arrives, it is
delivered for the request. -/
theorem requests_of_reachable_delivered :
    ∃ r₀ r : Relay, Relay.new {} (.ofSeed 0) = .ok r₀ ∧
      r = r₀.performAll
        [.faceForPeer 0 (.unix "a"), .faceForPeer 1 (.unix "b"),
          .addRoute (.ofComponents [[0x61]]) ⟨2⟩ .ndn2013,
          .handleInterest ⟨1⟩ (.ofName (.ofComponents [[0x61], [0x62]]))] ∧
      ∃ s content, .deliver s content ∈
          r.journal (.handleContent ⟨2⟩ (.ofPayload (.ofComponents [[0x61], [0x62]]) [0x63])) ∧
        ((Event.deliver s content).faces.contents ⟨1⟩ = s.faces.contents ⟨1⟩ ++ [content] ∨
          ∃ face, s.faces.get? ⟨1⟩ = some face ∧ face.IsFull) := by
  have hdelivered (r : Relay) (hr : ReachableBy Operation.IsUnmarked r)
      (hasked : ∃ e ∈ r.pending.entries, ⟨1⟩ ∈ e.faces) (content : Content)
      (hgone : (r.perform (.handleContent ⟨2⟩ content)).pending.entries = []) :
      ∃ s data, .deliver s data ∈ r.journal (.handleContent ⟨2⟩ content) ∧
        ((Event.deliver s data).faces.contents ⟨1⟩ = s.faces.contents ⟨1⟩ ++ [data] ∨
          ∃ face, s.faces.get? ⟨1⟩ = some face ∧ face.IsFull) := by
    obtain ⟨e, he, hid⟩ := hasked
    cases requests_of_reachable hr he hid (.handleContent ⟨2⟩ content) with
    | waits he' =>
      rw [hgone] at he'
      exact absurd he' List.not_mem_nil
    | @offered event hmem hserves =>
      cases event with
      | deliver s data => exact ⟨s, data, hmem, hserves.2.2⟩
      | answer => exact hserves.elim
      | resume => exact hserves.elim
    | ranOut hop => cases hop
    | removed hop => simp [Operation.removed?] at hop
  have hnew : Relay.new {} (.ofSeed 0) = .ok _ := rfl
  refine ⟨_, _, hnew, rfl, hdelivered _ (.performAll (.new hnew) ?_) ?_ _ ?_⟩
  · simp [Operation.IsUnmarked]
  · decide +kernel
  · rw [(perform_handleContent_of_unawaited ?_ ?_ ?_).1]
    all_goals decide +kernel

/-- A face that is added with a mark on it loses its request to the first data that satisfies it: nothing
comes onto its queue, which has room. -/
theorem request_lost_of_mark :
    ∃ (r₀ r : Relay) (content : Content), Relay.new {} (.ofSeed 0) = .ok r₀ ∧
      r = r₀.performAll
        [.addStaticFace 0 (.unix "a") { served := true }, .faceForPeer 1 (.unix "b"),
          .addRoute (.ofComponents [[0x61]]) ⟨2⟩ .ndn2013,
          .handleInterest ⟨1⟩ (.ofName (.ofComponents [[0x61], [0x62]]))] ∧
      content = .ofPayload (.ofComponents [[0x61], [0x62]]) [0x63] ∧ r.Reachable ∧
      ∃ e ∈ r.pending.entries, ⟨1⟩ ∈ e.faces ∧ e.interest.satisfiedBy content false = true ∧
        ¬ r.Honours (.handleContent ⟨2⟩ content) e ⟨1⟩ := by
  have hlost (r : Relay) (content : Content) (hsource : r.faces.contains ⟨2⟩ = true)
      (hanswered : (r.pending.takeAnswered content).1 ≠ []) (hnone : r.awaitedBy ⟨2⟩ content = [])
      (hgone : (r.handedOver ⟨2⟩ content).2.pending.entries = [])
      (hroom : ((r.contentReceived ⟨2⟩).faces.get? ⟨1⟩).all (fun face => !decide face.IsFull) = true)
      (hnothing : (Event.deliver (r.contentReceived ⟨2⟩) content).faces.contents ⟨1⟩ = [])
      (hasked : ∃ e ∈ r.pending.entries, ⟨1⟩ ∈ e.faces ∧ e.interest.satisfiedBy content false = true) :
      ∃ e ∈ r.pending.entries, ⟨1⟩ ∈ e.faces ∧ e.interest.satisfiedBy content false = true ∧
        ¬ r.Honours (.handleContent ⟨2⟩ content) e ⟨1⟩ := by
    obtain ⟨e, he, hid, hsatisfied⟩ := hasked
    obtain ⟨hafter, hjournal⟩ := perform_handleContent_of_unawaited hsource hanswered hnone
    refine ⟨e, he, hid, hsatisfied, fun hhonours => ?_⟩
    cases hhonours with
    | waits he' =>
      rw [hafter, hgone] at he'
      exact absurd he' List.not_mem_nil
    | offered hmem hserves =>
      rw [hjournal] at hmem
      obtain rfl := List.mem_singleton.mp hmem
      rcases hserves.2.2 with hplaced | ⟨face, hf, hfull⟩
      · rw [hnothing] at hplaced
        simp at hplaced
      · rw [hf, Option.all_some, decide_eq_true hfull] at hroom
        cases hroom
    | ranOut hop => cases hop
    | removed hop => simp [Operation.removed?] at hop
  have hnew : Relay.new {} (.ofSeed 0) = .ok _ := rfl
  refine ⟨_, _, _, hnew, rfl, rfl, .performAll (.new hnew) fun _ _ => trivial,
    hlost _ _ ?_ ?_ ?_ ?_ ?_ ?_ ?_⟩
  all_goals decide +kernel

end NamedFunctions.Relay
