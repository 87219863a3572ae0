import NamedFunctions.Proofs.Relay.Consistency
import NamedFunctions.Proofs.Relay.FaceLifetime
import NamedFunctions.Proofs.Relay.Lifetime
import NamedFunctions.Proofs.Relay.Queueing

/-!
# What ticks leave behind

With a tick a pending Interest goes away if it has run out, or if all that wait for it are faces that have
been idle for too long. Its nonces are then unknown, and the computations that waited for it are suspended
no longer. Whatever the tick does after that brings none of them back: no nonce is recorded, no computation
but these is touched, and nothing comes to queues but Interests that are pending.
-/

namespace NamedFunctions

namespace PendingEntry

/-- The entry without some faces. -/
def leaveAll (e : PendingEntry) (ids : List FaceId) : PendingEntry :=
  { e with requests := e.requests.filter fun request => ∀ id ∈ ids, request.requester ≠ .face id }

private theorem leaveAll_nil (e : PendingEntry) : e.leaveAll [] = e := by simp [leaveAll]

private theorem leaveAll_cons (e : PendingEntry) (id : FaceId) (ids : List FaceId) :
    e.leaveAll (id :: ids) = (e.leave (.face id)).leaveAll ids := by
  rw [leaveAll, leaveAll, leave, List.filter_filter]
  congr 2
  funext request
  rw [Bool.eq_iff_iff]
  simp [and_comm]

/-- Whether nobody waits but some faces. -/
def IsOnlyAmong (e : PendingEntry) (ids : List FaceId) : Prop :=
  ∀ request ∈ e.requests, ∃ id ∈ ids, request.requester = .face id

private theorem IsOnlyFor.isOnlyAmong {e : PendingEntry} {id : FaceId} (h : e.IsOnlyFor id) :
    e.IsOnlyAmong [id] :=
  fun request hrequest => ⟨id, List.mem_singleton_self id, h request hrequest⟩

/-- Once some faces have left, nobody waits where nobody else did. -/
theorem requests_leaveAll_eq_nil {e : PendingEntry} {ids : List FaceId} :
    (e.leaveAll ids).requests = [] ↔ e.IsOnlyAmong ids := by
  rw [leaveAll, List.filter_eq_nil_iff]
  simp [IsOnlyAmong]

/-- No computation waits where only faces do. -/
theorem IsOnlyAmong.computations_eq_nil {e : PendingEntry} {ids : List FaceId}
    (h : e.IsOnlyAmong ids) : e.computations = [] := by
  rw [List.eq_nil_iff_forall_not_mem]
  intro c hc
  obtain ⟨request, hrequest, hcomputation⟩ := mem_computations.mp hc
  obtain ⟨id, -, hface⟩ := h request hrequest
  cases hcomputation.symm.trans hface

/-- Whether an entry has what belongs to another: its number and its Interest, its nonces, and the
computations that wait. -/
structure Succeeds (e' e : PendingEntry) : Prop where
  id_eq : e'.id = e.id
  interest_eq : e'.interest = e.interest
  nonces_eq : e'.nonces = e.nonces
  computations_eq : e'.computations = e.computations

namespace Succeeds

variable {e e' e'' : PendingEntry}

private theorem refl (e : PendingEntry) : e.Succeeds e := ⟨rfl, rfl, rfl, rfl⟩

private theorem trans (h' : e''.Succeeds e') (h : e'.Succeeds e) : e''.Succeeds e :=
  ⟨h'.id_eq.trans h.id_eq, h'.interest_eq.trans h.interest_eq, h'.nonces_eq.trans h.nonces_eq,
    h'.computations_eq.trans h.computations_eq⟩

end Succeeds

end PendingEntry

namespace NonceTable

variable {table table' : NonceTable} {nonce : UInt32}

private theorem contains_eq_false :
    table.contains nonce = false ↔ ∀ record ∈ table.records, record.1 ≠ nonce := by
  simp [contains]

/-- A nonce that is not known is not among fewer of them. -/
theorem contains_eq_false_of_subset (h : table.contains nonce = false)
    (hsub : table'.records ⊆ table.records) : table'.contains nonce = false :=
  contains_eq_false.mpr fun record hrecord => contains_eq_false.mp h record (hsub hrecord)

end NonceTable

namespace Relay

open PendingEntry (Succeeds)

variable {r s t : Relay}

/-- Whether a relay has come about from another without new pending Interests, and what has gone away has
left nothing behind. -/
structure Clears (r s : Relay) : Prop where
  /-- What is pending was so before. -/
  pending : ∀ e' ∈ s.pending.entries, ∃ e ∈ r.pending.entries, e'.Succeeds e
  /-- No nonce has been recorded, and those of what has gone away are not known. -/
  nonces : s.nonces.records ⊆ r.nonces.records
  forgotten : ∀ e ∈ r.pending.entries, e.id ∉ s.pending.ids → ∀ nonce ∈ e.nonces,
    s.nonces.contains nonce = false
  /-- The computations are gone that waited for what has gone away, and the others are what they were. -/
  computations : s.computations =
    { r.computations with
      suspended := r.computations.suspended.filter fun c =>
        ∀ e ∈ r.pending.entries, e.id ∉ s.pending.ids → c.id ∉ e.computations }
  /-- Faces that are there were so before, with nothing on their queues but what was there, and Interests
  that were pending. -/
  faces : ∀ x, s.faces.contains x = true → r.faces.contains x = true
  queues : ∀ x, s.faces.contains x = true → ∃ sent : List Interest,
    (∀ interest ∈ sent, ∃ e ∈ r.pending.entries, e.interest = interest) ∧
      s.faces.queue x = r.faces.queue x ++ sent.map .interest

namespace Clears

private theorem ids_subset (h : Clears r s) : s.pending.ids ⊆ r.pending.ids := by
  intro id hid
  obtain ⟨e', he', rfl⟩ := PendingTable.mem_ids.mp hid
  obtain ⟨e, he, hsame⟩ := h.pending e' he'
  exact PendingTable.mem_ids.mpr ⟨e, he, hsame.id_eq.symm⟩

/-- What is still pending has what belonged to it before. -/
theorem exists_succeeds (h : Clears r s) (hr : r.pending.WellFormed) {e : PendingEntry}
    (he : e ∈ r.pending.entries) (hid : e.id ∈ s.pending.ids) :
    ∃ e' ∈ s.pending.entries, e'.Succeeds e := by
  obtain ⟨e', he', hsame⟩ := PendingTable.mem_ids.mp hid
  obtain ⟨e₀, he₀, hsucceeds⟩ := h.pending e' he'
  obtain rfl := hr.eq_of_id he₀ he (hsucceeds.id_eq.symm.trans hsame)
  exact ⟨e', he', hsucceeds⟩

/-- All computations stay where none waited for what has gone away. -/
theorem suspended_of_gone
    (hgone : ∀ e ∈ r.pending.entries, e.id ∉ s.pending.ids → e.computations = []) :
    (r.computations.suspended.filter fun c =>
      ∀ e ∈ r.pending.entries, e.id ∉ s.pending.ids → c.id ∉ e.computations) =
      r.computations.suspended := by
  rw [List.filter_eq_self]
  refine fun c _ => decide_eq_true fun e he hid => ?_
  rw [hgone e he hid]
  exact List.not_mem_nil

/-- Where nothing goes away, the computations stay. -/
theorem of_stays (hpending : ∀ e' ∈ s.pending.entries, ∃ e ∈ r.pending.entries, e'.Succeeds e)
    (hids : r.pending.ids ⊆ s.pending.ids) (hnonces : s.nonces.records ⊆ r.nonces.records)
    (hcomputations : s.computations = r.computations)
    (hfaces : ∀ x, s.faces.contains x = true → r.faces.contains x = true)
    (hqueues : ∀ x, s.faces.contains x = true → ∃ sent : List Interest,
      (∀ interest ∈ sent, ∃ e ∈ r.pending.entries, e.interest = interest) ∧
        s.faces.queue x = r.faces.queue x ++ sent.map .interest) : Clears r s := by
  have hstays (e : PendingEntry) (he : e ∈ r.pending.entries) : e.id ∈ s.pending.ids :=
    hids (PendingTable.mem_ids.mpr ⟨e, he, rfl⟩)
  refine ⟨hpending, hnonces, fun e he hgone => absurd (hstays e he) hgone, ?_, hfaces, hqueues⟩
  rw [hcomputations, suspended_of_gone fun e he hgone => absurd (hstays e he) hgone]

/-- Tables besides make no difference, nor does it if nonces are forgotten. -/
theorem aside (hpending : s.pending = r.pending) (hnonces : s.nonces.records ⊆ r.nonces.records)
    (hcomputations : s.computations = r.computations) (hfaces : s.faces = r.faces) : Clears r s := by
  refine .of_stays (fun e he => ⟨e, hpending ▸ he, .refl e⟩) ?_ hnonces hcomputations
    (fun x hx => hfaces ▸ hx) fun x _ => ⟨[], List.forall_mem_nil _, ?_⟩
  · rw [hpending]
    exact List.Subset.refl _
  · rw [hfaces, List.map_nil, List.append_nil]

private theorem refl (r : Relay) : Clears r r := .aside rfl (List.Subset.refl _) rfl rfl

private theorem trans (hr : r.pending.WellFormed) (h : Clears r s) (h' : Clears s t) : Clears r t := by
  refine ⟨fun e'' he'' => ?_, List.Subset.trans h'.nonces h.nonces, fun e he hgone nonce hnonce => ?_, ?_,
    fun x hx => h.faces x (h'.faces x hx), fun x hx => ?_⟩
  · obtain ⟨e', he', hlast⟩ := h'.pending e'' he''
    obtain ⟨e, he, hfirst⟩ := h.pending e' he'
    exact ⟨e, he, hlast.trans hfirst⟩
  · -- It has gone away at once, and its nonces stay unknown, or under its number it goes away later.
    by_cases hid : e.id ∈ s.pending.ids
    · obtain ⟨e', he', hsame⟩ := h.exists_succeeds hr he hid
      exact h'.forgotten e' he' (hsame.id_eq ▸ hgone) nonce (hsame.nonces_eq ▸ hnonce)
    · exact NonceTable.contains_eq_false_of_subset (h.forgotten e he hid nonce hnonce) h'.nonces
  · rw [h'.computations, h.computations]
    dsimp only
    rw [List.filter_filter]
    congr 2
    funext c
    rw [Bool.eq_iff_iff, Bool.and_eq_true, decide_eq_true_iff, decide_eq_true_iff, decide_eq_true_iff]
    constructor
    · rintro ⟨hlater, hfirst⟩ e he hgone
      by_cases hid : e.id ∈ s.pending.ids
      · obtain ⟨e', he', hsame⟩ := h.exists_succeeds hr he hid
        exact hsame.computations_eq ▸ hlater e' he' (hsame.id_eq ▸ hgone)
      · exact hfirst e he hid
    · intro hall
      refine ⟨fun e' he' hgone => ?_, fun e he hgone => ?_⟩
      · obtain ⟨e, he, hsame⟩ := h.pending e' he'
        exact hsame.computations_eq ▸ hall e he (hsame.id_eq ▸ hgone)
      · exact hall e he fun hid => hgone (h'.ids_subset hid)
  · obtain ⟨sent, hsent, hqueue⟩ := h.queues x (h'.faces x hx)
    obtain ⟨sent', hsent', hqueue'⟩ := h'.queues x hx
    refine ⟨sent ++ sent', fun interest hinterest => ?_, ?_⟩
    · rcases List.mem_append.mp hinterest with hmem | hmem
      · exact hsent interest hmem
      · obtain ⟨e', he', rfl⟩ := hsent' interest hmem
        obtain ⟨e, he, hsame⟩ := h.pending e' he'
        exact ⟨e, he, hsame.interest_eq.symm⟩
    · rw [hqueue', hqueue, List.map_append, List.append_assoc]

end Clears

private theorem Removes.mem_pending {id : FaceId} (h : Removes id r s) {e' : PendingEntry} :
    e' ∈ s.pending.entries ↔
      ∃ e ∈ r.pending.entries, e.leave (.face id) = e' ∧ e'.requests ≠ [] := by
  rw [h.pending, List.mem_map]
  constructor
  · rintro ⟨e, he, rfl⟩
    obtain ⟨hmem, hothers⟩ := List.mem_filter.mp he
    refine ⟨e, hmem, rfl, fun hempty => ?_⟩
    rw [← List.isEmpty_iff, isEmpty_requests_leave] at hempty
    exact of_decide_eq_true hothers hempty
  · rintro ⟨e, he, rfl, hleft⟩
    refine ⟨e, List.mem_filter.mpr ⟨he, decide_eq_true fun honly => hleft ?_⟩, rfl⟩
    rw [← List.isEmpty_iff, isEmpty_requests_leave]
    exact honly

/-- What goes away with a face leaves nothing behind, and no computation waited for it. -/
theorem Removes.clears {id : FaceId} (h : Removes id r s) : Clears r s := by
  have honly {e : PendingEntry} (he : e ∈ r.pending.entries) (hgone : e.id ∉ s.pending.ids) :
      e.IsOnlyFor id := by
    by_contra hothers
    rw [← isEmpty_requests_leave, List.isEmpty_iff] at hothers
    exact hgone (PendingTable.mem_ids.mpr ⟨_, h.mem_pending.mpr ⟨e, he, rfl, hothers⟩, rfl⟩)
  have hcomputations := congrArg Relay.computations h.rest
  have hget (x : FaceId) (hx : s.faces.contains x = true) : s.faces.get? x = r.faces.get? x := by
    rw [FaceTable.contains_eq_isSome] at hx
    have herase : s.faces.get? x = if x = id then none else r.faces.get? x := by
      rw [← FaceTable.get?_erase, FaceTable.get?, h.faces, FaceTable.get?, FaceTable.erase]
      simp only [bne, decide_not]
      rfl
    rw [herase] at hx ⊢
    split at hx
    · cases hx
    · next hne => rw [if_neg hne]
  refine ⟨fun e' he' => ?_, ?_, fun e he hgone nonce hnonce => ?_, ?_, fun x hx => ?_, fun x hx => ?_⟩
  · obtain ⟨e, he, rfl, -⟩ := h.mem_pending.mp he'
    exact ⟨e, he, rfl, rfl, rfl, e.computations_leave_face id⟩
  · rw [h.nonces]
    exact List.filter_sublist.subset
  · rw [NonceTable.contains_eq_false, h.nonces]
    rintro record hrecord rfl
    exact of_decide_eq_true (List.mem_filter.mp hrecord).2 e he (honly he hgone) hnonce
  · rw [Clears.suspended_of_gone fun e he hgone => (honly he hgone).isOnlyAmong.computations_eq_nil]
    exact hcomputations
  · rw [FaceTable.contains_eq_isSome, ← hget x hx, ← FaceTable.contains_eq_isSome]
    exact hx
  · refine ⟨[], List.forall_mem_nil _, ?_⟩
    rw [FaceTable.queue, hget x hx, List.map_nil, List.append_nil, FaceTable.queue]

private theorem clears_removeFace (r : Relay) (id : FaceId) : Clears r (r.removeFace id).2 := by
  by_cases h : r.faces.contains id = true
  · exact (removes_removeFace h).clears
  · rw [removeFace, if_neg h]
    exact .refl r

/-- Once some faces are removed, their requests are gone, and so are the Interests that nobody else waits
for. -/
theorem RemovesAll.mem_pending {ids : List FaceId} (h : RemovesAll ids r s)
    (hr : ∀ e ∈ r.pending.entries, e.requests ≠ []) {e' : PendingEntry} :
    e' ∈ s.pending.entries ↔ ∃ e ∈ r.pending.entries, e.leaveAll ids = e' ∧ e'.requests ≠ [] := by
  induction h with
  | nil =>
    simp only [PendingEntry.leaveAll_nil]
    constructor
    · exact fun he' => ⟨e', he', rfl, hr e' he'⟩
    · rintro ⟨e, he, rfl, -⟩
      exact he
  | @cons id ids r s _ first _ ih =>
    have hs (e : PendingEntry) (he : e ∈ s.pending.entries) : e.requests ≠ [] := by
      obtain ⟨-, -, -, hleft⟩ := first.mem_pending.mp he
      exact hleft
    rw [ih hs]
    simp only [PendingEntry.leaveAll_cons]
    constructor
    · rintro ⟨e₁, he₁, rfl, hleft⟩
      obtain ⟨e, he, rfl, -⟩ := first.mem_pending.mp he₁
      exact ⟨e, he, rfl, hleft⟩
    · rintro ⟨e, he, rfl, hleft⟩
      refine ⟨_, first.mem_pending.mpr ⟨e, he, rfl, fun hempty => hleft ?_⟩, rfl, hleft⟩
      rw [PendingEntry.leaveAll, hempty, List.filter_nil]

/-- A pending Interest that is forgotten takes its nonces and its computations along. -/
theorem snd_forget (r : Relay) (e : PendingEntry) :
    (r.forget e).2 =
      { r with
        nonces := { r.nonces with records := r.nonces.records.filter (·.1 ∉ e.nonces) }
        computations :=
          { r.computations with
            suspended := r.computations.suspended.filter (·.id ∉ e.computations) } } := by
  obtain ⟨nonces, hforget⟩ := r.forget_eq e
  have hnonces : (r.forget e).2.nonces = e.nonces.foldl NonceTable.erase r.nonces := rfl
  rw [hforget, NonceTable.foldl_erase] at hnonces
  dsimp only at hnonces
  rw [hforget, hnonces]

/-- A pending Interest that is dropped leaves nothing behind. -/
theorem clears_forget (hr : r.pending.WellFormed) {id : PendingId} {e : PendingEntry}
    (he : r.pending.get? id = some e) :
    Clears r ({ r with pending := r.pending.erase id }.forget e).2 := by
  obtain ⟨hmem, rfl⟩ := PendingTable.mem_of_get? he
  have honly {x : PendingEntry} (hx : x ∈ r.pending.entries)
      (hgone : x.id ∉ (r.pending.erase e.id).ids) : x = e := by
    refine hr.eq_of_id hx hmem ?_
    by_contra hne
    exact hgone (PendingTable.mem_ids.mpr ⟨x, List.mem_filter.mpr ⟨hx, bne_iff_ne.mpr hne⟩, rfl⟩)
  have hgone : e.id ∉ (r.pending.erase e.id).ids := by
    rw [PendingTable.mem_ids]
    rintro ⟨x, hx, hid⟩
    exact bne_iff_ne.mp (List.mem_filter.mp hx).2 hid
  rw [snd_forget]
  refine ⟨fun x hx => ⟨x, List.mem_of_mem_filter hx, .refl x⟩, List.filter_sublist.subset,
    fun x hx hxgone nonce hnonce => ?_, ?_, fun _ hx => hx, fun x _ => ⟨[], List.forall_mem_nil _, ?_⟩⟩
  · obtain rfl := honly hx hxgone
    rw [NonceTable.contains_eq_false]
    rintro record hrecord rfl
    exact of_decide_eq_true (List.mem_filter.mp hrecord).2 hnonce
  · dsimp only
    congr 2
    funext c
    rw [decide_eq_decide]
    constructor
    · intro hc x hx hxgone
      obtain rfl := honly hx hxgone
      exact hc
    · exact fun hall => hall e hmem hgone
  · rw [List.map_nil, List.append_nil]

/-- A pending Interest that is sent on stays, and nothing comes to queues besides. -/
theorem clears_propagate (r : Relay) (id : PendingId) : Clears r (r.propagate id).2 := by
  obtain ⟨faces, stats, hpropagate, hquiet⟩ := r.propagate_eq id
  have hpending := r.pending_propagate id
  have hcontains (x : FaceId) : (r.propagate id).2.faces.contains x = r.faces.contains x := by
    rw [hpropagate]
    exact hquiet.contains_eq x
  refine .of_stays (fun e he => ⟨e, hpending ▸ he, .refl e⟩) ?_ ?_ (computations_propagate r id)
    (fun x hx => hcontains x ▸ hx) fun x _ => ?_
  · rw [hpending]
    exact List.Subset.refl _
  · rw [nonces_propagate]
    exact List.Subset.refl _
  · have hqueue := r.queue_propagate id x
    split at hqueue
    · refine ⟨(r.pending.get? id).toList.map (·.interest), fun interest hinterest => ?_, ?_⟩
      · obtain ⟨e, he, rfl⟩ := List.mem_map.mp hinterest
        exact ⟨e, (PendingTable.mem_of_get? (Option.mem_toList.mp he)).1, rfl⟩
      · rw [hqueue, List.map_map]
        rfl
    · exact ⟨[], List.forall_mem_nil _, hqueue⟩

/-- A pending Interest that a tick comes to stays as it is but for its retries, or leaves nothing
behind. -/
theorem clears_sweepPending {sweep : Sweep} (hsweep : sweep.2.pending.WellFormed) (id : PendingId) :
    Clears sweep.2 (sweepPending sweep id).2 := by
  cases he : sweep.2.pending.get? id with
  | none =>
    rw [snd_sweepPending_of_missing he]
    exact .refl _
  | some e =>
    by_cases hout : sweep.2.hasRunOut e = true
    · rw [snd_sweepPending_of_hasRunOut he hout]
      exact clears_forget hsweep he
    · rw [snd_sweepPending he hout]
      have hretried : Clears sweep.2
          { sweep.2 with
            pending := sweep.2.pending.modify id fun e => { e with retries := e.retries + 1 } } := by
        refine .of_stays (fun e' he' => ?_) ?_ (List.Subset.refl _) rfl (fun _ hx => hx)
          fun x _ => ⟨[], List.forall_mem_nil _, (List.append_nil _).symm⟩
        · obtain ⟨e, he, rfl⟩ := List.mem_map.mp he'
          refine ⟨e, he, ?_⟩
          split
          · exact ⟨rfl, rfl, rfl, rfl⟩
          · exact .refl e
        · rw [PendingTable.ids_modify]
          · exact List.Subset.refl _
          · exact fun _ => rfl
      exact hretried.trans hsweep (clears_propagate _ id)

private theorem clears_sweeps (ids : List PendingId) {sweep : Sweep} (hsweep : sweep.2.pending.Tidy) :
    Clears sweep.2 (ids.foldl sweepPending sweep).2 := by
  induction ids generalizing sweep with
  | nil => exact .refl _
  | cons id ids ih =>
    exact (clears_sweepPending hsweep.wellFormed id).trans hsweep.wellFormed
      (ih (tidy_swept hsweep (swept sweep id)))

/-- When a tick comes to the pending Interests, those are left for which somebody waits that is still
there, and the others have left nothing behind. -/
theorem clears_aged (hr : r.pending.Tidy) : r.aged.2.pending.Tidy ∧ Clears r r.aged.2 := by
  refine r.aged_induction (motive := fun s => s.pending.Tidy ∧ Clears r s) ⟨hr, ?_⟩
    (fun s id hs => ⟨tidy_removeFace hs.1 id, ?_⟩) fun s store hs => ⟨hs.1, ?_⟩
  · exact .aside rfl (List.Subset.refl _) rfl rfl
  · exact hs.2.trans hr.wellFormed (clears_removeFace s id)
  · exact hs.2.trans hr.wellFormed (.aside rfl (List.Subset.refl _) rfl rfl)

private theorem mem_pending_aged (hr : LaidOut r) (htidy : r.pending.Tidy) {e' : PendingEntry} :
    e' ∈ r.aged.2.pending.entries ↔
      ∃ e ∈ r.pending.entries,
        e.leaveAll (r.faces.idle (r.clock + 1) r.config.faceTimeout) = e' ∧ e'.requests ≠ [] := by
  obtain ⟨s, store, hremoves, haged⟩ := removesAll_aged hr.faces
  rw [haged]
  exact hremoves.mem_pending fun e he => (htidy.entries e he).requested

private theorem clears_sweepNonces (sweep : Sweep) : Clears sweep.2 (sweepNonces sweep).2 :=
  .aside rfl List.filter_sublist.subset rfl rfl

/-- What goes away with a tick leaves nothing behind. -/
theorem clears_tick (hr : r.pending.Tidy) : Clears r r.tick.2 := by
  obtain ⟨hsweep, haged⟩ := clears_aged hr
  have hswept := haged.trans hr.wellFormed (clears_sweeps r.aged.2.pending.ids hsweep)
  have htick : r.tick = sweepNonces (r.aged.2.pending.ids.foldl sweepPending r.aged) := rfl
  rw [htick]
  exact hswept.trans hr.wellFormed (clears_sweepNonces _)

/-- A pending Interest goes away with a tick if it has run out or nobody waits for it but faces that have
been idle for too long, and only then. -/
theorem not_mem_ids_tick (hr : LaidOut r) (htidy : r.pending.Tidy) {e : PendingEntry}
    (he : e ∈ r.pending.entries) :
    e.id ∉ r.tick.2.pending.ids ↔
      { r with clock := r.clock + 1 }.hasRunOut e = true ∨
        e.IsOnlyAmong (r.faces.idle (r.clock + 1) r.config.faceTimeout) := by
  have hwellFormed := htidy.wellFormed
  obtain ⟨hagedTidy, -⟩ := clears_aged htidy
  by_cases honly : e.IsOnlyAmong (r.faces.idle (r.clock + 1) r.config.faceTimeout)
  · have hgone : e.id ∉ r.aged.2.pending.ids := by
      rw [PendingTable.mem_ids]
      rintro ⟨e', he', hid⟩
      obtain ⟨e₀, he₀, rfl, hleft⟩ := (mem_pending_aged hr htidy).mp he'
      obtain rfl := hwellFormed.eq_of_id he₀ he hid
      exact hleft (PendingEntry.requests_leaveAll_eq_nil.mpr honly)
    have hlater := (clears_sweeps r.aged.2.pending.ids hagedTidy).ids_subset
    simp only [honly, or_true, iff_true]
    exact fun hid => hgone (hlater hid)
  · simp only [honly, or_false]
    have hleft : e.leaveAll (r.faces.idle (r.clock + 1) r.config.faceTimeout) ∈
        r.aged.2.pending.entries := by
      refine (mem_pending_aged hr htidy).mpr ⟨e, he, rfl, fun hnil => honly ?_⟩
      exact PendingEntry.requests_leaveAll_eq_nil.mp hnil
    obtain ⟨before, after, hids⟩ :=
      List.append_of_mem (PendingTable.mem_ids.mpr ⟨_, hleft, rfl⟩)
    have hreaches : Reaches r e.id (before.foldl sweepPending r.aged).2 := ⟨before, after, hids, rfl⟩
    obtain ⟨hentry, hclock, hconfig⟩ := hreaches.spared hwellFormed
    have hfound : r.aged.2.pending.get? e.id =
        some (e.leaveAll (r.faces.idle (r.clock + 1) r.config.faceTimeout)) :=
      hagedTidy.wellFormed.get?_eq_some hleft
    have htick : r.tick.2.pending.get? e.id =
        if { r with clock := r.clock + 1 }.hasRunOut e then none
        else some { e.leaveAll (r.faces.idle (r.clock + 1) r.config.faceTimeout) with
          retries := e.retries + 1 } := by
      rw [get?_tick_of_reaches hwellFormed hreaches, hentry, hfound, Option.bind_some, hasRunOut, hclock,
        hconfig, r.clock_aged]
      rfl
    rw [← PendingTable.get?_eq_none, htick]
    simp

/-- A pending Interest goes away with a tick if it has run out, or if nobody waits for it but faces that
have been idle for too long. Its nonces are not known then, and no computation is suspended that waited for
it. Of the suspended computations those are gone that waited for what has run out, and the others are what
they were. Nothing comes to the queues of faces but Interests that were pending. -/
theorem residue_of_reachable {r : Relay} (hr : r.Reachable) :
    (∀ e ∈ r.pending.entries,
        (e.id ∉ r.tick.2.pending.ids ↔
          { r with clock := r.clock + 1 }.hasRunOut e = true ∨
            e.IsOnlyAmong (r.faces.idle (r.clock + 1) r.config.faceTimeout)) ∧
        (e.id ∉ r.tick.2.pending.ids →
          (∀ nonce ∈ e.nonces, r.tick.2.nonces.contains nonce = false) ∧
            ∀ id ∈ e.computations, id ∉ r.tick.2.computations.ids)) ∧
      r.tick.2.computations =
        { r.computations with
          suspended := r.computations.suspended.filter fun c =>
            ∀ e ∈ r.pending.entries, { r with clock := r.clock + 1 }.hasRunOut e = true →
              c.id ∉ e.computations } ∧
      ∀ x, r.tick.2.faces.contains x = true → r.faces.contains x = true ∧
        ∃ sent : List Interest, (∀ interest ∈ sent, ∃ e ∈ r.pending.entries, e.interest = interest) ∧
          r.tick.2.faces.queue x = r.faces.queue x ++ sent.map .interest := by
  have htidy := tidy_of_reachable hr
  have hclears := clears_tick htidy
  have hgoes (e : PendingEntry) (he : e ∈ r.pending.entries) :=
    not_mem_ids_tick (laidOut_of_reachable hr) htidy he
  refine ⟨fun e he => ⟨hgoes e he, fun hgone => ⟨hclears.forgotten e he hgone, fun id hid hmem => ?_⟩⟩,
    ?_, fun x hx => ⟨hclears.faces x hx, hclears.queues x hx⟩⟩
  · rw [hclears.computations] at hmem
    obtain ⟨c, hc, rfl⟩ := ComputationTable.mem_ids.mp hmem
    exact of_decide_eq_true (List.mem_filter.mp hc).2 e he hgone hid
  · rw [hclears.computations]
    dsimp only
    congr 2
    funext c
    rw [decide_eq_decide]
    constructor
    · exact fun hall e he hout => hall e he ((hgoes e he).mpr (.inl hout))
    · intro hall e he hgone
      rcases (hgoes e he).mp hgone with hout | honly
      · exact hall e he hout
      · rw [honly.computations_eq_nil]
        exact List.not_mem_nil

/-- Two computations wait for data. Interests are sent again once at most, and a tick has passed between
the two. With the next one the first goes, with the nonce of its Interest, and the second stays. -/
theorem residue_of_reachable_two :
    ∃ r₀ r : Relay, Relay.new { maxInterestRetransmit := 1 } (.ofSeed 0) = .ok r₀ ∧
      r = r₀.performAll
        [.faceForPeer 0 (.unix "a"), .faceForPeer 1 (.unix "b"),
          .addRoute (.ofComponents [[0x61]]) ⟨2⟩ .ndn2013,
          .handleInterest ⟨1⟩ (.ofName (.ofComponents [[0x2F, 0x61], Name.expressionMarker])),
          .tick,
          .handleInterest ⟨1⟩
            (.ofName (.ofComponents [[0x2F, 0x61, 0x2F, 0x62], Name.expressionMarker]))] ∧
      r.computations.ids = [⟨0⟩, ⟨1⟩] ∧ ⟨0⟩ ∉ r.tick.2.computations.ids ∧
      ⟨1⟩ ∈ r.tick.2.computations.ids ∧
      ∃ e ∈ r.pending.entries, e.id ∉ r.tick.2.pending.ids ∧ e.computations = [⟨0⟩] ∧ e.nonces ≠ [] ∧
        ∀ nonce ∈ e.nonces, r.tick.2.nonces.contains nonce = false := by
  have hticks (r : Relay) (hr : r.Reachable) (hids : r.computations.ids = [⟨0⟩, ⟨1⟩])
      (hfirst : (r.pending.entries.any fun e => { r with clock := r.clock + 1 }.hasRunOut e &&
        decide (e.computations = [⟨0⟩] ∧ e.nonces ≠ [])) = true)
      (hsecond : (r.pending.entries.all fun e => !{ r with clock := r.clock + 1 }.hasRunOut e ||
        decide (⟨1⟩ ∉ e.computations)) = true) :
      r.computations.ids = [⟨0⟩, ⟨1⟩] ∧ ⟨0⟩ ∉ r.tick.2.computations.ids ∧
        ⟨1⟩ ∈ r.tick.2.computations.ids ∧
        ∃ e ∈ r.pending.entries, e.id ∉ r.tick.2.pending.ids ∧ e.computations = [⟨0⟩] ∧ e.nonces ≠ [] ∧
          ∀ nonce ∈ e.nonces, r.tick.2.nonces.contains nonce = false := by
    obtain ⟨hgone, hkept, -⟩ := residue_of_reachable hr
    obtain ⟨e, he, hentry⟩ := List.any_eq_true.mp hfirst
    rw [Bool.and_eq_true, decide_eq_true_iff] at hentry
    obtain ⟨hout, hcomputations, hnonces⟩ := hentry
    have hid := (hgone e he).1.mpr (.inl hout)
    obtain ⟨hunknown, hdiscarded⟩ := (hgone e he).2 hid
    refine ⟨hids, hdiscarded _ (hcomputations ▸ List.mem_singleton_self _), ?_, e, he, hid,
      hcomputations, hnonces, hunknown⟩
    have hmem : ⟨1⟩ ∈ r.computations.ids := hids ▸ List.mem_cons_of_mem _ List.mem_cons_self
    obtain ⟨c, hc, hcid⟩ := ComputationTable.mem_ids.mp hmem
    rw [hkept]
    refine ComputationTable.mem_ids.mpr
      ⟨c, List.mem_filter.mpr ⟨hc, decide_eq_true fun e he hout => ?_⟩, hcid⟩
    have hother := List.all_eq_true.mp hsecond e he
    rw [hout] at hother
    rw [hcid]
    simpa using hother
  have hnew : Relay.new { maxInterestRetransmit := 1 } (.ofSeed 0) = .ok _ := rfl
  refine ⟨_, _, hnew, rfl, hticks _ (.performAll (.new hnew) fun _ _ => trivial) ?_ ?_ ?_⟩
  · decide +kernel
  · decide +kernel
  · decide +kernel

end Relay

end NamedFunctions
