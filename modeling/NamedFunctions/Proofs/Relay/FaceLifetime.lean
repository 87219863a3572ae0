import NamedFunctions.Proofs.Relay.Routing
import NamedFunctions.Proofs.Relay.Usage

/-!
# How long faces live

A static face stays until it is told to go. Any other face goes with the first tick at which more ticks
than the timeout have passed since it was used last. A face that goes takes along its routes and its
requests, the pending Interests for which nobody else waits and the nonces of these, and nothing else. All
this holds of a face until its number is given to another one, which takes as many faces as there are numbers.
-/

namespace NamedFunctions

variable {now timeout : Nat} {x : FaceId}

/-- Whether nobody but a face waits. -/
def PendingEntry.IsOnlyFor (e : PendingEntry) (id : FaceId) : Prop :=
  ∀ request ∈ e.requests, request.requester = .face id

instance (e : PendingEntry) (id : FaceId) : Decidable (e.IsOnlyFor id) :=
  inferInstanceAs (Decidable (∀ request ∈ e.requests, _))

namespace NonceTable

/-- Erasing nonces one after the other takes them all out. -/
theorem foldl_erase (table : NonceTable) (nonces : List UInt32) :
    nonces.foldl erase table =
      { table with records := table.records.filter fun record => record.1 ∉ nonces } := by
  induction nonces generalizing table with
  | nil => simp
  | cons nonce nonces ih =>
    rw [List.foldl_cons, ih, erase, List.filter_filter]
    congr 2
    funext record
    rw [Bool.eq_iff_iff]
    simp [and_comm]

end NonceTable

namespace FaceTable

variable {table : FaceTable}

private theorem isSome_lastUsed? : (table.lastUsed? x).isSome = table.contains x := by
  rw [lastUsed?, Option.isSome_map, contains_eq_isSome]

/-- The faces that may be removed are those that have been idle for too long. -/
theorem mem_idle (h : table.WellFormed) :
    x ∈ table.idle now timeout ↔
      ∃ face, table.get? x = some face ∧ face.isIdle now timeout = true := by
  rw [idle, List.mem_map]
  constructor
  · rintro ⟨face, hmem, rfl⟩
    obtain ⟨hface, hidle⟩ := List.mem_filter.mp hmem
    exact ⟨face, get?_eq_some_of_mem h.nodup hface, hidle⟩
  · rintro ⟨face, hface, hidle⟩
    exact ⟨face, List.mem_filter.mpr ⟨List.mem_of_find?_eq_some hface, hidle⟩, id_of_get? hface⟩

private theorem nodup_idle (h : table.WellFormed) : (table.idle now timeout).Nodup :=
  (List.filter_sublist.map _).nodup h.nodup

/-- Where a face leads does not depend on traffic. -/
theorem placeOf_eq_bare? (table : FaceTable) (id : FaceId) :
    table.placeOf id = (table.bare? id).map fun face => (face.interface, face.peer) := by
  rw [bare?, Option.map_map]
  rfl

private theorem lastUsed?_add (interface : Nat) (peer : Peer) (flags : FaceFlags) :
    (table.add interface peer flags now).2.lastUsed? x =
      if x = ⟨table.nextId⟩ then some now else table.lastUsed? x := by
  rw [lastUsed?, get?_add, lastUsed?]
  split <;> rfl

private theorem get?_add_of_not_gives {interface : Nat} {peer : Peer} {flags : FaceFlags}
    (h : ¬ table.Gives (table.add interface peer flags now).2 x) :
    (table.add interface peer flags now).2.get? x = table.get? x := by
  rw [gives_add] at h
  rw [get?_add, if_neg h]

private theorem lastUsed?_setFlags (id : FaceId) (flags : FaceFlags) :
    (table.modify id fun face => { face with flags }).lastUsed? x = table.lastUsed? x := by
  rw [lastUsed?, get?_setFlags, Option.map_map, lastUsed?]
  congr 1
  funext face
  rw [Function.comp_apply]
  split <;> rfl

private theorem lastUsed?_popReady (now : Nat) : (table.popReady now).2.lastUsed? x = table.lastUsed? x := by
  rw [lastUsed?, get?_popReady, Option.map_map, lastUsed?]
  exact congrArg (fun f => Option.map f (table.get? x)) (funext fun _ => Face.lastUsed_popReady)

private theorem bare?_popReady (now : Nat) : (table.popReady now).2.bare? x = table.bare? x := by
  rw [bare?, get?_popReady, Option.map_map, bare?]
  exact congrArg (fun f => Option.map f (table.get? x)) (funext fun _ => Face.bare_popReady)

end FaceTable

namespace Relay

variable {r r' s : Relay} {id : FaceId}

/-- Whether a relay has come about from another by the removal of a face: its routes and its requests are
gone, the pending Interests for which nobody else waits, and the nonces of these. -/
structure Removes (id : FaceId) (r r' : Relay) : Prop where
  contains : r.faces.contains id = true
  faces : r'.faces.faces = r.faces.faces.filter (·.id ≠ id)
  routes : r'.routes.routes = r.routes.routes.filter (·.face ≠ id)
  pending : r'.pending.entries =
    (r.pending.entries.filter fun e => ¬ e.IsOnlyFor id).map (·.leave (.face id))
  nonces : r'.nonces.records =
    r.nonces.records.filter fun record => ∀ e ∈ r.pending.entries, e.IsOnlyFor id → record.1 ∉ e.nonces
  rest : r' =
    { r with
      faces := { r.faces with faces := r'.faces.faces }
      routes := r'.routes
      pending := { r.pending with entries := r'.pending.entries }
      nonces := { r.nonces with records := r'.nonces.records } }

/-- Whether a relay has come about from another by the removal of some faces, the first of them first. -/
inductive RemovesAll : List FaceId → Relay → Relay → Prop where
  | nil {r : Relay} : RemovesAll [] r r
  | cons {id : FaceId} {ids : List FaceId} {r s r' : Relay} (first : Removes id r s)
      (rest : RemovesAll ids s r') : RemovesAll (id :: ids) r r'

private theorem nonces_forgetAll (r : Relay) (entries : List PendingEntry) :
    (r.forgetAll entries).2.nonces = (entries.flatMap (·.nonces)).foldl NonceTable.erase r.nonces := by
  induction entries generalizing r with
  | nil => rfl
  | cons e entries ih =>
    rw [List.flatMap_cons, List.foldl_append]
    exact ih (r.forget e).2

/-- Once a face has left, nobody waits where nobody else did. -/
theorem isEmpty_requests_leave (e : PendingEntry) (id : FaceId) :
    (e.leave (.face id)).requests.isEmpty = true ↔ e.IsOnlyFor id := by
  rw [PendingEntry.leave, List.isEmpty_iff, List.filter_eq_nil_iff]
  simp [PendingEntry.IsOnlyFor]

/-- A face that is there is removed with what is its own. -/
theorem removes_removeFace (h : r.faces.contains id = true) : Removes id r (r.removeFace id).2 := by
  obtain ⟨nonces, hremove⟩ := r.removeFace_eq h
  have hnonces : (r.removeFace id).2.nonces =
      { r.nonces with
        records := r.nonces.records.filter fun record =>
          ∀ e ∈ r.pending.entries, e.IsOnlyFor id → record.1 ∉ e.nonces } := by
    rw [removeFace, if_pos h]
    refine (nonces_forgetAll _ _).trans ?_
    rw [NonceTable.foldl_erase]
    congr 2
    funext record
    rw [decide_eq_decide]
    simp only [PendingTable.dropRequester, List.mem_flatMap, List.mem_filter, List.mem_map]
    constructor
    · intro hnot e he honly hnonce
      exact hnot ⟨_, ⟨⟨e, he, rfl⟩, (isEmpty_requests_leave e id).mpr honly⟩, hnonce⟩
    · rintro hall ⟨_, ⟨⟨e, he, rfl⟩, hempty⟩, hnonce⟩
      exact hall e he ((isEmpty_requests_leave e id).mp hempty) hnonce
  rw [hremove] at hnonces ⊢
  dsimp only at hnonces
  subst hnonces
  refine ⟨h, ?_, ?_, ?_, rfl, rfl⟩
  · simp only [FaceTable.erase, bne, decide_not]
    rfl
  · simp only [RouteTable.eraseFace, bne, decide_not]
    rfl
  · simp only [PendingTable.dropRequester, List.filter_map]
    congr 2
    funext e
    rw [Function.comp_apply, Bool.eq_iff_iff, Bool.not_eq_true', ← Bool.not_eq_true,
      isEmpty_requests_leave, decide_eq_true_iff]

private theorem contains_removeFaces (r : Relay) (ids : List FaceId) (x : FaceId) :
    (r.removeFaces ids).faces.contains x = true ↔ r.faces.contains x = true ∧ x ∉ ids := by
  induction ids generalizing r with
  | nil => simp [removeFaces]
  | cons id ids ih =>
    refine (ih (r.removeFace id).2).trans ?_
    rw [contains_removeFace]
    simp [and_assoc]

/-- Faces that are there are removed in turn, each with what is its own. -/
theorem removesAll_removeFaces (r : Relay) {ids : List FaceId} (hnodup : ids.Nodup)
    (hthere : ∀ id ∈ ids, r.faces.contains id = true) : RemovesAll ids r (r.removeFaces ids) := by
  induction ids generalizing r with
  | nil => exact .nil
  | cons id ids ih =>
    obtain ⟨hid, hids⟩ := List.nodup_cons.mp hnodup
    refine .cons (removes_removeFace (hthere id List.mem_cons_self)) (ih _ hids fun other hother => ?_)
    rw [contains_removeFace, hthere other (List.mem_cons_of_mem _ hother)]
    simpa using fun h : other = id => hid (h ▸ hother)

/-- The routes through a face stay when others are removed. -/
theorem routes_removeFaces (r : Relay) {ids : List FaceId} (hx : x ∉ ids) :
    (r.removeFaces ids).routes.routes.filter (·.face = x) = r.routes.routes.filter (·.face = x) := by
  induction ids generalizing r with
  | nil => rfl
  | cons id ids ih =>
    have hne : x ≠ id := List.ne_of_not_mem_cons hx
    refine (ih (r.removeFace id).2 (List.not_mem_of_not_mem_cons hx)).trans ?_
    by_cases hid : r.faces.contains id = true
    · rw [(removes_removeFace hid).routes, List.filter_filter]
      apply List.filter_congr
      intro route _
      by_cases hroute : route.face = x
      · simp [hroute, hne]
      · simp [hroute]
    · rw [removeFace, if_neg hid]

/-- What a tick removes, and nothing else of it, is what has been idle for too long. -/
theorem removesAll_aged (h : r.faces.WellFormed) :
    ∃ s store,
      RemovesAll (r.faces.idle (r.clock + 1) r.config.faceTimeout) { r with clock := r.clock + 1 } s ∧
      r.aged.2 = { s with store } := by
  obtain ⟨store, haged⟩ := r.aged_eq
  refine ⟨_, store, removesAll_removeFaces _ (FaceTable.nodup_idle h) fun id hid => ?_, haged⟩
  obtain ⟨face, hface, -⟩ := (FaceTable.mem_idle h).mp hid
  change r.faces.contains id = true
  rw [FaceTable.contains_eq_isSome, hface]
  rfl

/-- Whether an operation takes a face away: a tick that finds it idle, or one that is told to. -/
def Drops (r : Relay) (op : Operation) (id : FaceId) : Prop :=
  op = .tick ∧ id ∈ r.faces.idle (r.clock + 1) r.config.faceTimeout ∨ op.removed? = some id

private theorem contains_aged (r : Relay) (x : FaceId) :
    r.aged.2.faces.contains x = true ↔
      r.faces.contains x = true ∧ x ∉ r.faces.idle (r.clock + 1) r.config.faceTimeout := by
  obtain ⟨store, haged⟩ := r.aged_eq
  rw [haged]
  exact contains_removeFaces _ _ x

private theorem nextId_removeFace (r : Relay) (id : FaceId) :
    (r.removeFace id).2.faces.nextId = r.faces.nextId :=
  removeFace_induction (motive := fun s => s.faces.nextId = r.faces.nextId) r id (fun _ => rfl)
    fun _ _ => rfl

private theorem nextId_aged (r : Relay) : r.aged.2.faces.nextId = r.faces.nextId :=
  aged_induction (motive := fun s => s.faces.nextId = r.faces.nextId) r rfl
    (fun s id hs => (s.nextId_removeFace id).trans hs) fun _ _ hs => hs

namespace Reseats

variable {op : Operation} {table : FaceTable} {now : Nat}

private theorem clock_of_tick (h : Reseats r .tick table now) : now = r.clock + 1 := by
  cases h with
  | same htick => exact absurd rfl htick
  | placed _ _ _ hmanaged => exact absurd trivial hmanaged
  | removed hremoved => cases hremoved
  | aged => rfl

private theorem clock_of_ne (h : Reseats r op table now) (hop : op ≠ .tick) : now = r.clock := by
  cases h with
  | aged => exact absurd rfl hop
  | _ => rfl

/-- A face stays unless the operation takes it away. -/
theorem contains_iff (h : Reseats r op table now) (hx : r.faces.contains x = true) :
    table.contains x = true ↔ ¬ r.Drops op x := by
  cases h with
  | same htick hremoved => simp [hx, Drops, htick, hremoved]
  | met interface peer =>
    simp [(r.faces.eased_getOrCreate interface peer r.clock).contains x hx, Drops, Operation.removed?]
  | placed interface peer flags hmanaged hremoved =>
    have htick : op ≠ .tick := fun h => hmanaged (h ▸ trivial)
    simp [(r.faces.eased_create interface peer flags r.clock).contains x hx, Drops, htick, hremoved]
  | released now => simp [(r.faces.eased_popReady now).contains x hx, Drops, Operation.removed?]
  | removed hremoved =>
    have htick : op ≠ .tick := fun h => by
      rw [h] at hremoved
      cases hremoved
    simp only [contains_removeFace, hx, Drops, htick, hremoved, Bool.true_and, bne_iff_ne, false_and,
      false_or, Option.some_inj]
    exact not_congr eq_comm
  | aged =>
    rw [contains_aged]
    simp [hx, Drops, Operation.removed?]

/-- Where a number is given the clock stands still, and the face has been used just now. -/
theorem lastUsed?_of_gives (h : Reseats r op table now) (hgives : r.faces.Gives table x) :
    now = r.clock ∧ table.lastUsed? x = some r.clock := by
  have hadded {interface : Nat} {peer : Peer} {flags : FaceFlags}
      (hgives : r.faces.Gives (r.faces.add interface peer flags r.clock).2 x) :
      (r.faces.add interface peer flags r.clock).2.lastUsed? x = some r.clock := by
    rw [FaceTable.lastUsed?_add, if_pos (FaceTable.gives_add.mp hgives)]
  cases h with
  | same => exact absurd rfl hgives.2
  | met interface peer =>
    refine ⟨rfl, ?_⟩
    unfold FaceTable.getOrCreate at hgives ⊢
    split at hgives
    · exact absurd rfl hgives.2
    · exact hadded hgives
  | placed interface peer flags =>
    refine ⟨rfl, ?_⟩
    unfold FaceTable.create at hgives ⊢
    split at hgives
    · exact absurd rfl hgives.2
    · exact hadded hgives
  | released => exact absurd rfl hgives.2
  | @removed _ id => exact absurd (r.nextId_removeFace id) hgives.2
  | aged => exact absurd r.nextId_aged hgives.2

/-- A face that is there was there, and has been used at the same tick as before, unless its number was
given. -/
theorem lastUsed? (h : Reseats r op table now) (hgives : ¬ r.faces.Gives table x) :
    ∀ n ∈ table.lastUsed? x, r.faces.lastUsed? x = some n := by
  have hkept {table : FaceTable} (h : table.get? x = r.faces.get? x ∨ table.get? x = none) :
      ∀ n ∈ table.lastUsed? x, r.faces.lastUsed? x = some n := by
    intro n hn
    rw [FaceTable.lastUsed?] at hn
    rcases h with h | h
    · rw [h] at hn
      exact hn
    · rw [h] at hn
      cases hn
  cases h with
  | same => exact fun _ hn => hn
  | met interface peer =>
    unfold FaceTable.getOrCreate at hgives ⊢
    split
    · exact fun _ hn => hn
    · next hnew =>
      rw [hnew] at hgives
      exact hkept (.inl (FaceTable.get?_add_of_not_gives hgives))
  | placed interface peer flags =>
    unfold FaceTable.create at hgives ⊢
    split
    · rw [FaceTable.lastUsed?_setFlags]
      exact fun _ hn => hn
    · next hnew =>
      rw [hnew] at hgives
      exact hkept (.inl (FaceTable.get?_add_of_not_gives hgives))
  | released now =>
    rw [FaceTable.lastUsed?_popReady]
    exact fun _ hn => hn
  | @removed _ id => exact hkept (r.get?_faces_removeFace id x)
  | aged => exact hkept (r.get?_faces_aged x)

/-- A face that stays leads where it did. -/
theorem placeOf (h : Reseats r op table now) (hgives : ¬ r.faces.Gives table x)
    (hstays : table.contains x = true) : table.placeOf x = r.faces.placeOf x := by
  have hkept {table : FaceTable} (hstays : table.contains x = true)
      (h : table.get? x = r.faces.get? x ∨ table.get? x = none) :
      table.placeOf x = r.faces.placeOf x := by
    rcases h with hsame | hgone
    · rw [FaceTable.placeOf, hsame, FaceTable.placeOf]
    · rw [FaceTable.contains_eq_isSome, hgone] at hstays
      cases hstays
  cases h with
  | same => rfl
  | met interface peer =>
    unfold FaceTable.getOrCreate at hgives ⊢
    split
    · rfl
    · next hnew =>
      rw [hnew] at hgives
      rw [FaceTable.placeOf, FaceTable.get?_add_of_not_gives hgives, FaceTable.placeOf]
  | placed interface peer flags =>
    unfold FaceTable.create at hgives ⊢
    split
    · next id _ =>
      exact congrFun (congrArg (·.2.2) (FaceTable.layout_setFlags id flags)) x
    · next hnew =>
      rw [hnew] at hgives
      rw [FaceTable.placeOf, FaceTable.get?_add_of_not_gives hgives, FaceTable.placeOf]
  | released now => exact congrFun (congrArg (·.2.2) (FaceTable.layout_popReady now)) x
  | @removed _ id => exact hkept hstays (r.get?_faces_removeFace id x)
  | aged => exact hkept hstays (r.get?_faces_aged x)

/-- Without commands a face that stays is what it was but for traffic. -/
theorem bare? (h : Reseats r op table now) (hop : op.IsUnmanaged) (hgives : ¬ r.faces.Gives table x)
    (hstays : table.contains x = true) : table.bare? x = r.faces.bare? x := by
  cases h with
  | same => rfl
  | met interface peer =>
    unfold FaceTable.getOrCreate at hgives ⊢
    split
    · rfl
    · next hnew =>
      rw [hnew] at hgives
      rw [FaceTable.bare?, FaceTable.get?_add_of_not_gives hgives, FaceTable.bare?]
  | placed _ _ _ hmanaged => exact absurd hop hmanaged
  | released now => exact FaceTable.bare?_popReady now
  | removed hremoved => cases (Operation.removed?_of_isUnmanaged hop).symm.trans hremoved
  | aged =>
    rcases r.get?_faces_aged x with hsame | hgone
    · rw [FaceTable.bare?, hsame, FaceTable.bare?]
    · rw [FaceTable.contains_eq_isSome, hgone] at hstays
      cases hstays

end Reseats

/-- A face that is used in the course of an operation has been used just then. -/
theorem lastUsed?_of_uses {op : Operation} (hthere : (r.perform op).faces.contains x = true)
    (huses : Uses r op x) : (r.perform op).faces.lastUsed? x = some (r.perform op).clock := by
  have hrefreshes := r.refreshes_perform op
  rw [contains_of_layout (r.layout_perform op), ← FaceTable.isSome_lastUsed?] at hthere
  obtain ⟨n, hn⟩ := Option.isSome_iff_exists.mp hthere
  rw [hrefreshes.refreshed x huses, hn, hrefreshes.clock]
  rfl

/-- Any other face that is there has been used at the same tick as before, unless its number was given. -/
theorem lastUsed?_of_not_uses {op : Operation} (hthere : (r.perform op).faces.contains x = true)
    (hgives : ¬ r.Gives op x) (hidle : ¬ Uses r op x) :
    (r.perform op).faces.lastUsed? x = r.faces.lastUsed? x := by
  rw [contains_of_layout (r.layout_perform op), ← FaceTable.isSome_lastUsed?] at hthere
  obtain ⟨n, hn⟩ := Option.isSome_iff_exists.mp hthere
  rw [gives_iff] at hgives
  rw [(r.refreshes_perform op).kept x hidle, hn, (r.reseats op).lastUsed? hgives n hn]

/-- The clock stands still where a number is given, and the face has been used just then. -/
theorem lastUsed?_of_gives {op : Operation} (hgives : r.Gives op x) :
    (r.perform op).clock = r.clock ∧ (r.perform op).faces.lastUsed? x = some r.clock := by
  have hrefreshes := r.refreshes_perform op
  rw [gives_iff] at hgives
  obtain ⟨hclock, hused⟩ := (r.reseats op).lastUsed?_of_gives hgives
  refine ⟨hrefreshes.clock.trans hclock, ?_⟩
  by_cases huses : Uses r op x
  · rw [hrefreshes.refreshed x huses, hused, hclock]
    rfl
  · rw [hrefreshes.kept x huses, hused]

/-- A tick moves the clock on by one. -/
theorem clock_perform_tick (r : Relay) : (r.perform .tick).clock = r.clock + 1 :=
  (r.refreshes_perform .tick).clock.trans (r.reseats .tick).clock_of_tick

/-- Only a tick moves the clock. -/
theorem clock_perform_of_ne {op : Operation} (hop : op ≠ .tick) : (r.perform op).clock = r.clock :=
  (r.refreshes_perform op).clock.trans ((r.reseats op).clock_of_ne hop)

/-- No number is given with a tick. -/
theorem not_gives_tick (r : Relay) (x : FaceId) : ¬ r.Gives .tick x := by
  rw [gives_iff]
  exact fun hgives => hgives.2 r.nextId_aged

/-- How many ticks have passed since a face was used last, or was added. -/
inductive Unused (id : FaceId) : Relay → Nat → Prop where
  | added {r : Relay} {op : Operation} (hr : r.Reachable) (hgives : r.Gives op id) :
      Unused id (r.perform op) 0
  | used {r : Relay} {op : Operation} {n : Nat} (h : Unused id r n)
      (hthere : (r.perform op).faces.contains id = true) (huses : Uses r op id) :
      Unused id (r.perform op) 0
  | ticked {r : Relay} {n : Nat} (h : Unused id r n)
      (hthere : (r.perform .tick).faces.contains id = true) (hidle : ¬ Uses r .tick id) :
      Unused id (r.perform .tick) (n + 1)
  | passed {r : Relay} {op : Operation} {n : Nat} (h : Unused id r n)
      (hthere : (r.perform op).faces.contains id = true) (hop : op ≠ .tick) (hgives : ¬ r.Gives op id)
      (hidle : ¬ Uses r op id) : Unused id (r.perform op) n

/-- The tick of its last use says for how long a face has been unused. -/
theorem Unused.lastUsed {n : Nat} (h : Unused id r n) :
    ∃ t, r.faces.lastUsed? id = some t ∧ t + n = r.clock := by
  induction h with
  | added _ hgives =>
    obtain ⟨hclock, hused⟩ := lastUsed?_of_gives hgives
    exact ⟨_, hused, hclock.symm⟩
  | used _ hthere huses => exact ⟨_, lastUsed?_of_uses hthere huses, rfl⟩
  | ticked _ hthere hidle ih =>
    obtain ⟨t, ht, hclock⟩ := ih
    refine ⟨t, ?_, ?_⟩
    · rw [lastUsed?_of_not_uses hthere (not_gives_tick _ _) hidle, ht]
    · rw [clock_perform_tick, ← hclock, Nat.add_assoc]
  | passed _ hthere hop hgives hidle ih =>
    obtain ⟨t, ht, hclock⟩ := ih
    refine ⟨t, ?_, ?_⟩
    · rw [lastUsed?_of_not_uses hthere hgives hidle, ht]
    · rw [clock_perform_of_ne hop, hclock]

/-- A face that is there was there before, unless its number was given. -/
theorem contains_of_perform {op : Operation} (hthere : (r.perform op).faces.contains x = true)
    (hgives : ¬ r.Gives op x) : r.faces.contains x = true := by
  rw [contains_of_layout (r.layout_perform op), ← FaceTable.isSome_lastUsed?] at hthere
  obtain ⟨n, hn⟩ := Option.isSome_iff_exists.mp hthere
  rw [gives_iff] at hgives
  rw [← FaceTable.isSome_lastUsed?, (r.reseats op).lastUsed? hgives n hn]
  rfl

/-- Each face has been unused for some number of ticks. -/
theorem exists_unused (hr : r.Reachable) (hthere : r.faces.contains id = true) :
    ∃ n, Unused id r n := by
  induction hr with
  | new hnew =>
    obtain rfl := eq_of_new hnew
    cases hthere
  | @perform r op hr _ ih =>
    by_cases hgives : r.Gives op id
    · exact ⟨0, .added hr hgives⟩
    · obtain ⟨n, hn⟩ := ih (contains_of_perform hthere hgives)
      by_cases huses : Uses r op id
      · exact ⟨0, .used hn hthere huses⟩
      · by_cases hop : op = .tick
        · subst hop
          exact ⟨n + 1, .ticked hn hthere huses⟩
        · exact ⟨n, .passed hn hthere hop hgives huses⟩

private theorem contains_perform_iff (hx : r.faces.contains x = true) (op : Operation) :
    (r.perform op).faces.contains x = true ↔ ¬ r.Drops op x := by
  rw [contains_of_layout (r.layout_perform op)]
  exact (r.reseats op).contains_iff hx

/-- A tick takes a face away if it has been unused for too long then. -/
theorem drops_iff_of_unused (h : r.faces.WellFormed) {face : Face} (hface : r.faces.get? id = some face)
    (hstatic : face.flags.isStatic = false) {n : Nat} (hn : Unused id r n) (op : Operation) :
    r.Drops op id ↔ op = .tick ∧ r.config.faceTimeout < n + 1 ∨ op.removed? = some id := by
  obtain ⟨t, ht, hclock⟩ := hn.lastUsed
  have hused : face.lastUsed = t := by
    rw [FaceTable.lastUsed?, hface] at ht
    exact Option.some.inj ht
  have hidle : face.isIdle (r.clock + 1) r.config.faceTimeout = true ↔ r.config.faceTimeout < n + 1 := by
    have hticks : r.clock + 1 - face.lastUsed = n + 1 := by omega
    simp [Face.isIdle, hstatic, hticks]
  have hmem : id ∈ r.faces.idle (r.clock + 1) r.config.faceTimeout ↔ r.config.faceTimeout < n + 1 := by
    rw [FaceTable.mem_idle h, ← hidle]
    simp [hface]
  rw [Drops, hmem]

/-- Packets and ticks leave a static face, and the routes through it, unless its number is given. -/
theorem static_perform (hr : LaidOut r) {op : Operation} (hop : op.IsUnmanaged)
    (hgives : ¬ r.Gives op id) {face : Face} (hface : r.faces.bare? id = some face)
    (hstatic : face.flags.isStatic = true) :
    (r.perform op).faces.bare? id = some face ∧
      (r.perform op).routes.routes.filter (·.face = id) = r.routes.routes.filter (·.face = id) := by
  obtain ⟨full, hfull, rfl⟩ := Option.map_eq_some_iff.mp hface
  have hx : r.faces.contains id = true := by
    rw [FaceTable.contains_eq_isSome, hfull]
    rfl
  have hidle : id ∉ r.faces.idle (r.clock + 1) r.config.faceTimeout := by
    rw [FaceTable.mem_idle hr.faces]
    rintro ⟨face', hface', hidle⟩
    cases hfull.symm.trans hface'
    have hflag : full.flags.isStatic = true := hstatic
    simp [Face.isIdle, hflag] at hidle
  have hdrops : ¬ r.Drops op id := by
    rintro (⟨-, hmem⟩ | hremoved)
    · exact hidle hmem
    · cases (Operation.removed?_of_isUnmanaged hop).symm.trans hremoved
  have hstays := ((r.reseats op).contains_iff hx).mpr hdrops
  constructor
  · rw [(r.refreshes_perform op).bare, (r.reseats op).bare? hop (gives_iff.not.mp hgives) hstays, hface]
  · rw [routes_of_layout (r.layout_perform op)]
    cases op with
    | faceForPeer => rfl
    | drainReady => rfl
    | handleInterest => rfl
    | handleContent => rfl
    | tick =>
      obtain ⟨store, haged⟩ := r.aged_eq
      rw [untilPosting, haged]
      exact routes_removeFaces { r with clock := r.clock + 1 } hidle
    | _ => cases hop

private theorem static_performAll (hr : LaidOut r) {ops : List Operation} (hops : ∀ op ∈ ops, op.IsUnmanaged)
    (hgives : ∀ before op after, ops = before ++ op :: after → ¬ (r.performAll before).Gives op id)
    {face : Face} (hface : r.faces.bare? id = some face) (hstatic : face.flags.isStatic = true) :
    (r.performAll ops).faces.bare? id = some face ∧
      (r.performAll ops).routes.routes.filter (·.face = id) =
        r.routes.routes.filter (·.face = id) := by
  induction ops generalizing r with
  | nil => exact ⟨hface, rfl⟩
  | cons op ops ih =>
    obtain ⟨hkept, hroutes⟩ :=
      static_perform hr (hops op List.mem_cons_self) (hgives [] op ops rfl) hface hstatic
    have hlaidOut := (Shifted.perform r op).sound hr
    have hrest : ∀ op ∈ ops, op.IsUnmanaged := fun op hmem => hops op (List.mem_cons_of_mem _ hmem)
    obtain ⟨hlater, hlaterRoutes⟩ := ih hlaidOut hrest
      (fun before next after heq => hgives (op :: before) next after (congrArg (op :: ·) heq)) hkept
    exact ⟨hlater, hlaterRoutes.trans hroutes⟩

/-- Packets and ticks leave a static face as it was set up, and the routes through it as they are. Any
other face has been unused for some number of ticks: the tick that makes them more than the timeout takes
it away, and nothing else does but what is told to. Both hold until the number of the face is given to
another one. A face that goes, by a command or by a tick, takes along what is its own and nothing else; the
rest of the tick removes no face and no route. -/
theorem faces_of_reachable (hr : r.Reachable) :
    (∀ ops : List Operation, (∀ op ∈ ops, op.IsUnmanaged) → ∀ id face, r.faces.get? id = some face →
      face.flags.isStatic = true →
        (∀ before op after, ops = before ++ op :: after → ¬ (r.performAll before).Gives op id) →
          (r.performAll ops).faces.bare? id = some face.bare ∧
            (r.performAll ops).routes.routes.filter (·.face = id) =
              r.routes.routes.filter (·.face = id)) ∧
    (∀ id face, r.faces.get? id = some face → face.flags.isStatic = false →
      (∃ n, Unused id r n) ∧
        ∀ n, Unused id r n → ∀ op, ¬ r.Gives op id →
          ((r.perform op).faces.contains id = false ↔
            op = .tick ∧ r.config.faceTimeout < n + 1 ∨ op.removed? = some id) ∧
          ((r.perform op).faces.contains id = true →
            (r.perform op).faces.placeOf id = some (face.interface, face.peer))) ∧
    (∀ op id, op.removed? = some id → r.faces.contains id = true → Removes id r (r.perform op)) ∧
    ∃ s store,
      RemovesAll (r.faces.idle (r.clock + 1) r.config.faceTimeout) { r with clock := r.clock + 1 } s ∧
        r.aged.2 = { s with store } ∧ (r.perform .tick).layout = s.layout := by
  have hlaidOut := laidOut_of_reachable hr
  refine ⟨?_, ?_, ?_, ?_⟩
  · intro ops hops id face hface hstatic hgives
    have hbare : r.faces.bare? id = some face.bare := by
      rw [FaceTable.bare?, hface]
      rfl
    exact static_performAll hlaidOut hops hgives hbare hstatic
  · intro id face hface hstatic
    have hx : r.faces.contains id = true := by
      rw [FaceTable.contains_eq_isSome, hface]
      rfl
    refine ⟨exists_unused hr hx, fun n hn op hgives => ⟨?_, fun hstays => ?_⟩⟩
    · rw [← drops_iff_of_unused hlaidOut.faces hface hstatic hn, ← Bool.not_eq_true,
        contains_perform_iff hx, not_not]
    · have hplace : (r.perform op).faces.placeOf id = (r.untilPosting op).faces.placeOf id :=
        congrFun (congrArg (fun layout => layout.2.2.2) (r.layout_perform op)) id
      rw [contains_of_layout (r.layout_perform op)] at hstays
      rw [hplace, (r.reseats op).placeOf (gives_iff.not.mp hgives) hstays, FaceTable.placeOf, hface]
      rfl
  · intro op id hremoved hx
    cases op with
    | removeFace => cases hremoved; exact removes_removeFace hx
    | apply command =>
      cases command with
      | removeFace => cases hremoved; exact removes_removeFace hx
      | _ => cases hremoved
    | _ => cases hremoved
  · obtain ⟨s, store, hremoves, haged⟩ := removesAll_aged hlaidOut.faces
    refine ⟨s, store, hremoves, haged, ?_⟩
    rw [layout_perform, untilPosting, haged]
    rfl

/-- A face that has asked for something is removed by the second tick after, if the timeout is one. The
static face that its Interest was sent to stays. -/
theorem faces_of_reachable_idle :
    ∃ r₀ r : Relay, Relay.new { faceTimeout := 1 } (.ofSeed 0) = .ok r₀ ∧
      r = r₀.performAll
        [.faceForPeer 0 (.unix "a"), .addStaticFace 1 (.unix "b") {},
          .addRoute (.ofComponents [[0x61]]) ⟨2⟩ .ndn2013,
          .handleInterest ⟨1⟩ (.ofName (.ofComponents [[0x61], [0x62]])), .tick] ∧
      (r.perform .tick).faces.contains ⟨1⟩ = false ∧
      (∃ n, Unused ⟨1⟩ r n ∧ r.config.faceTimeout < n + 1) ∧
      Removes ⟨1⟩ r (r.perform (.removeFace ⟨1⟩)) ∧
      ∃ face, r.faces.get? ⟨2⟩ = some face ∧
        (r.performAll [.tick, .tick]).faces.bare? ⟨2⟩ = some face.bare := by
  have hlives (r : Relay) (hr : r.Reachable)
      (hidle : (r.faces.get? ⟨1⟩).map (·.flags.isStatic) = some false)
      (hstatic : (r.faces.get? ⟨2⟩).map (·.flags.isStatic) = some true)
      (hgone : (r.perform .tick).faces.contains ⟨1⟩ = false) :
      (r.perform .tick).faces.contains ⟨1⟩ = false ∧
        (∃ n, Unused ⟨1⟩ r n ∧ r.config.faceTimeout < n + 1) ∧
        Removes ⟨1⟩ r (r.perform (.removeFace ⟨1⟩)) ∧
        ∃ face, r.faces.get? ⟨2⟩ = some face ∧
          (r.performAll [.tick, .tick]).faces.bare? ⟨2⟩ = some face.bare := by
    obtain ⟨hstays, hgoes, hremoves, -⟩ := faces_of_reachable hr
    obtain ⟨face₁, hface₁, hflag₁⟩ := Option.map_eq_some_iff.mp hidle
    obtain ⟨face₂, hface₂, hflag₂⟩ := Option.map_eq_some_iff.mp hstatic
    obtain ⟨⟨n, hn⟩, hiff⟩ := hgoes ⟨1⟩ face₁ hface₁ hflag₁
    have hthere : r.faces.contains ⟨1⟩ = true := by
      rw [FaceTable.contains_eq_isSome, hface₁]
      rfl
    have hlong : r.config.faceTimeout < n + 1 := by
      simpa [Operation.removed?] using ((hiff n hn .tick (not_gives_tick r ⟨1⟩)).1).mp hgone
    have hticks : ∀ op ∈ [Operation.tick, .tick], op = .tick := by simp
    have hunmanaged : ∀ op ∈ [Operation.tick, .tick], op.IsUnmanaged :=
      fun op hop => hticks op hop ▸ trivial
    have hgives : ∀ before op after, [Operation.tick, .tick] = before ++ op :: after →
        ¬ (r.performAll before).Gives op ⟨2⟩ := by
      intro before op after heq
      have hop : op ∈ [Operation.tick, .tick] := heq ▸ List.mem_append_right _ List.mem_cons_self
      exact hticks op hop ▸ not_gives_tick _ _
    exact ⟨hgone, ⟨n, hn, hlong⟩, hremoves _ _ rfl hthere, face₂, hface₂,
      (hstays _ hunmanaged ⟨2⟩ face₂ hface₂ hflag₂ hgives).1⟩
  have hnew : Relay.new { faceTimeout := 1 } (.ofSeed 0) = .ok _ := rfl
  refine ⟨_, _, hnew, rfl, hlives _ (.performAll (.new hnew) fun _ _ => trivial) ?_ ?_ ?_⟩
  · decide +kernel
  · decide +kernel
  · decide +kernel

/-- A peer that is met on one interface after the other. -/
def contacts (count : Nat) : List Operation :=
  (List.range count).map fun interface => .faceForPeer (interface + 1) (.unix "b")

private theorem performAll_contacts_succ (r : Relay) (count : Nat) :
    r.performAll (contacts (count + 1)) =
      (r.performAll (contacts count)).perform (.faceForPeer (count + 1) (.unix "b")) := by
  rw [contacts, List.range_succ, List.map_append, performAll, List.foldl_append]
  rfl

private theorem isUnmanaged_contacts {count : Nat} : ∀ op ∈ contacts count, op.IsUnmanaged := by
  intro op hop
  obtain ⟨interface, -, rfl⟩ := List.mem_map.mp hop
  trivial

/-- A peer that is met on an interface beyond those of all faces is given a face. -/
theorem faceForPeer_of_below {interface : Nat} (h : ∀ face ∈ r.faces.faces, face.interface ≤ interface)
    (peer : Peer) :
    (r.perform (.faceForPeer (interface + 1) peer)).faces =
      (r.faces.add (interface + 1) peer {} r.clock).2 := by
  have hnew : r.faces.find? (interface + 1) peer = none := by
    rw [FaceTable.find?, Option.map_eq_none_iff, List.find?_eq_none]
    intro face hface hmatch
    rw [Bool.and_eq_true, beq_iff_eq] at hmatch
    have hbelow := h face hface
    rw [hmatch.1] at hbelow
    exact Nat.not_succ_le_self interface hbelow
  rw [perform, faceForPeer, FaceTable.getOrCreate, hnew]

/-- Each contact is given a number, which may come round. -/
theorem faces_contacts (h : ∀ face ∈ r.faces.faces, face.interface = 0) (count : Nat) :
    (r.performAll (contacts count)).faces.nextId = r.faces.nextId + UInt32.ofNat count ∧
      ∀ face ∈ (r.performAll (contacts count)).faces.faces, face.interface ≤ count := by
  induction count with
  | zero => exact ⟨(UInt32.add_zero _).symm, fun face hface => Nat.le_of_eq (h face hface)⟩
  | succ count ih =>
    obtain ⟨hnext, hbelow⟩ := ih
    rw [performAll_contacts_succ, faceForPeer_of_below hbelow]
    constructor
    · rw [FaceTable.add, hnext, UInt32.ofNat_add, UInt32.add_assoc]
      rfl
    · exact FaceTable.forall_add (fun face hface => Nat.le_succ_of_le (hbelow face hface)) (Nat.le_refl _)

/-- The last contact has the number that was next then. -/
theorem placeOf_contacts (h : ∀ face ∈ r.faces.faces, face.interface = 0) (count : Nat) :
    (r.performAll (contacts (count + 1))).faces.placeOf ⟨r.faces.nextId + UInt32.ofNat count⟩ =
      some (count + 1, .unix "b") := by
  obtain ⟨hnext, hbelow⟩ := faces_contacts h count
  rw [performAll_contacts_succ, faceForPeer_of_below hbelow, FaceTable.placeOf_add,
    if_pos (congrArg FaceId.mk hnext.symm)]

/-- When all numbers have been given, the first of them is given again. -/
theorem bare?_contacts_ne (h : ∀ face ∈ r.faces.faces, face.interface = 0) (hnext : r.faces.nextId = 2)
    {face : Face} (hface : r.faces.get? ⟨1⟩ = some face) :
    (r.performAll (contacts 4294967296)).faces.bare? ⟨1⟩ ≠ some face.bare := by
  intro hkept
  have hround : r.faces.nextId + UInt32.ofNat 4294967295 = 1 := by
    rw [hnext]
    decide
  have hplace := placeOf_contacts h 4294967295
  rw [hround] at hplace
  rw [FaceTable.placeOf_eq_bare?, hkept] at hplace
  have hinterface : face.interface = 4294967296 := congrArg Prod.fst (Option.some.inj hplace)
  rw [h face (List.mem_of_find?_eq_some hface)] at hinterface
  cases hinterface

/-- A static face is not left as it is by all peers that are met: once all numbers have been given, the next
peer has its number. Before that an Interest from the face changes the tick of its last use. -/
theorem static_face_replaced :
    ∃ (r₀ r : Relay) (ops : List Operation) (face : Face), Relay.new {} (.ofSeed 0) = .ok r₀ ∧
      r = r₀.performAll [.addStaticFace 0 (.unix "a") {}] ∧ r.faces.get? ⟨1⟩ = some face ∧
      face.flags.isStatic = true ∧ (∀ op ∈ ops, op.IsUnmanaged) ∧
      (r.performAll ops).faces.bare? ⟨1⟩ ≠ some face.bare ∧
      (r.performAll
        [.tick, .handleInterest ⟨1⟩ (.ofName (.ofComponents [[0x61]]))]).faces.lastUsed? ⟨1⟩ ≠
          some face.lastUsed := by
  have hnew : Relay.new {} (.ofSeed 0) = .ok _ := rfl
  refine ⟨_, _, contacts 4294967296, _, hnew, rfl, rfl, rfl, isUnmanaged_contacts,
    bare?_contacts_ne ?_ rfl rfl, ?_⟩
  · decide +kernel
  · decide +kernel

end Relay

end NamedFunctions
