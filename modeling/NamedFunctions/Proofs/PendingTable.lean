import Mathlib.Data.List.Nodup
import NamedFunctions.PendingTable

/-!
# Tables of pending Interests

In a well-formed table no two entries have the same number, and numbers to come are not in use. Each
operation is described by what it does to the entries and to the computations that wait in them.
-/

namespace NamedFunctions

/-- The computation that makes a request. -/
def Request.computation? (request : Request) : Option ComputationId :=
  match request.requester with
  | .face _ => none
  | .computation id => some id

namespace PendingEntry

private theorem computations_eq (e : PendingEntry) :
    e.computations = e.requests.filterMap Request.computation? := rfl

/-- The faces of an entry are those that have asked. -/
theorem mem_faces {e : PendingEntry} {id : FaceId} :
    id ∈ e.faces ↔ ∃ request ∈ e.requests, request.requester = .face id := by
  simp only [faces, List.mem_filterMap]
  apply exists_congr
  rintro ⟨requester, arrivedAt⟩
  cases requester <;> simp

/-- The computations of an entry are those that have asked. -/
theorem mem_computations {e : PendingEntry} {id : ComputationId} :
    id ∈ e.computations ↔ ∃ request ∈ e.requests, request.requester = .computation id := by
  simp only [computations, List.mem_filterMap]
  apply exists_congr
  rintro ⟨requester, arrivedAt⟩
  cases requester <;> simp

/-- An entry has the requesters that have asked. -/
theorem hasRequester_iff {e : PendingEntry} {requester : Requester} :
    e.hasRequester requester = true ↔ ∃ request ∈ e.requests, request.requester = requester := by
  simp [hasRequester]

/-- A face is a requester if it is among the faces. -/
theorem hasRequester_face {e : PendingEntry} {id : FaceId} :
    e.hasRequester (.face id) = true ↔ id ∈ e.faces := by
  rw [hasRequester_iff, mem_faces]

/-- A computation is a requester if it is among the computations. -/
theorem hasRequester_computation {e : PendingEntry} {id : ComputationId} :
    e.hasRequester (.computation id) = true ↔ id ∈ e.computations := by
  rw [hasRequester_iff, mem_computations]

/-- Who joins an entry waits there, with those who did before. -/
theorem hasRequester_join {e : PendingEntry} {requester other : Requester} {nonce : Option UInt32}
    {now : Nat} :
    (e.join requester nonce now).hasRequester other = true ↔
      other = requester ∨ e.hasRequester other = true := by
  by_cases h : e.hasRequester requester = true
  · have hjoin : (e.join requester nonce now).requests = e.requests := if_pos h
    rw [hasRequester, hjoin, ← hasRequester]
    constructor
    · exact Or.inr
    · rintro (rfl | h')
      · exact h
      · exact h'
  · simp only [hasRequester_iff, join, h]
    simp [or_comm, eq_comm]

/-- Joining adds a face at most. -/
theorem mem_faces_join {e : PendingEntry} {id : FaceId} {requester : Requester}
    {nonce : Option UInt32} {now : Nat} :
    id ∈ (e.join requester nonce now).faces ↔ .face id = requester ∨ id ∈ e.faces := by
  rw [← hasRequester_face, hasRequester_join, hasRequester_face]

/-- A face that joins an entry is no computation. -/
theorem computations_join_face (e : PendingEntry) (id : FaceId) (nonce : Option UInt32) (now : Nat) :
    (e.join (.face id) nonce now).computations = e.computations := by
  simp only [join, computations]
  split <;> simp

/-- A computation that joins an entry is the last of those that wait there. -/
theorem computations_join_computation {e : PendingEntry} {id : ComputationId}
    (h : id ∉ e.computations) (nonce : Option UInt32) (now : Nat) :
    (e.join (.computation id) nonce now).computations = e.computations ++ [id] := by
  have hn : ¬ e.hasRequester (.computation id) = true := mt hasRequester_computation.mp h
  simp [join, computations, hn]

private theorem hasRequester_leave {e : PendingEntry} {requester other : Requester} :
    (e.leave requester).hasRequester other = true ↔
      other ≠ requester ∧ e.hasRequester other = true := by
  simp only [hasRequester_iff, leave, List.mem_filter]
  constructor
  · rintro ⟨request, ⟨hmem, hne⟩, rfl⟩
    exact ⟨by simpa using hne, request, hmem, rfl⟩
  · rintro ⟨hne, request, hmem, rfl⟩
    exact ⟨request, ⟨hmem, by simpa using hne⟩, rfl⟩

/-- Faces wait on when another one leaves. -/
theorem mem_faces_leave {e : PendingEntry} {id : FaceId} {requester : Requester} :
    id ∈ (e.leave requester).faces ↔ .face id ≠ requester ∧ id ∈ e.faces := by
  rw [← hasRequester_face, hasRequester_leave, hasRequester_face]

/-- A face that leaves takes no computation along. -/
theorem computations_leave_face (e : PendingEntry) (id : FaceId) :
    (e.leave (.face id)).computations = e.computations := by
  rw [computations_eq, computations_eq, leave, List.filterMap_filter]
  congr 1
  funext request
  obtain ⟨requester, arrivedAt⟩ := request
  cases requester <;> simp [Request.computation?]

/-- No computation waits where there are no requests. -/
theorem computations_eq_nil {e : PendingEntry} (h : e.requests.isEmpty = true) :
    e.computations = [] := by
  rw [computations_eq, List.isEmpty_iff.mp h]
  rfl

end PendingEntry

namespace PendingTable

/-- No two entries have the same number, and no entry has one that is still to be given. -/
structure WellFormed (table : PendingTable) : Prop where
  nodup : table.ids.Nodup
  below : ∀ id ∈ table.ids, id.val < table.nextId

/-- The computations that wait, entry after entry. -/
def waiting (table : PendingTable) : List ComputationId := table.entries.flatMap (·.computations)

variable {table : PendingTable}

/-- The computations that wait are those of the entries. -/
theorem mem_waiting {id : ComputationId} :
    id ∈ table.waiting ↔ ∃ e ∈ table.entries, id ∈ e.computations := List.mem_flatMap

/-- The numbers are those of the entries. -/
theorem mem_ids {id : PendingId} : id ∈ table.ids ↔ ∃ e ∈ table.entries, e.id = id := List.mem_map

/-- The number of an entry is below the next one. -/
theorem WellFormed.id_lt (h : table.WellFormed) {e : PendingEntry} (he : e ∈ table.entries) :
    e.id.val < table.nextId := h.below e.id (mem_ids.mpr ⟨e, he, rfl⟩)

/-- An entry that is found is in the table under its number. -/
theorem mem_of_get? {id : PendingId} {e : PendingEntry} (h : table.get? id = some e) :
    e ∈ table.entries ∧ e.id = id :=
  ⟨List.mem_of_find?_eq_some h, by simpa using List.find?_some h⟩

/-- Nothing is found under a number that no entry has. -/
theorem get?_eq_none {id : PendingId} : table.get? id = none ↔ id ∉ table.ids := by
  rw [get?, List.find?_eq_none, mem_ids]
  simp

/-- An entry whose Interest asks for the same is there. -/
theorem mem_of_findSame {interest : Interest} {id : PendingId}
    (h : table.findSame interest = some id) :
    ∃ e ∈ table.entries, e.id = id ∧ e.interest.asksSame interest = true := by
  obtain ⟨e, he, hid⟩ := Option.map_eq_some_iff.mp h
  exact ⟨e, List.mem_of_find?_eq_some he, hid, by simpa using List.find?_some he⟩

/-- A change that keeps the number of an entry keeps all numbers. -/
theorem ids_modify (table : PendingTable) (id : PendingId) {change : PendingEntry → PendingEntry}
    (hid : ∀ e, (change e).id = e.id) : (table.modify id change).ids = table.ids := by
  change (table.entries.map _).map _ = _
  rw [List.map_map]
  apply List.map_congr_left
  intro e _
  by_cases he : e.id = id
  · simp [he, hid]
  · simp [he]

namespace WellFormed

/-- An empty table is well-formed. -/
theorem empty : WellFormed {} := ⟨List.nodup_nil, fun _ h => absurd h List.not_mem_nil⟩

/-- The numbers tell the entries apart. -/
theorem eq_of_id (h : table.WellFormed) {e e' : PendingEntry} (he : e ∈ table.entries)
    (he' : e' ∈ table.entries) (hid : e.id = e'.id) : e = e' :=
  List.inj_on_of_nodup_map h.nodup he he' hid

/-- An entry is found under its number. -/
theorem get?_eq_some (h : table.WellFormed) {e : PendingEntry} (he : e ∈ table.entries) :
    table.get? e.id = some e := by
  cases hg : table.get? e.id with
  | none =>
    have := List.find?_eq_none.mp hg e he
    simp at this
  | some e' =>
    obtain ⟨he', hid⟩ := mem_of_get? hg
    rw [h.eq_of_id he' he hid]

/-- The entries before and after an entry have other numbers. -/
theorem split (h : table.WellFormed) {e : PendingEntry} (he : e ∈ table.entries) :
    ∃ before after, table.entries = before ++ e :: after ∧
      (∀ x ∈ before, x.id ≠ e.id) ∧ ∀ x ∈ after, x.id ≠ e.id := by
  obtain ⟨before, after, hsplit⟩ := List.append_of_mem he
  refine ⟨before, after, hsplit, ?_, ?_⟩
  · intro x hx hid
    have hn := h.nodup
    rw [ids, hsplit, List.map_append, List.map_cons, List.nodup_append] at hn
    exact hn.2.2 x.id (List.mem_map_of_mem hx) e.id (by simp) hid
  · intro x hx hid
    have hn := h.nodup
    rw [ids, hsplit, List.map_append, List.map_cons, List.nodup_append] at hn
    exact (List.nodup_cons.mp hn.2.1).1 (hid ▸ List.mem_map_of_mem hx)

/-- A new entry keeps a table well formed. -/
theorem insert (h : table.WellFormed) (interest : Interest) (requester : Requester) (now : Nat) :
    (table.insert interest requester now).2.WellFormed := by
  constructor
  · rw [ids, PendingTable.insert, List.map_append, List.nodup_append]
    refine ⟨h.nodup, by simp, ?_⟩
    rintro id hid _ hnew rfl
    have hval := h.below id hid
    simp only [List.map_cons, List.map_nil, List.mem_singleton] at hnew
    rw [hnew] at hval
    exact Nat.lt_irrefl _ hval
  · intro id hid
    change id.val < table.nextId + 1
    obtain ⟨e, he, rfl⟩ := mem_ids.mp hid
    rcases List.mem_append.mp he with he | he
    · exact Nat.lt_succ_of_lt (h.id_lt he)
    · rw [List.mem_singleton.mp he]
      exact Nat.lt_succ_self _

/-- A change that keeps numbers keeps the table well-formed. -/
theorem modify (h : table.WellFormed) (id : PendingId) {change : PendingEntry → PendingEntry}
    (hid : ∀ e, (change e).id = e.id) : (table.modify id change).WellFormed := by
  have hids := table.ids_modify id hid
  exact ⟨hids ▸ h.nodup, fun x hx => h.below x (hids ▸ hx)⟩

/-- Entries that go away leave the table well-formed. -/
theorem filter (h : table.WellFormed) (keep : PendingEntry → Bool) :
    WellFormed { table with entries := table.entries.filter keep } :=
  have hsub : ((table.entries.filter keep).map (·.id)).Sublist table.ids :=
    List.filter_sublist.map _
  ⟨hsub.nodup h.nodup, fun x hx => h.below x (hsub.subset hx)⟩

/-- Dropping a requester keeps a table well formed. -/
theorem dropRequester (h : table.WellFormed) (requester : Requester) :
    (table.dropRequester requester).2.WellFormed := by
  let left : PendingTable := { table with entries := table.entries.map (·.leave requester) }
  have hids : left.ids = table.ids := List.map_map
  have hleft : left.WellFormed := ⟨hids ▸ h.nodup, fun x hx => h.below x (hids ▸ hx)⟩
  exact hleft.filter _

/-- An entry that is taken back leaves the entries as they were before. -/
theorem entries_erase_insert (h : table.WellFormed) (interest : Interest) (requester : Requester)
    (now : Nat) :
    ((table.insert interest requester now).2.erase
      (table.insert interest requester now).1).entries = table.entries := by
  change List.filter (·.id != ⟨table.nextId⟩) (table.entries ++ [_]) = table.entries
  have hold : ∀ e ∈ table.entries, (e.id != (⟨table.nextId⟩ : PendingId)) = true := by
    intro e he
    have hlt := h.id_lt he
    rw [bne_iff_ne]
    intro hid
    rw [hid] at hlt
    exact Nat.lt_irrefl _ hlt
  rw [List.filter_append, List.filter_eq_self.mpr hold]
  simp

end WellFormed

/-- One entry is changed, and found as before. -/
theorem get?_modify (table : PendingTable) (id x : PendingId) {change : PendingEntry → PendingEntry}
    (hid : ∀ e, (change e).id = e.id) :
    (table.modify id change).get? x =
      (table.get? x).map fun e => if e.id = id then change e else e := by
  have hkey : ((·.id == x) ∘ fun e : PendingEntry => if e.id = id then change e else e) =
      (·.id == x) := by
    funext e
    rw [Function.comp_apply]
    split
    · rw [hid]
    · rfl
  rw [modify, get?, List.find?_map, hkey, ← get?]

/-- A change of one entry leaves the others alone. -/
theorem get?_modify_of_ne (table : PendingTable) {id x : PendingId}
    {change : PendingEntry → PendingEntry} (hid : ∀ e, (change e).id = e.id) (hne : x ≠ id) :
    (table.modify id change).get? x = table.get? x := by
  rw [get?_modify table id x hid]
  cases hx : table.get? x with
  | none => rfl
  | some e =>
    have he : e.id ≠ id := (mem_of_get? hx).2.symm ▸ hne
    simp [he]

/-- The other entries are found where one is erased. -/
theorem get?_erase_of_ne (table : PendingTable) {id x : PendingId} (hne : x ≠ id) :
    (table.erase id).get? x = table.get? x := by
  rw [erase, get?, List.find?_filter, get?]
  congr 1
  funext e
  by_cases he : e.id = x
  · simp [he, hne]
  · simp [he]

/-- The entries are those that have requesters left. -/
theorem mem_dropRequester {requester : Requester} {e' : PendingEntry} :
    e' ∈ (table.dropRequester requester).2.entries ↔
      ∃ e ∈ table.entries, e.leave requester = e' ∧ e'.requests ≠ [] := by
  simp only [dropRequester, List.mem_filter, List.mem_map]
  constructor
  · rintro ⟨⟨e, he, heq⟩, hne⟩
    exact ⟨e, he, heq, by simpa using hne⟩
  · rintro ⟨e, he, heq, hne⟩
    exact ⟨⟨e, he, heq⟩, by simpa using hne⟩

/-- Whether a table still has a request of a face: in the entry with the same number, for the same
Interest. -/
def Keeps (table : PendingTable) (e : PendingEntry) (id : FaceId) : Prop :=
  ∃ e' ∈ table.entries, e'.id = e.id ∧ e'.interest = e.interest ∧ id ∈ e'.faces

/-- An entry with the same number and the same Interest is as good. -/
theorem Keeps.of_same {e e₁ : PendingEntry} {id : FaceId} (h : table.Keeps e₁ id)
    (hid : e₁.id = e.id) (hinterest : e₁.interest = e.interest) : table.Keeps e id := by
  obtain ⟨e', he', hid', hinterest', hface⟩ := h
  exact ⟨e', he', hid'.trans hid, hinterest'.trans hinterest, hface⟩

/-- A face keeps waiting in its entry when another is put in. -/
theorem keeps_insert {e : PendingEntry} (he : e ∈ table.entries) {id : FaceId} (hid : id ∈ e.faces)
    (interest : Interest) (requester : Requester) (now : Nat) :
    (table.insert interest requester now).2.Keeps e id :=
  ⟨e, List.mem_append_left _ he, rfl, rfl, hid⟩

/-- A change that lets faces wait on keeps their requests. -/
theorem keeps_modify {e : PendingEntry} (he : e ∈ table.entries) {id : FaceId} (hid : id ∈ e.faces)
    (entry : PendingId) {change : PendingEntry → PendingEntry} (hsame : (change e).id = e.id)
    (hinterest : (change e).interest = e.interest) (hfaces : id ∈ (change e).faces) :
    (table.modify entry change).Keeps e id := by
  refine ⟨_, List.mem_map_of_mem he, ?_⟩
  split
  · exact ⟨hsame, hinterest, hfaces⟩
  · exact ⟨rfl, rfl, hid⟩

/-- A new entry of a face leaves the computations that wait. -/
theorem waiting_insert_face (table : PendingTable) (interest : Interest) (id : FaceId)
    (now : Nat) : (table.insert interest (.face id) now).2.waiting = table.waiting := by
  simp [waiting, insert, PendingEntry.computations]

/-- A new entry of a computation adds it to those that wait. -/
theorem waiting_insert_computation (table : PendingTable) (interest : Interest)
    (id : ComputationId) (now : Nat) :
    (table.insert interest (.computation id) now).2.waiting = table.waiting ++ [id] := by
  simp [waiting, insert, PendingEntry.computations]

/-- A change that leaves the computations of each entry alone leaves alone which wait. -/
theorem waiting_modify (table : PendingTable) (id : PendingId) {change : PendingEntry → PendingEntry}
    (h : ∀ e, (change e).computations = e.computations) :
    (table.modify id change).waiting = table.waiting := by
  rw [waiting, modify, List.flatMap_map, waiting]
  congr 1
  funext e
  split
  · exact h e
  · rfl

private theorem map_modify_of_ne {id : PendingId} {change : PendingEntry → PendingEntry}
    {entries : List PendingEntry} (h : ∀ e ∈ entries, e.id ≠ id) :
    (entries.map fun e => if e.id = id then change e else e) = entries := by
  conv_rhs => rw [← List.map_id entries]
  apply List.map_congr_left
  intro e he
  rw [if_neg (h e he)]
  rfl

private theorem filter_ne_of_ne {id : PendingId} {entries : List PendingEntry}
    (h : ∀ e ∈ entries, e.id ≠ id) : entries.filter (·.id != id) = entries := by
  apply List.filter_eq_self.mpr
  intro e he
  simpa using h e he

/-- A computation that joins an entry waits with those that did before. -/
theorem waiting_addRequester_computation (h : table.WellFormed) {e : PendingEntry}
    (he : e ∈ table.entries) {id : ComputationId} (hid : id ∉ table.waiting) (now : Nat) :
    (table.addRequester e.id (.computation id) none now).2.waiting.Perm (id :: table.waiting) := by
  obtain ⟨before, after, hsplit, hbefore, hafter⟩ := h.split he
  have hnew : id ∉ e.computations := fun hmem => hid (mem_waiting.mpr ⟨e, he, hmem⟩)
  simp only [waiting, addRequester, modify, hsplit, List.map_append, List.map_cons,
    map_modify_of_ne hbefore, map_modify_of_ne hafter, if_true, List.flatMap_append,
    List.flatMap_cons, PendingEntry.computations_join_computation hnew]
  simp only [← List.append_assoc]
  rw [List.append_assoc _ [id], List.singleton_append]
  exact List.perm_middle

/-- The computations of an entry that goes away wait no longer. -/
theorem waiting_erase (h : table.WellFormed) {e : PendingEntry} (he : e ∈ table.entries) :
    table.waiting.Perm (e.computations ++ (table.erase e.id).waiting) := by
  obtain ⟨before, after, hsplit, hbefore, hafter⟩ := h.split he
  have herase : (table.erase e.id).entries = before ++ after := by
    rw [erase, hsplit, List.filter_append, List.filter_cons, filter_ne_of_ne hbefore,
      filter_ne_of_ne hafter]
    simp
  rw [waiting, hsplit, waiting, herase, List.flatMap_append, List.flatMap_append,
    List.flatMap_cons]
  exact List.perm_append_comm_assoc _ _ _

/-- The computations that wait for some data and those that wait on are all that waited. -/
theorem waiting_takeAnswered (table : PendingTable) (content : Content) :
    table.waiting.Perm
      ((table.takeAnswered content).1.flatMap (·.computations) ++
        (table.takeAnswered content).2.waiting) := by
  rw [waiting, waiting, ← List.flatMap_append]
  exact (List.filter_append_perm _ table.entries).symm.flatMap_right _

/-- With a face that goes away no computation does. -/
theorem waiting_dropRequester_face (table : PendingTable) (id : FaceId) :
    (table.dropRequester (.face id)).2.waiting = table.waiting := by
  have hleft : (table.entries.map (·.leave (.face id))).flatMap (·.computations) =
      table.waiting := by
    rw [List.flatMap_map, waiting]
    congr 1
    funext e
    exact e.computations_leave_face id
  rw [← hleft, waiting, dropRequester]
  generalize table.entries.map (·.leave (.face id)) = left
  induction left with
  | nil => rfl
  | cons e left ih =>
    rw [List.filter_cons]
    by_cases he : e.requests.isEmpty = true
    · simp [he, ih, PendingEntry.computations_eq_nil he]
    · simp [he, ih]

end PendingTable

end NamedFunctions
