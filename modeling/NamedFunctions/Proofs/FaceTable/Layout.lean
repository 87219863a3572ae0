import Mathlib.Data.List.Nodup
import NamedFunctions.Proofs.FaceTable

/-!
# Where faces lead

Which faces there are, and to whom they lead, is the layout of a table; what is queued on the faces, and
when they were used, is not. In a well-formed table a peer has one face on an interface at most. As long as
the numbers of faces have not come round, the number of a face that is gone does not come back.
-/

namespace NamedFunctions

private theorem Peer.same_comm (a b : Peer) : a.same b = b.same a := by
  cases a <;> cases b <;> simp only [same, Bool.beq_comm]

namespace FaceTable

/-- The numbers of all faces. -/
def ids (table : FaceTable) : List FaceId := table.faces.map (·.id)

/-- Where the face with a number leads: its interface and its peer. -/
def placeOf (table : FaceTable) (id : FaceId) : Option (Nat × Peer) :=
  (table.get? id).map fun face => (face.interface, face.peer)

/-- The numbers of all faces, the next number, and where faces lead. -/
def layout (table : FaceTable) : List FaceId × UInt32 × (FaceId → Option (Nat × Peer)) :=
  (table.ids, table.nextId, table.placeOf)

variable {table table' : FaceTable}

/-- A table contains the numbers of its faces. -/
theorem contains_iff {id : FaceId} : table.contains id = true ↔ id ∈ table.ids := by
  simp [contains, ids]

/-- A face is found under its number where numbers are distinct. -/
theorem get?_eq_some_of_mem (h : table.ids.Nodup) {face : Face} (hface : face ∈ table.faces) :
    table.get? face.id = some face := by
  cases hg : table.get? face.id with
  | none =>
    have := List.find?_eq_none.mp hg face hface
    simp at this
  | some face' =>
    have hid := id_of_get? hg
    rw [List.inj_on_of_nodup_map h (List.mem_of_find?_eq_some hg) hface hid]

/-- Faces that stay where they are may change otherwise. -/
theorem layout_map {change : Face → Face} (hid : ∀ face, (change face).id = face.id)
    (hplace : ∀ face, ((change face).interface, (change face).peer) = (face.interface, face.peer)) :
    layout { table with faces := table.faces.map change } = table.layout := by
  have hids : ids { table with faces := table.faces.map change } = table.ids := by
    rw [ids, List.map_map]
    exact List.map_congr_left fun face _ => hid face
  have hplaces : placeOf { table with faces := table.faces.map change } = table.placeOf := by
    funext id
    have hkey : ((·.id == id) ∘ change) = fun face : Face => face.id == id := by
      funext face
      rw [Function.comp_apply, hid]
    rw [placeOf, get?, List.find?_map, hkey, Option.map_map]
    exact congrArg (fun f => Option.map f (table.get? id)) (funext hplace)
  rw [layout, hids, hplaces]
  rfl

/-- A face may be put in the place of another one with its number that leads to the same peer. -/
theorem layout_modify_const {id : FaceId} {face face' : Face} (h : table.get? id = some face)
    (hid : face'.id = id)
    (hplace : (face'.interface, face'.peer) = (face.interface, face.peer)) :
    (table.modify id fun _ => face').layout = table.layout := by
  have hids : (table.modify id fun _ => face').ids = table.ids := by
    rw [ids, modify, List.map_map]
    apply List.map_congr_left
    intro f _
    rw [Function.comp_apply]
    split
    · next hf => rw [hid, hf]
    · rfl
  have hplaces : (table.modify id fun _ => face').placeOf = table.placeOf := by
    funext x
    rw [placeOf, get?_modify_const h hid, placeOf]
    split
    · next hx => rw [hx, h, Option.map_some, Option.map_some, hplace]
    · rfl
  rw [layout, hids, hplaces]
  rfl

private theorem layout_modify {change : Face → Face} (hid : ∀ face, (change face).id = face.id)
    (hplace : ∀ face, ((change face).interface, (change face).peer) = (face.interface, face.peer))
    (id : FaceId) : (table.modify id change).layout = table.layout := by
  apply layout_map
  · intro face
    split
    · exact hid face
    · rfl
  · intro face
    split
    · exact hplace face
    · rfl

/-- Setting flags leaves the layout. -/
theorem layout_setFlags (id : FaceId) (flags : FaceFlags) :
    (table.modify id fun face => { face with flags }).layout = table.layout := by
  apply layout_modify
  · exact fun _ => rfl
  · exact fun _ => rfl

/-- Noting that a face was used leaves the layout. -/
theorem layout_touch (id : FaceId) (now : Nat) : (table.touch id now).layout = table.layout := by
  unfold touch
  apply layout_modify
  · exact fun _ => rfl
  · exact fun _ => rfl

/-- Marking a face leaves the layout. -/
theorem layout_markServed (id : FaceId) : (table.markServed id).layout = table.layout := by
  unfold markServed
  apply layout_modify
  · exact fun _ => rfl
  · exact fun _ => rfl

/-- Taking the marks leaves the layout. -/
theorem layout_clearServed : table.clearServed.layout = table.layout := by
  unfold clearServed
  apply layout_map
  · exact fun _ => rfl
  · exact fun _ => rfl

/-- Taking packets leaves the layout. -/
theorem layout_popReady (now : Nat) : (table.popReady now).2.layout = table.layout := by
  have hfaces : (table.popReady now).2 =
      { table with faces := table.faces.map fun face => (face.popReady now).2 } := by
    rw [popReady, List.map_map]
    rfl
  rw [hfaces]
  apply layout_map
  · intro face
    rcases face.popReady_cases now with heq | ⟨_, _, -, -, heq⟩
    · rw [heq]
    · rw [heq]
  · intro face
    rcases face.popReady_cases now with heq | ⟨_, _, -, -, heq⟩
    · rw [heq]
    · rw [heq]

/-- Whether no two faces have the same number, or lead to the same peer through the same interface. -/
structure WellFormed (table : FaceTable) : Prop where
  nodup : table.ids.Nodup
  distinct : ∀ id id' interface peer peer', table.placeOf id = some (interface, peer) →
    table.placeOf id' = some (interface, peer') → peer.same peer' = true → id = id'

/-- A table without faces is well formed. -/
theorem WellFormed.empty (queueCapacity interval : Nat) :
    WellFormed { queueCapacity, interval } :=
  ⟨List.nodup_nil, fun _ _ _ _ _ h => by cases h⟩

/-- Whether a table is well formed is a matter of its layout. -/
theorem WellFormed.of_layout (h : table.WellFormed) (hlayout : table'.layout = table.layout) :
    table'.WellFormed := by
  simp only [layout, Prod.mk.injEq] at hlayout
  obtain ⟨hids, -, hplaces⟩ := hlayout
  exact ⟨hids ▸ h.nodup, hplaces ▸ h.distinct⟩

/-- A table has one face for an interface and a peer. -/
theorem WellFormed.eq_of_same (h : table.WellFormed) {face face' : Face} (hface : face ∈ table.faces)
    (hface' : face' ∈ table.faces) (hinterface : face.interface = face'.interface)
    (hpeer : face.peer.same face'.peer = true) : face = face' := by
  have hget := get?_eq_some_of_mem h.nodup hface
  have hget' := get?_eq_some_of_mem h.nodup hface'
  have hplace : table.placeOf face.id = some (face'.interface, face.peer) := by
    rw [placeOf, hget, Option.map_some, hinterface]
  have hplace' : table.placeOf face'.id = some (face'.interface, face'.peer) := by
    rw [placeOf, hget', Option.map_some]
  have hid := h.distinct _ _ _ _ _ hplace hplace' hpeer
  rw [hid, hget'] at hget
  exact (Option.some.inj hget).symm

/-- Erasing a face keeps a table well formed. -/
theorem WellFormed.erase (h : table.WellFormed) (id : FaceId) : (table.erase id).WellFormed := by
  have hsub : (table.erase id).ids.Sublist table.ids := List.filter_sublist.map _
  have hplace {x : FaceId} {place : Nat × Peer} (hx : (table.erase id).placeOf x = some place) :
      table.placeOf x = some place := by
    rw [placeOf, get?_erase] at hx
    split at hx
    · cases hx
    · exact hx
  refine ⟨hsub.nodup h.nodup, ?_⟩
  intro x x' interface peer peer' hx hx'
  exact h.distinct x x' interface peer peer' (hplace hx) (hplace hx')

private theorem ids_put (table : FaceTable) (face : Face) :
    (table.put face).ids =
      table.ids.filter (·.val < face.id.val) ++ face.id :: table.ids.filter (face.id.val < ·.val) := by
  simp only [ids, put, List.map_append, List.map_cons, List.filter_map]
  rfl

private theorem mem_ids_put {face : Face} {id : FaceId} (h : id ∈ (table.put face).ids) :
    id ∈ table.ids ∨ id = face.id := by
  obtain ⟨f, hf, rfl⟩ := List.mem_map.mp h
  rcases mem_put hf with hf | rfl
  · exact .inl (List.mem_map_of_mem hf)
  · exact .inr rfl

private theorem nodup_ids_put (h : table.ids.Nodup) (face : Face) : (table.put face).ids.Nodup := by
  rw [ids_put, List.nodup_append]
  refine ⟨h.filter _, List.nodup_cons.mpr ⟨fun hself => ?_, h.filter _⟩, fun id hid id' hid' heq => ?_⟩
  · simpa using List.of_mem_filter hself
  · have hbefore : id.val < face.id.val := by simpa using List.of_mem_filter hid
    subst heq
    rcases List.mem_cons.mp hid' with rfl | hafter
    · exact UInt32.lt_irrefl _ hbefore
    · have hafter : face.id.val < id.val := by simpa using List.of_mem_filter hafter
      exact UInt32.lt_irrefl _ (UInt32.lt_trans hbefore hafter)

/-- A face that is added leads to its peer; the others lead where they did. -/
theorem placeOf_add (table : FaceTable) (interface : Nat) (peer : Peer) (flags : FaceFlags)
    (now : Nat) (id : FaceId) :
    (table.add interface peer flags now).2.placeOf id =
      if id = ⟨table.nextId⟩ then some (interface, peer) else table.placeOf id := by
  rw [placeOf, get?_add, placeOf]
  split <;> rfl

/-- Adding a face for a new peer keeps a table well formed. -/
theorem WellFormed.add (h : table.WellFormed) {interface : Nat} {peer : Peer}
    (hnew : table.find? interface peer = none) (flags : FaceFlags) (now : Nat) :
    (table.add interface peer flags now).2.WellFormed := by
  have hfree {id : FaceId} {peer' : Peer} (hplace : table.placeOf id = some (interface, peer')) :
      peer'.same peer = false := by
    obtain ⟨face, hf, heq⟩ := Option.map_eq_some_iff.mp hplace
    have hother := List.find?_eq_none.mp (Option.map_eq_none_iff.mp hnew) face
      (List.mem_of_find?_eq_some hf)
    cases heq
    simpa using hother
  refine ⟨nodup_ids_put h.nodup _, ?_⟩
  intro id id' i p p' hplace hplace' hsame
  rw [placeOf_add] at hplace hplace'
  split at hplace
  · next hid =>
    split at hplace'
    · next hid' => rw [hid, hid']
    · cases hplace
      rw [Peer.same_comm, hfree hplace'] at hsame
      cases hsame
  · split at hplace'
    · cases hplace'
      rw [hfree hplace] at hsame
      cases hsame
    · exact h.distinct id id' i p p' hplace hplace' hsame

/-- The face of a peer may be added if it is not there. -/
theorem WellFormed.getOrCreate (h : table.WellFormed) (interface : Nat) (peer : Peer) (now : Nat) :
    (table.getOrCreate interface peer now).2.WellFormed := by
  unfold FaceTable.getOrCreate
  split
  · exact h
  · next hnew => exact h.add hnew {} now

/-- Creating a face keeps a table well formed. -/
theorem WellFormed.create (h : table.WellFormed) (interface : Nat) (peer : Peer) (flags : FaceFlags)
    (now : Nat) : (table.create interface peer flags now).2.WellFormed := by
  unfold FaceTable.create
  split
  · next id _ => exact h.of_layout (layout_setFlags id flags)
  · next hnew => exact h.add hnew flags now

/-- Whether a number was given to a face on the way from a table to another one, if one face was added at
most. A face that had the number is there no more. -/
def Gives (table table' : FaceTable) (id : FaceId) : Prop :=
  id.val = table.nextId ∧ table'.nextId ≠ table.nextId

/-- Adding a face gives the next number. -/
theorem gives_add {interface : Nat} {peer : Peer} {flags : FaceFlags} {now : Nat} {id : FaceId} :
    table.Gives (table.add interface peer flags now).2 id ↔ id = ⟨table.nextId⟩ := by
  have hnext : (table.add interface peer flags now).2.nextId ≠ table.nextId := by simp [FaceTable.add]
  constructor
  · exact fun h => congrArg FaceId.mk h.1
  · rintro rfl
    exact ⟨rfl, hnext⟩

/-- Whether all numbers in use are below the one that is given next, as they are until numbers come round. -/
def Ascending (table : FaceTable) : Prop := ∀ id ∈ table.ids, id.val < table.nextId

/-- Whether the faces of a table are faces of an earlier one, but for some with numbers that were given in
between, without numbers coming round. -/
structure Later (table table' : FaceTable) : Prop where
  nextId : table.nextId ≤ table'.nextId
  ids : ∀ id ∈ table'.ids, id ∈ table.ids ∨ table.nextId ≤ id.val ∧ id.val < table'.nextId

namespace Later

/-- A table with the same layout is a later one. -/
theorem of_layout (hlayout : table'.layout = table.layout) : table.Later table' := by
  simp only [layout, Prod.mk.injEq] at hlayout
  obtain ⟨hids, hnext, -⟩ := hlayout
  exact ⟨hnext ▸ UInt32.le_refl _, fun id hid => .inl (hids ▸ hid)⟩

/-- A table is later than itself. -/
protected theorem refl (table : FaceTable) : table.Later table := .of_layout rfl

/-- What comes later than a later table is later. -/
theorem trans {table'' : FaceTable} (h : table.Later table') (h' : table'.Later table'') :
    table.Later table'' := by
  refine ⟨UInt32.le_trans h.nextId h'.nextId, fun id hid => ?_⟩
  rcases h'.ids id hid with hid | ⟨hnew, hbelow⟩
  · exact (h.ids id hid).imp_right fun hnew => ⟨hnew.1, UInt32.lt_of_lt_of_le hnew.2 h'.nextId⟩
  · exact .inr ⟨UInt32.le_trans h.nextId hnew, hbelow⟩

private theorem add {interface : Nat} {peer : Peer} {flags : FaceFlags} {now : Nat}
    (h : table.nextId ≤ (table.add interface peer flags now).2.nextId) :
    table.Later (table.add interface peer flags now).2 := by
  have hstep : table.nextId < table.nextId + 1 :=
    UInt32.lt_of_le_of_ne h fun heq => by simp at heq
  refine ⟨h, fun id hid => (mem_ids_put hid).imp_right ?_⟩
  rintro rfl
  exact ⟨UInt32.le_refl _, hstep⟩

/-- Looking for a face leads to a later table as long as numbers have not come round. -/
theorem getOrCreate {interface : Nat} {peer : Peer} {now : Nat}
    (h : table.nextId ≤ (table.getOrCreate interface peer now).2.nextId) :
    table.Later (table.getOrCreate interface peer now).2 := by
  unfold FaceTable.getOrCreate at h ⊢
  split
  · exact .refl table
  · next hnew =>
    rw [hnew] at h
    exact .add h

/-- Creating a face leads to a later table as long as numbers have not come round. -/
theorem create {interface : Nat} {peer : Peer} {flags : FaceFlags} {now : Nat}
    (h : table.nextId ≤ (table.create interface peer flags now).2.nextId) :
    table.Later (table.create interface peer flags now).2 := by
  unfold FaceTable.create at h ⊢
  split
  · next id _ => exact .of_layout (layout_setFlags id flags)
  · next hnew =>
    rw [hnew] at h
    exact .add h

/-- Erasing a face leads to a later table. -/
theorem erase (table : FaceTable) (id : FaceId) : table.Later (table.erase id) :=
  ⟨UInt32.le_refl _, fun _ hid => .inl ((List.filter_sublist.map _).subset hid)⟩

/-- The numbers in use stay below the next one. -/
theorem ascending (h : table.Later table') (htable : table.Ascending) : table'.Ascending := by
  intro id hid
  rcases h.ids id hid with hid | hnew
  · exact UInt32.lt_of_lt_of_le (htable id hid) h.nextId
  · exact hnew.2

/-- A face that was there once and is gone does not come back. -/
theorem not_contains {table'' : FaceTable} (h : table'.Later table'') (htable : table.Ascending)
    (hnext : table.nextId ≤ table'.nextId) {id : FaceId} (honce : table.contains id = true)
    (hgone : table'.contains id = false) : table''.contains id = false := by
  rw [contains_iff] at honce
  rw [Bool.eq_false_iff, Ne, contains_iff] at hgone ⊢
  intro hback
  have hbelow := htable id honce
  rcases h.ids id hback with hback | ⟨hnew, -⟩
  · exact hgone hback
  · exact UInt32.not_le.mpr hbelow (UInt32.le_trans hnext hnew)

end Later

private theorem contains_of_find? {interface : Nat} {peer : Peer} {id : FaceId}
    (h : table.find? interface peer = some id) : table.contains id = true := by
  obtain ⟨face, hf, rfl⟩ := Option.map_eq_some_iff.mp h
  exact contains_iff.mpr (List.mem_map_of_mem (List.mem_of_find?_eq_some hf))

private theorem contains_add (table : FaceTable) (interface : Nat) (peer : Peer) (flags : FaceFlags)
    (now : Nat) : (table.add interface peer flags now).2.contains
      (table.add interface peer flags now).1 = true := by
  have hget := table.get?_add interface peer flags now ⟨table.nextId⟩
  rw [if_pos rfl] at hget
  exact (contains_eq_isSome _ _).trans (congrArg Option.isSome hget)

/-- The face that a peer is given is there. -/
theorem contains_getOrCreate (table : FaceTable) (interface : Nat) (peer : Peer) (now : Nat) :
    (table.getOrCreate interface peer now).2.contains
      (table.getOrCreate interface peer now).1 = true := by
  unfold getOrCreate
  split
  · next hfind => exact contains_of_find? hfind
  · exact table.contains_add interface peer {} now

/-- The face that is created is in the table. -/
theorem contains_create (table : FaceTable) (interface : Nat) (peer : Peer) (flags : FaceFlags)
    (now : Nat) : (table.create interface peer flags now).2.contains
      (table.create interface peer flags now).1 = true := by
  unfold create
  split
  · next id hfind =>
    have hlayout : (table.modify id fun face => { face with flags }).ids = table.ids :=
      congrArg Prod.fst (layout_setFlags id flags)
    have hmem := contains_iff.mp (contains_of_find? hfind)
    dsimp only
    rw [contains_iff, hlayout]
    exact hmem
  · exact table.contains_add interface peer flags now

end FaceTable

end NamedFunctions
