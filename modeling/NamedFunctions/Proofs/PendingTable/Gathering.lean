import NamedFunctions.Proofs.Packet.Matching
import NamedFunctions.Proofs.PendingTable

/-!
# Interests that ask for the same

The Interests that ask for the same are gathered in one entry: the first of them is the one that is sent
on, the faces that they come from wait, each once, and all their nonces are kept.
-/

namespace NamedFunctions

/-- If all who wait in an entry are faces, these are the faces that wait there. -/
theorem PendingEntry.faces_of_requesters {e : PendingEntry} {ids : List FaceId}
    (h : e.requests.map (·.requester) = ids.map .face) : e.faces = ids := by
  rw [faces]
  generalize e.requests = requests at h
  induction requests generalizing ids with
  | nil => exact (List.map_eq_nil_iff.mp h.symm).symm
  | cons request requests ih =>
    cases ids with
    | nil => cases h
    | cons id ids =>
      obtain ⟨hfirst, hrest⟩ := List.cons_eq_cons.mp h
      simp [hfirst, ih hrest]

/-- Whether an entry has gathered some Interests, which came from faces in this order, and no others. -/
structure PendingEntry.Gathers (e : PendingEntry) (copies : List (FaceId × Interest)) : Prop where
  interest : (copies.head?.map fun a => a.2) = some e.interest
  requesters : e.requests.map (·.requester) = (copies.map (·.1)).eraseDups.map .face
  nonces : e.nonces = copies.filterMap (·.2.nonce)

namespace PendingEntry.Gathers

variable {e : PendingEntry} {copies : List (FaceId × Interest)}

/-- The faces that the Interests came from wait, in the order in which the first of each came. -/
theorem faces (h : e.Gathers copies) : e.faces = (copies.map (·.1)).eraseDups :=
  faces_of_requesters h.requesters

private theorem hasRequester_iff (h : e.Gathers copies) {id : FaceId} :
    e.hasRequester (.face id) = true ↔ id ∈ copies.map (·.1) := by
  rw [hasRequester_face, h.faces, List.mem_eraseDups]

/-- An Interest with a nonce of its own joins those that are there. -/
theorem join (h : e.Gathers copies) (source : FaceId) {interest : Interest} {nonce : UInt32}
    (hnonce : interest.nonce = some nonce) (hnew : nonce ∉ copies.filterMap (·.2.nonce)) (now : Nat) :
    (e.join (.face source) interest.nonce now).Gathers (copies ++ [(source, interest)]) := by
  refine ⟨?_, ?_, ?_⟩
  · rw [List.head?_append, Option.map_or, h.interest]
    rfl
  · rw [List.map_append, List.eraseDups_append, List.map_append, ← h.requesters]
    by_cases hwaits : e.hasRequester (.face source) = true
    · have hsame : (e.join (.face source) interest.nonce now).requests = e.requests := if_pos hwaits
      have hgone : [source].removeAll (copies.map (·.1)) = [] := by
        simpa [List.removeAll] using h.hasRequester_iff.mp hwaits
      rw [hsame, List.map_singleton, hgone, List.eraseDups_nil, List.map_nil, List.append_nil]
    · have hmore : (e.join (.face source) interest.nonce now).requests =
          e.requests ++ [⟨.face source, now⟩] := if_neg hwaits
      have hstays : [source].removeAll (copies.map (·.1)) = [source] := by
        simpa [List.removeAll] using mt h.hasRequester_iff.mpr hwaits
      rw [hmore, List.map_append, List.map_singleton, List.map_singleton, hstays]
      rfl
  · have hkept : e.nonces ++ interest.nonce.toList.filter (· ∉ e.nonces) =
        copies.filterMap (·.2.nonce) ++ [nonce] := by
      rw [h.nonces, hnonce]
      simp [hnew]
    rw [List.filterMap_append]
    refine hkept.trans ?_
    simp [hnonce]

end PendingEntry.Gathers

namespace PendingTable

/-- The entries whose Interests ask for the same as a given one. -/
def asking (table : PendingTable) (interest : Interest) : List PendingEntry :=
  table.entries.filter (·.interest.asksSame interest)

variable {table : PendingTable} {interest other : Interest}

/-- The entries that ask for the same as an Interest are entries of the table. -/
theorem mem_asking {e : PendingEntry} :
    e ∈ table.asking interest ↔ e ∈ table.entries ∧ e.interest.asksSame interest = true :=
  List.mem_filter

/-- The first entry that asks for the same is the one that is found. -/
theorem findSame_eq (h : other.asksSame interest = true) :
    table.findSame other = (table.asking interest).head?.map (·.id) := by
  have hsame : (fun e : PendingEntry => e.interest.asksSame other) =
      fun e => e.interest.asksSame interest :=
    funext fun e => Interest.asksSame_congr h e.interest
  rw [findSame, asking, List.head?_filter, hsame]

/-- An Interest that asks for something else than an entry is not found with those that ask for the same
as that one. -/
theorem WellFormed.id_ne_of_mem_asking (h : table.WellFormed)
    (hother : other.asksSame interest = false) {id : PendingId}
    (hfound : table.findSame other = some id) {e : PendingEntry} (he : e ∈ table.asking interest) :
    e.id ≠ id := by
  rintro rfl
  obtain ⟨found, hmem, hid, hsame⟩ := mem_of_findSame hfound
  obtain ⟨he, hasks⟩ := mem_asking.mp he
  obtain rfl := h.eq_of_id hmem he hid
  obtain ⟨hkey, hselectors⟩ := Interest.asksSame_iff.mp hsame
  obtain ⟨hkey', hselectors'⟩ := Interest.asksSame_iff.mp hasks
  have hsame' := Interest.asksSame_iff.mpr ⟨hkey.symm.trans hkey', hselectors.symm.trans hselectors'⟩
  rw [hother] at hsame'
  cases hsame'

/-- Under a number that no entry asking for the same has, none comes to be as long as these stay as they
are. -/
theorem asksSame_of_get? {table' : PendingTable} (h : table'.asking interest = table.asking interest)
    {id : PendingId} (hid : ∀ e ∈ table.asking interest, e.id ≠ id) {e : PendingEntry}
    (he : table'.get? id = some e) : e.interest.asksSame interest = false := by
  obtain ⟨hmem, hsame⟩ := mem_of_get? he
  by_contra hasks
  have hin : e ∈ table'.asking interest := mem_asking.mpr ⟨hmem, by simpa using hasks⟩
  exact hid e (h ▸ hin) hsame

/-- An Interest that is added is the last of those that ask for the same. -/
theorem asking_insert (table : PendingTable) (interest other : Interest) (requester : Requester)
    (now : Nat) :
    (table.insert other requester now).2.asking interest =
      table.asking interest ++
        if other.asksSame interest then
          [{ id := ⟨table.nextId⟩, interest := other, nonces := other.nonce.toList, lastUsed := now,
             requests := [⟨requester, now⟩] }]
        else [] := by
  rw [asking, insert, List.filter_append, List.filter_singleton, cond_eq_ite]
  rfl

/-- An Interest that is added and taken back leaves those that ask for the same as they were. -/
theorem WellFormed.asking_erase_insert (h : table.WellFormed) (interest other : Interest)
    (requester : Requester) (now : Nat) :
    ((table.insert other requester now).2.erase (table.insert other requester now).1).asking
      interest = table.asking interest := by
  rw [asking, h.entries_erase_insert, asking]

/-- Who joins an entry joins it also among those that ask for the same. -/
theorem asking_addRequester (table : PendingTable) (id : PendingId) (requester : Requester)
    (nonce : Option UInt32) (now : Nat) (interest : Interest) :
    (table.addRequester id requester nonce now).2.asking interest =
      (table.asking interest).map fun e => if e.id = id then e.join requester nonce now else e := by
  rw [asking, addRequester, modify, List.filter_map, asking]
  congr 2
  funext e
  rw [Function.comp_apply]
  split <;> rfl

end PendingTable

/-- An entry that is added for the Interest of a face has gathered that one. -/
theorem PendingEntry.Gathers.single (id : PendingId) (source : FaceId) (interest : Interest)
    (now : Nat) :
    PendingEntry.Gathers
      { id, interest, nonces := interest.nonce.toList, lastUsed := now,
        requests := [⟨.face source, now⟩] }
      [(source, interest)] := by
  refine ⟨rfl, rfl, ?_⟩
  cases h : interest.nonce with
  | none => simp [h]
  | some nonce => simp [h]

end NamedFunctions
