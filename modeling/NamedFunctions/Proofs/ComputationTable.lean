import Mathlib.Data.List.Nodup
import Mathlib.Data.List.Perm.Subperm
import NamedFunctions.Computation

/-!
# Tables of suspended computations

Which computations are suspended after each operation, by their numbers.
-/

open scoped List

namespace NamedFunctions

namespace Computation

/-- A computation that stops for data waits for the name that it stops for, under its own number. -/
theorem awaiting_of_drive {limit : Nat} {c c' : Computation} {name : Name}
    (h : c.drive limit = .ok (.suspended c' name)) :
    c'.id = c.id ∧ c'.awaiting = some name := by
  unfold drive at h
  split at h
  · cases h
  · cases h
  · split at h
    · cases h
    · cases h
      exact ⟨rfl, rfl⟩

/-- A computation that waits after it was resumed has kept its number, and waits for the name. -/
theorem awaiting_of_resume {limit : Nat} {c c' : Computation} {payload : Bytes} {name : Name}
    (h : c.resume limit payload = .ok (.suspended c' name)) :
    c'.id = c.id ∧ c'.awaiting = some name := by
  unfold resume at h
  split at h
  · cases h
  · have hd := awaiting_of_drive h
    exact hd

end Computation

namespace ComputationTable

/-- The numbers of the suspended computations. -/
def ids (table : ComputationTable) : List ComputationId := table.suspended.map (·.id)

variable {table : ComputationTable}

/-- The numbers are those of the computations that wait. -/
theorem mem_ids {id : ComputationId} :
    id ∈ table.ids ↔ ∃ c ∈ table.suspended, c.id = id := List.mem_map

/-- A computation that is found is in the table under its number. -/
theorem mem_of_get? {id : ComputationId} {c : Computation} (h : table.get? id = some c) :
    c ∈ table.suspended ∧ c.id = id :=
  ⟨List.mem_of_find?_eq_some h, by simpa using List.find?_some h⟩

/-- A number is in use exactly if a computation is found by it. -/
theorem exists_get?_iff {id : ComputationId} : (∃ c, table.get? id = some c) ↔ id ∈ table.ids := by
  constructor
  · rintro ⟨c, hc⟩
    exact mem_ids.mpr ⟨c, mem_of_get? hc⟩
  · intro hid
    obtain ⟨c, hc, hcid⟩ := mem_ids.mp hid
    cases hg : table.get? id with
    | some c' => exact ⟨c', rfl⟩
    | none =>
      have := List.find?_eq_none.mp hg c hc
      simp [hcid] at this

/-- A computation whose number is not in use is one more that is suspended. -/
theorem suspended_insert {c : Computation} (h : c.id ∉ table.ids) :
    (table.insert c).suspended.Perm (c :: table.suspended) := by
  have hne : ∀ x ∈ table.suspended, x.id.val ≠ c.id.val := by
    intro x hx hv
    apply h
    refine mem_ids.mpr ⟨x, hx, ?_⟩
    cases hxi : x.id
    cases hci : c.id
    simpa [hxi, hci] using hv
  have habove : table.suspended.filter (c.id.val < ·.id.val) =
      table.suspended.filter fun x => !decide (x.id.val < c.id.val) := by
    apply List.filter_congr
    intro x hx
    have := hne x hx
    simp only [← decide_not, decide_eq_decide]
    omega
  rw [insert]
  dsimp only
  rw [habove]
  exact List.perm_middle.trans ((List.filter_append_perm _ _).cons c)

/-- A computation that is put in adds its number. -/
theorem ids_insert {c : Computation} (h : c.id ∉ table.ids) :
    (table.insert c).ids.Perm (c.id :: table.ids) := (suspended_insert h).map _

/-- Taking a computation out takes out its number. -/
theorem ids_erase (table : ComputationTable) (id : ComputationId) :
    (table.erase id).ids = table.ids.filter (· != id) := by
  rw [ids, ids, erase, List.filter_map]
  rfl

/-- A computation is created under the next number, which is given out. -/
theorem eq_of_create {table' : ComputationTable} {interest : Interest} {c : Computation}
    (h : table.create interest = .ok (c, table')) :
    c.id = ⟨table.nextId⟩ ∧ table' = { table with nextId := table.nextId + 1 } := by
  unfold create at h
  cases he : Computation.expression interest with
  | error error =>
    rw [he] at h
    cases h
  | ok term =>
    rw [he] at h
    cases h
    exact ⟨rfl, rfl⟩

/-- No number comes to be in use but that of the computation that is put in its place. -/
theorem subperm_ids_insert (c : Computation) : (table.insert c).ids <+~ c.id :: table.ids := by
  have habove : table.suspended.filter (c.id.val < ·.id.val) <+
      table.suspended.filter fun x => !decide (x.id.val < c.id.val) := by
    apply List.monotone_filter_right
    intro x hx
    rw [decide_eq_true_eq] at hx
    simpa using Nat.le_of_lt hx
  have hothers : (table.suspended.filter (·.id.val < c.id.val) ++
      table.suspended.filter (c.id.val < ·.id.val)) <+~ table.suspended :=
    (List.filter_append_perm _ _).subperm_left.mp (habove.append_left _).subperm
  have hsuspended : (table.insert c).suspended <+~ c :: table.suspended :=
    List.perm_middle.symm.subperm_right.mp ((List.subperm_cons c).mpr hothers)
  obtain ⟨cs, hperm, hsub⟩ := hsuspended
  exact ⟨cs.map (·.id), hperm.map _, hsub.map _⟩

/-- A number that is in use no longer is once its computation is removed. -/
theorem subperm_ids_erase {id : ComputationId} (hid : id ∈ table.ids) :
    id :: (table.erase id).ids <+~ table.ids := by
  rw [ids_erase]
  apply List.cons_subperm_of_not_mem_of_mem
  · simp
  · exact hid
  · exact List.filter_sublist.subperm

/-- There are as many numbers as computations. -/
theorem length_ids (table : ComputationTable) : table.ids.length = table.size := List.length_map _

/-- A computation that is put in is one more. -/
theorem size_insert {c : Computation} (h : c.id ∉ table.ids) :
    (table.insert c).size = table.size + 1 := (suspended_insert h).length_eq

/-- A number that is in use is used once. -/
theorem size_erase_of_mem (hnodup : table.ids.Nodup) {id : ComputationId} (hid : id ∈ table.ids) :
    (table.erase id).size + 1 = table.size := by
  rw [← length_ids, ids_erase, ← hnodup.erase_eq_filter, ← length_ids]
  exact List.length_erase_add_one hid

private theorem erase_of_not_mem {id : ComputationId} (hid : id ∉ table.ids) : table.erase id = table := by
  have hkept : table.suspended.filter (·.id != id) = table.suspended := by
    apply List.filter_eq_self.mpr
    intro c hc
    rw [bne_iff_ne]
    exact fun heq => hid (mem_ids.mpr ⟨c, hc, heq⟩)
  rw [erase, hkept]

/-- A table contains the numbers that are in use. -/
theorem contains_iff {id : ComputationId} : table.contains id = true ↔ id ∈ table.ids := by
  rw [contains, Option.isSome_iff_exists]
  exact exists_get?_iff

/-- A computation is discarded if there is one, and then there is one less. -/
theorem size_discard (hnodup : table.ids.Nodup) (id : ComputationId) :
    (if (table.discard id).1 then 1 else 0) + (table.discard id).2.size = table.size := by
  rw [discard]
  dsimp only
  split
  · next h =>
    have := size_erase_of_mem hnodup (contains_iff.mp h)
    omega
  · next h =>
    rw [erase_of_not_mem (mt contains_iff.mpr h)]
    exact Nat.zero_add _

/-- Discard a computation, and count it if there is one. -/
def discardCounting (counted : Nat × ComputationTable) (id : ComputationId) :
    Nat × ComputationTable :=
  (if (counted.2.discard id).1 then counted.1 + 1 else counted.1, (counted.2.discard id).2)

/-- Discarding computations one after the other takes them all out. -/
theorem suspended_foldl_discardCounting (ids : List ComputationId)
    (counted : Nat × ComputationTable) :
    (ids.foldl discardCounting counted).2 =
      { counted.2 with suspended := counted.2.suspended.filter (·.id ∉ ids) } := by
  induction ids generalizing counted with
  | nil => simp
  | cons id ids ih =>
    have hkept : (fun c : Computation => decide (c.id ∉ ids) && c.id != id) =
        fun c => decide (c.id ∉ id :: ids) := by
      funext c
      simp only [List.mem_cons, not_or, Bool.decide_and, bne, beq_eq_decide, decide_not,
        Bool.and_comm]
    rw [List.foldl_cons, ih, discardCounting, discard, erase]
    dsimp only
    rw [List.filter_filter, hkept]

/-- Computations that are discarded are counted, each once. -/
theorem size_foldl_discardCounting (ids : List ComputationId) {counted : Nat × ComputationTable}
    (hnodup : counted.2.ids.Nodup) :
    (ids.foldl discardCounting counted).1 + (ids.foldl discardCounting counted).2.size =
        counted.1 + counted.2.size ∧
      (ids.foldl discardCounting counted).2.ids.Nodup := by
  induction ids generalizing counted with
  | nil => exact ⟨rfl, hnodup⟩
  | cons id ids ih =>
    have hsize := size_discard hnodup id
    have hrest : (discardCounting counted id).2.ids.Nodup := by
      rw [discardCounting, discard, ids_erase]
      exact hnodup.filter _
    obtain ⟨hsum, hids⟩ := ih hrest
    refine ⟨hsum.trans ?_, hids⟩
    rw [discardCounting]
    dsimp only
    split
    · next hfound =>
      rw [if_pos hfound] at hsize
      omega
    · next hfound =>
      rw [if_neg hfound] at hsize
      omega

end ComputationTable

end NamedFunctions
