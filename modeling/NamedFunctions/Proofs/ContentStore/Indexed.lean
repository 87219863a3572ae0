import Mathlib.Data.List.Sort
import NamedFunctions.ContentStore.Indexed
import NamedFunctions.Proofs.ContentStore.Change

/-!
# The index agrees with the list

An indexed store stands for the plain one that lists its entries from the newest to the oldest. Its
invariant is that the index has the number of the entry for each key and nothing else, and that numbers
to come are not in use. Under it each operation answers as that of the plain store does, and comes to a
store that stands for what the plain one comes to.
-/

namespace NamedFunctions

namespace IndexedStore

/-- The plain store that an indexed one stands for. -/
def toStore (store : IndexedStore) : ContentStore :=
  { entries := store.newestFirst, capacity := store.capacity }

/-- Whether the index has the number of the entry for each key and nothing else, and numbers to come are
not in use. -/
structure WellFormed (store : IndexedStore) : Prop where
  index : ∀ key (seq : Nat), store.index[key]? = some seq ↔
    ∃ e, store.entries[seq]? = some e ∧ e.content.name.key = key
  below : ∀ (seq : Nat) e, store.entries[seq]? = some e → seq < store.nextSeq

/-- The rows are what the map holds. -/
theorem mem_rows {store : IndexedStore} {seq : Nat} {e : CacheEntry} :
    (seq, e) ∈ store.rows ↔ store.entries[seq]? = some e :=
  Std.TreeMap.mem_toList_iff_getElem?_eq_some

/-- Rows come in the order of their numbers. -/
theorem pairwise_rows (store : IndexedStore) : store.rows.Pairwise fun a b => a.1 < b.1 :=
  store.entries.ordered_keys_toList.imp Nat.compare_eq_lt.mp

/-- Rows are known by what they are and that they are in order. -/
theorem rows_eq {store : IndexedStore} {rows : List (Nat × CacheEntry)}
    (hsorted : rows.Pairwise fun a b => a.1 < b.1)
    (hmem : ∀ (seq : Nat) e, (seq, e) ∈ rows ↔ store.entries[seq]? = some e) : store.rows = rows := by
  have : Std.Antisymm fun a b : Nat × CacheEntry => a.1 < b.1 :=
    ⟨fun _ _ h h' => absurd h' (Nat.lt_asymm h)⟩
  have : Std.Irrefl fun a b : Nat × CacheEntry => a.1 < b.1 := ⟨fun _ => Nat.lt_irrefl _⟩
  exact store.pairwise_rows.eq_of_mem_iff hsorted fun (seq, e) => mem_rows.trans (hmem seq e).symm

/-- There are as many entries in the list as in the map. -/
theorem length_newestFirst (store : IndexedStore) : store.newestFirst.length = store.size := by
  rw [newestFirst, List.length_reverse, List.length_map]
  exact Std.TreeMap.length_toList

/-- The list has the entries that the map holds. -/
theorem mem_newestFirst {store : IndexedStore} {e : CacheEntry} :
    e ∈ store.newestFirst ↔ ∃ seq : Nat, store.entries[seq]? = some e := by
  rw [newestFirst, List.mem_reverse, List.mem_map]
  constructor
  · rintro ⟨⟨seq, e⟩, hmem, rfl⟩
    exact ⟨seq, mem_rows.mp hmem⟩
  · rintro ⟨seq, he⟩
    exact ⟨(seq, e), mem_rows.mpr he, rfl⟩

namespace WellFormed

variable {store : IndexedStore} {seq : Nat} {e : CacheEntry} {name : Name}

/-- The index tells the rows for a name from the others. -/
theorem hasKey_iff (h : store.WellFormed) (hseq : store.index[name.key]? = some seq)
    {row : Nat × CacheEntry} (hrow : row ∈ store.rows) :
    row.2.hasKey name = true ↔ row.1 = seq := by
  rw [CacheEntry.hasKey_iff]
  constructor
  · intro hkey
    have hrow' := (h.index name.key row.1).mpr ⟨row.2, mem_rows.mp hrow, hkey⟩
    exact Option.some.inj (hrow'.symm.trans hseq)
  · rintro rfl
    obtain ⟨e, he, hkey⟩ := (h.index _ _).mp hseq
    obtain rfl : e = row.2 := Option.some.inj (he.symm.trans (mem_rows.mp hrow))
    exact hkey

end WellFormed

section

variable {store : IndexedStore}

/-- A new entry stands under the next number, and the others where they were. -/
theorem getElem?_insert (content : Content) (isStatic : Bool) (now seq : Nat) :
    (store.insert content isStatic now).entries[seq]? =
      if store.nextSeq = seq then some (.fresh content isStatic now) else store.entries[seq]? := by
  simp only [insert, Std.TreeMap.getElem?_insert, Nat.compare_eq_eq]
  rfl

/-- A change is made to the entry of one number. -/
theorem getElem?_modify (seq : Nat) (change : CacheEntry → CacheEntry) (x : Nat) :
    (store.modify seq change).entries[x]? =
      if seq = x then store.entries[x]?.map change else store.entries[x]? := by
  simp only [modify, Std.TreeMap.getElem?_modify, Nat.compare_eq_eq]
  split
  · next h => rw [h]
  · rfl

/-- Removing a number removes its entry and no other. -/
theorem getElem?_remove (seq x : Nat) :
    (store.remove seq).2.entries[x]? = if seq = x then none else store.entries[x]? := by
  unfold remove
  split
  · next hnone =>
    split
    · next h => rw [← h, hnone]
    · rfl
  · simp only [Std.TreeMap.getElem?_erase, Nat.compare_eq_eq]

/-- What is removed is the entry of the number. -/
theorem fst_remove (store : IndexedStore) (seq : Nat) :
    (store.remove seq).1 = store.entries[seq]? := by
  unfold remove
  split
  · next hnone => exact hnone.symm
  · next he => exact he.symm

/-- An entry that is put in is the last row. -/
theorem rows_insert (h : store.WellFormed) (content : Content) (isStatic : Bool) (now : Nat) :
    (store.insert content isStatic now).rows =
      store.rows ++ [(store.nextSeq, .fresh content isStatic now)] := by
  apply rows_eq
  · refine List.pairwise_append.mpr ⟨store.pairwise_rows, List.pairwise_singleton _ _, ?_⟩
    rintro ⟨seq, e⟩ hrow _ hnew
    rw [List.mem_singleton.mp hnew]
    exact h.below seq e (mem_rows.mp hrow)
  · intro seq e
    rw [List.mem_append, List.mem_singleton, mem_rows, getElem?_insert]
    split
    · next heq =>
      have hnew : store.entries[seq]? ≠ some e := fun he =>
        absurd (h.below seq e he) (heq ▸ Nat.lt_irrefl _)
      simp [hnew, heq, eq_comm]
    · next hne => simp [Ne.symm hne]

/-- A change of an entry is made in its row. -/
theorem rows_modify (seq : Nat) (change : CacheEntry → CacheEntry) :
    (store.modify seq change).rows =
      store.rows.map fun row => if row.1 = seq then (row.1, change row.2) else row := by
  apply rows_eq
  · rw [List.pairwise_map]
    refine store.pairwise_rows.imp fun {a b} hlt => ?_
    split <;> split <;> exact hlt
  · intro x e
    rw [List.mem_map, getElem?_modify]
    constructor
    · rintro ⟨⟨y, e'⟩, hrow, heq⟩
      have he' := mem_rows.mp hrow
      dsimp only at heq
      split at heq
      · next h =>
        cases heq
        rw [if_pos h.symm, he']
        rfl
      · next h =>
        cases heq
        rw [if_neg (Ne.symm h), he']
    · split
      · next h =>
        intro he
        obtain ⟨e', he', rfl⟩ := Option.map_eq_some_iff.mp he
        exact ⟨(x, e'), mem_rows.mpr he', by simp [h]⟩
      · next h =>
        intro he
        exact ⟨(x, e), mem_rows.mpr he, by simp [Ne.symm h]⟩

/-- Removing a number drops its row. -/
theorem rows_remove (store : IndexedStore) (seq : Nat) :
    (store.remove seq).2.rows = store.rows.filter (·.1 != seq) := by
  apply rows_eq
  · exact store.pairwise_rows.filter _
  · intro x e
    rw [List.mem_filter, mem_rows, getElem?_remove]
    by_cases h : seq = x
    · simp [h]
    · simp [h, Ne.symm h]

/-- What is removed one after the other is gone in the end. -/
theorem rows_removeAll (store : IndexedStore) (seqs : List Nat) :
    (store.removeAll seqs).2.rows = store.rows.filter (·.1 ∉ seqs) := by
  induction seqs generalizing store with
  | nil => simp [removeAll]
  | cons seq seqs ih =>
    change ((store.remove seq).2.removeAll seqs).2.rows = _
    rw [ih, rows_remove, List.filter_filter]
    congr 1
    funext row
    by_cases h : row.1 = seq
    · simp [h]
    · simp [h]

/-- What is removed one after the other is there until then, if each is named once. -/
theorem fst_removeAll {seqs : List Nat} (hseqs : seqs.Nodup) :
    (store.removeAll seqs).1 = seqs.filterMap fun seq => store.entries[seq]? := by
  induction seqs generalizing store with
  | nil => rfl
  | cons seq seqs ih =>
    obtain ⟨hnotMem, hrest⟩ := List.nodup_cons.mp hseqs
    have hothers : (seqs.filterMap fun x => (store.remove seq).2.entries[x]?) =
        seqs.filterMap fun x => store.entries[x]? := by
      apply List.filterMap_congr
      intro x hx
      rw [getElem?_remove, if_neg fun heq : seq = x => hnotMem (heq ▸ hx)]
    change (store.remove seq).1.toList ++ ((store.remove seq).2.removeAll seqs).1 = _
    rw [ih hrest, hothers, fst_remove, List.filterMap_cons]
    cases store.entries[seq]? <;> rfl

end

namespace WellFormed

variable {store : IndexedStore}

/-- A store without entries is well formed. -/
theorem empty (capacity : Option Nat) : WellFormed { capacity } := by
  constructor
  · intro key seq
    simp
  · intro seq e he
    simp at he

/-- Only an entry for a name that has none may be put in. -/
theorem insert (h : store.WellFormed) {content : Content}
    (hnone : store.index[content.name.key]? = none) (isStatic : Bool) (now : Nat) :
    (store.insert content isStatic now).WellFormed := by
  constructor
  · intro key seq
    have hindex : (store.insert content isStatic now).index[key]? =
        if content.name.key = key then some store.nextSeq else store.index[key]? := by
      simp only [IndexedStore.insert, Std.HashMap.getElem?_insert, beq_iff_eq]
    rw [hindex, getElem?_insert]
    by_cases hkey : content.name.key = key
    · subst hkey
      rw [if_pos rfl, Option.some.injEq]
      constructor
      · rintro rfl
        exact ⟨_, if_pos rfl, rfl⟩
      · rintro ⟨e, he, hsame⟩
        split at he
        · next heq => exact heq
        · have hindexed := (h.index _ _).mpr ⟨e, he, hsame⟩
          rw [hnone] at hindexed
          cases hindexed
    · rw [if_neg hkey, h.index]
      constructor
      · rintro ⟨e, he, hsame⟩
        have hne : store.nextSeq ≠ seq := fun heq => Nat.lt_irrefl _ (heq ▸ h.below seq e he)
        exact ⟨e, (if_neg hne).trans he, hsame⟩
      · rintro ⟨e, he, hsame⟩
        split at he
        · cases he
          exact absurd hsame hkey
        · exact ⟨e, he, hsame⟩
  · intro seq e he
    rw [getElem?_insert] at he
    change seq < store.nextSeq + 1
    split at he
    · next heq => exact heq ▸ Nat.lt_succ_self _
    · exact Nat.lt_succ_of_lt (h.below seq e he)

/-- Entries may be changed where they are, as long as they stay those of their names. -/
theorem of_entries (h : store.WellFormed) {store' : IndexedStore} (hindex : store'.index = store.index)
    (hnext : store'.nextSeq = store.nextSeq) (change : Nat → CacheEntry → CacheEntry)
    (hcontent : ∀ seq e, (change seq e).content = e.content)
    (hentries : ∀ seq : Nat, store'.entries[seq]? = store.entries[seq]?.map (change seq)) :
    store'.WellFormed := by
  constructor
  · intro key seq
    rw [hindex, h.index, hentries]
    constructor
    · rintro ⟨e, he, hkey⟩
      exact ⟨change seq e, by rw [he]; rfl, by rw [hcontent]; exact hkey⟩
    · rintro ⟨e', he', hkey⟩
      obtain ⟨e, he, rfl⟩ := Option.map_eq_some_iff.mp he'
      exact ⟨e, he, by rw [← hcontent seq]; exact hkey⟩
  · intro seq e' he'
    rw [hentries] at he'
    obtain ⟨e, he, rfl⟩ := Option.map_eq_some_iff.mp he'
    rw [hnext]
    exact h.below seq e he

/-- A change that keeps the data keeps a store well formed. -/
theorem modify (h : store.WellFormed) (seq : Nat) {change : CacheEntry → CacheEntry}
    (hcontent : ∀ e, (change e).content = e.content) : (store.modify seq change).WellFormed := by
  refine h.of_entries rfl rfl (fun x e => if seq = x then change e else e) ?_ ?_
  · intro x e
    split
    · exact hcontent e
    · rfl
  · intro x
    rw [getElem?_modify]
    split
    · rfl
    · exact Option.map_id'.symm

/-- Marking entries keeps a store well formed. -/
theorem markExpired (h : store.WellFormed) (now : Nat) (tick : Duration) :
    (store.markExpired now tick).2.WellFormed := by
  refine h.of_entries rfl rfl
    (fun _ e => if e.isExpired now tick then { e with isStale := true } else e) ?_ ?_
  · intro seq e
    split <;> rfl
  · intro seq
    exact Std.TreeMap.getElem?_map

/-- With its entry the number of a key leaves the index. -/
theorem remove (h : store.WellFormed) (seq : Nat) : (store.remove seq).2.WellFormed := by
  cases he : store.entries[seq]? with
  | none =>
    have hsame : (store.remove seq).2 = store := by simp only [IndexedStore.remove, he]
    rw [hsame]
    exact h
  | some e =>
    have hindexed : store.index[e.content.name.key]? = some seq := (h.index _ _).mpr ⟨e, he, rfl⟩
    have hindex (key : Suite × List Bytes × Option UInt32) :
        (store.remove seq).2.index[key]? =
          if e.content.name.key = key then none else store.index[key]? := by
      simp only [IndexedStore.remove, he, Std.HashMap.getElem?_erase, beq_iff_eq]
    have hnext : (store.remove seq).2.nextSeq = store.nextSeq := by
      simp only [IndexedStore.remove, he]
    constructor
    · intro key x
      rw [hindex, getElem?_remove]
      by_cases hx : seq = x
      · subst hx
        rw [if_pos rfl]
        by_cases hkey : e.content.name.key = key
        · simp [hkey]
        · rw [if_neg hkey]
          constructor
          · intro hother
            obtain ⟨e', he', hkey'⟩ := (h.index _ _).mp hother
            obtain rfl : e = e' := Option.some.inj (he.symm.trans he')
            exact absurd hkey' hkey
          · rintro ⟨_, hnone, _⟩
            cases hnone
      · rw [if_neg hx]
        by_cases hkey : e.content.name.key = key
        · subst hkey
          rw [if_pos rfl]
          constructor
          · intro hnone
            cases hnone
          · intro hother
            exact absurd (Option.some.inj (hindexed.symm.trans ((h.index _ _).mpr hother))) hx
        · rw [if_neg hkey]
          exact h.index key x
    · intro x e' he'
      rw [getElem?_remove] at he'
      rw [hnext]
      split at he'
      · cases he'
      · exact h.below x e' he'

/-- Removing entries keeps a store well formed. -/
theorem removeAll (h : store.WellFormed) (seqs : List Nat) :
    (store.removeAll seqs).2.WellFormed := by
  induction seqs generalizing store with
  | nil => exact h
  | cons seq seqs ih => exact ih (h.remove seq)

end WellFormed

section

variable {store : IndexedStore}

/-- The index has no number for a key if no entry has the key. -/
theorem index_eq_none_iff (h : store.WellFormed) {name : Name} :
    store.index[name.key]? = none ↔ ∀ e ∈ store.newestFirst, e.content.name.key ≠ name.key := by
  constructor
  · intro hnone e he hkey
    obtain ⟨seq, he⟩ := mem_newestFirst.mp he
    have hindexed := (h.index _ _).mpr ⟨e, he, hkey⟩
    rw [hnone] at hindexed
    cases hindexed
  · intro hother
    cases hseq : store.index[name.key]? with
    | none => rfl
    | some seq =>
      obtain ⟨e, he, hkey⟩ := (h.index _ _).mp hseq
      exact absurd hkey (hother e (mem_newestFirst.mpr ⟨seq, he⟩))

/-- The list finds under a name what the index leads to. -/
theorem get?_toStore (h : store.WellFormed) (name : Name) :
    store.toStore.get? name = store.get? name := by
  cases hget : store.toStore.get? name with
  | none =>
    rw [get?, (index_eq_none_iff h).mpr (ContentStore.get?_eq_none_iff.mp hget)]
    rfl
  | some e =>
    obtain ⟨hmem, hkey⟩ := ContentStore.mem_of_get? hget
    obtain ⟨seq, he⟩ := mem_newestFirst.mp hmem
    rw [get?, (h.index _ _).mpr ⟨e, he, hkey⟩]
    exact he.symm

/-- The entry for a name is the only one. -/
theorem eq_of_key (h : store.WellFormed) {e e' : CacheEntry} (he : e ∈ store.newestFirst)
    (he' : e' ∈ store.newestFirst) (hkey : e'.content.name.key = e.content.name.key) : e' = e := by
  obtain ⟨seq, he⟩ := mem_newestFirst.mp he
  obtain ⟨seq', he'⟩ := mem_newestFirst.mp he'
  have hseq := (h.index _ _).mpr ⟨e, he, rfl⟩
  have hseq' := (h.index _ _).mpr ⟨e', he', hkey⟩
  obtain rfl : seq = seq' := Option.some.inj (hseq.symm.trans hseq')
  exact Option.some.inj (he'.symm.trans he)

/-- The list contains a name if the index does. -/
theorem contains_toStore (h : store.WellFormed) (name : Name) :
    store.toStore.contains name = store.contains name := by
  rw [contains, Std.HashMap.contains_eq_isSome_getElem?, Bool.eq_iff_iff, ContentStore.contains,
    List.any_eq_true, Option.isSome_iff_ne_none, ne_eq, index_eq_none_iff h]
  simp [CacheEntry.hasKey_iff, toStore]

/-- Numbers are given out once. -/
theorem nodup_numbers (store : IndexedStore) : (store.rows.map (·.1)).Nodup := by
  rw [List.nodup_iff_pairwise_ne, List.pairwise_map]
  exact store.pairwise_rows.imp Nat.ne_of_lt

/-- Rows of one number are the same. -/
theorem eq_of_number {row other : Nat × CacheEntry} (hrow : row ∈ store.rows)
    (hother : other ∈ store.rows) (hseq : row.1 = other.1) : row = other :=
  List.inj_on_of_nodup_map store.nodup_numbers hrow hother hseq

/-- The newest entry stands in the last row. -/
theorem newestFirst_eq_reverse (store : IndexedStore) :
    store.newestFirst = store.rows.reverse.map (·.2) := List.map_reverse.symm

/-- A change of all rows is one of all entries. -/
theorem newestFirst_eq_map {store' : IndexedStore}
    {change : Nat × CacheEntry → Nat × CacheEntry} {update : CacheEntry → CacheEntry}
    (hrows : store'.rows = store.rows.map change)
    (hchange : ∀ row ∈ store.rows, (change row).2 = update row.2) :
    store'.newestFirst = store.newestFirst.map update := by
  rw [newestFirst, newestFirst, hrows, List.map_map, List.map_reverse, List.map_map]
  exact congrArg List.reverse (List.map_congr_left hchange)

/-- Dropping rows drops their entries. -/
theorem newestFirst_eq_filter {store' : IndexedStore} {kept : Nat × CacheEntry → Bool}
    {keep : CacheEntry → Bool} (hrows : store'.rows = store.rows.filter kept)
    (hkept : ∀ row ∈ store.rows, kept row = keep row.2) :
    store'.newestFirst = store.newestFirst.filter keep := by
  rw [newestFirst, newestFirst, hrows, List.filter_congr hkept, List.filter_reverse, List.filter_map]
  rfl

/-- A new entry comes first. -/
theorem newestFirst_insert (h : store.WellFormed) (content : Content) (isStatic : Bool) (now : Nat) :
    (store.insert content isStatic now).newestFirst =
      .fresh content isStatic now :: store.newestFirst := by
  rw [newestFirst, rows_insert h, List.map_append, List.reverse_append]
  rfl

/-- A change of one row is one of all entries that leaves the others. -/
theorem newestFirst_modify {seq : Nat} {change update : CacheEntry → CacheEntry}
    (hchange : ∀ row ∈ store.rows, (if row.1 = seq then change row.2 else row.2) = update row.2) :
    (store.modify seq change).newestFirst = store.newestFirst.map update := by
  refine newestFirst_eq_map (rows_modify seq change) fun row hrow => ?_
  rw [← hchange row hrow]
  split <;> rfl

/-- A row is removed with those that are like it. -/
theorem newestFirst_removeAll (store : IndexedStore) (gone : CacheEntry → Bool) :
    (store.removeAll ((store.rows.filter (gone ·.2)).map (·.1))).2.newestFirst =
      store.newestFirst.filter (!gone ·) := by
  refine newestFirst_eq_filter (store.rows_removeAll _) fun row hrow => ?_
  rw [Bool.eq_iff_iff, decide_eq_true_eq, Bool.not_eq_true', ← Bool.not_eq_true, not_iff_not,
    List.mem_map]
  constructor
  · rintro ⟨other, hother, hseq⟩
    obtain ⟨hother, hgone⟩ := List.mem_filter.mp hother
    rw [← eq_of_number hother hrow hseq]
    exact hgone
  · intro hgone
    exact ⟨row, List.mem_filter.mpr ⟨hrow, hgone⟩, rfl⟩

/-- Removing entries leaves the capacity. -/
theorem removeAll_capacity (store : IndexedStore) (seqs : List Nat) :
    (store.removeAll seqs).2.capacity = store.capacity := by
  induction seqs generalizing store with
  | nil => rfl
  | cons seq seqs ih =>
    refine (ih (store.remove seq).2).trans ?_
    unfold remove
    split <;> rfl

end

end IndexedStore

end NamedFunctions
