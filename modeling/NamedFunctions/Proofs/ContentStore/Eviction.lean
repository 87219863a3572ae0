import Mathlib.Data.List.Sort
import Mathlib.Data.Prod.Lex
import NamedFunctions.Proofs.ContentStore.Refinement

/-!
# Which entries make room

The entries that are not static make room in the order of their last use, and of their numbers where this
was at the same tick. A full store drops the first of them for new data. A store that is bounded drops as
many of them as there are entries too many, although it looks for each one in what is left without those
before.
-/

namespace NamedFunctions

namespace IndexedStore

open ContentStore (Change)

/-- When a row was used, before another one at the same tick if it was put in before. -/
def lastUse (row : Nat × CacheEntry) : Nat ×ₗ Nat := toLex (row.2.lastUsed, row.1)

private theorem yields_iff {row other : Nat × CacheEntry} :
    yields row other = true ↔ lastUse row < lastUse other := by
  simp [yields, lastUse, Prod.Lex.toLex_lt_toLex]

/-- Rows from that which was used longest ago to that which was used last. -/
def sortByUse (rows : List (Nat × CacheEntry)) : List (Nat × CacheEntry) :=
  rows.insertionSort fun row other => lastUse row ≤ lastUse other

/-- The rows that may be removed, in the order in which they make room. -/
def byUse (store : IndexedStore) : List (Nat × CacheEntry) :=
  sortByUse (store.rows.filter (!·.2.isStatic))

section

variable {rows : List (Nat × CacheEntry)}

private theorem pairwise_sortByUse (rows : List (Nat × CacheEntry)) :
    (sortByUse rows).Pairwise fun row other => lastUse row ≤ lastUse other := by
  have : Std.Total fun row other : Nat × CacheEntry => lastUse row ≤ lastUse other :=
    ⟨fun _ _ => le_total _ _⟩
  have : IsTrans (Nat × CacheEntry) fun row other => lastUse row ≤ lastUse other :=
    ⟨fun _ _ _ => le_trans⟩
  exact List.pairwise_insertionSort _ rows

private theorem perm_sortByUse (rows : List (Nat × CacheEntry)) : (sortByUse rows).Perm rows :=
  List.perm_insertionSort _ rows

private theorem number_eq_of_lastUse {row other : Nat × CacheEntry} (h : lastUse row = lastUse other) :
    row.1 = other.1 :=
  congrArg (fun use => (ofLex use).2) h

/-- Rows with different numbers are in one order only. -/
theorem eq_of_sorted {sorted : List (Nat × CacheEntry)} (hnumbers : (rows.map (·.1)).Nodup)
    (hsorted : sorted.Pairwise fun row other => lastUse row ≤ lastUse other)
    (hperm : sorted.Perm rows) : sorted = sortByUse rows := by
  refine List.Perm.eq_of_pairwise ?_ hsorted (pairwise_sortByUse rows)
    (hperm.trans (perm_sortByUse rows).symm)
  intro row other hrow hother hle hge
  have hrow := hperm.mem_iff.mp hrow
  have hother := (perm_sortByUse rows).mem_iff.mp hother
  have hnumber := number_eq_of_lastUse (le_antisymm hle hge)
  exact List.inj_on_of_nodup_map hnumbers hrow hother hnumber

/-- Some of the rows are in the order of all. -/
theorem sortByUse_filter (hnumbers : (rows.map (·.1)).Nodup) (keep : Nat × CacheEntry → Bool) :
    sortByUse (rows.filter keep) = (sortByUse rows).filter keep := by
  symm
  apply eq_of_sorted
  · exact hnumbers.sublist (List.filter_sublist.map _)
  · exact (pairwise_sortByUse rows).filter _
  · exact (perm_sortByUse rows).filter _

/-- What makes room before all others was used longest ago. -/
theorem firstToYield_eq_head? (hnumbers : (rows.map (·.1)).Nodup) :
    firstToYield rows = (sortByUse rows).head? := by
  cases hfirst : firstToYield rows with
  | none =>
    rw [firstToYield_eq_none.mp hfirst]
    rfl
  | some row =>
    obtain ⟨hrow, hbefore⟩ := not_yields_firstToYield hfirst
    cases hsorted : sortByUse rows with
    | nil =>
      have hmem := (perm_sortByUse rows).mem_iff.mpr hrow
      rw [hsorted] at hmem
      cases hmem
    | cons oldest rest =>
      have holdest : oldest ∈ rows := by
        rw [← (perm_sortByUse rows).mem_iff, hsorted]
        exact List.mem_cons_self
      have hle : lastUse row ≤ lastUse oldest := by
        have hnot := hbefore oldest holdest
        rw [← Bool.not_eq_true, yields_iff] at hnot
        exact not_lt.mp hnot
      have hge : lastUse oldest ≤ lastUse row := by
        have hpairwise := pairwise_sortByUse rows
        have hmem := (perm_sortByUse rows).mem_iff.mpr hrow
        rw [hsorted] at hpairwise hmem
        rcases List.mem_cons.mp hmem with rfl | hmem
        · exact le_rfl
        · exact List.rel_of_pairwise_cons hpairwise hmem
      have hnumber := number_eq_of_lastUse (le_antisymm hle hge)
      rw [List.head?_cons, List.inj_on_of_nodup_map hnumbers hrow holdest hnumber]

end

variable {store : IndexedStore} {row : Nat × CacheEntry} {rest : List (Nat × CacheEntry)}

private theorem mem_byUse : row ∈ store.byUse ↔ row ∈ store.rows ∧ row.2.isStatic = false := by
  rw [byUse, (perm_sortByUse _).mem_iff, List.mem_filter, Bool.not_eq_true']

private theorem mem_rows_of_byUse (h : store.byUse = row :: rest) :
    row ∈ store.rows ∧ row.2.isStatic = false := by
  rw [← mem_byUse, h]
  exact List.mem_cons_self

private theorem length_byUse (store : IndexedStore) :
    store.byUse.length = (store.rows.filter (!·.2.isStatic)).length :=
  (perm_sortByUse _).length_eq

private theorem byUse_eq_nil_iff : store.byUse = [] ↔ ∀ row ∈ store.rows, row.2.isStatic = true := by
  rw [← List.length_eq_zero_iff, length_byUse, List.length_eq_zero_iff, List.filter_eq_nil_iff]
  simp

/-- Rows that are left make room in the same order. -/
theorem byUse_eq_filter {store' : IndexedStore} {keep : Nat × CacheEntry → Bool}
    (hrows : store'.rows = store.rows.filter keep) : store'.byUse = store.byUse.filter keep := by
  rw [byUse, hrows, List.filter_comm, sortByUse_filter, ← byUse]
  exact store.nodup_numbers.sublist (List.filter_sublist.map _)

private theorem nodup_byUse (store : IndexedStore) : store.byUse.Nodup := by
  rw [byUse, (perm_sortByUse _).nodup_iff]
  exact store.nodup_numbers.of_map.filter _

/-- A row that is removed is the only one that is. -/
theorem rows_remove_of_mem (h : row ∈ store.rows) :
    (store.remove row.1).2.rows = store.rows.filter (· ≠ row) := by
  rw [rows_remove]
  apply List.filter_congr
  intro other hother
  have hsame : other.1 = row.1 ↔ other = row := ⟨eq_of_number hother h, congrArg Prod.fst⟩
  rw [Bool.eq_iff_iff, bne_iff_ne, decide_eq_true_eq, ne_eq, ne_eq, hsame]

/-- What the store comes upon is the first one. -/
theorem firstToYield_removable (store : IndexedStore) :
    firstToYield (store.rows.filter (!·.2.isStatic)) = store.byUse.head? :=
  firstToYield_eq_head? (store.nodup_numbers.sublist (List.filter_sublist.map _))

private theorem evict_of_byUse_nil (h : store.byUse = []) : store.evict = (none, store) := by
  rw [evict, firstToYield_removable, h]
  rfl

private theorem evict_of_byUse_cons (h : store.byUse = row :: rest) :
    store.evict = (some row.2, (store.remove row.1).2) := by
  have hentry : (store.remove row.1).1 = some row.2 :=
    (store.fst_remove row.1).trans (mem_rows.mp (mem_rows_of_byUse h).1)
  rw [evict, firstToYield_removable, h, ← hentry]
  rfl

/-- Those behind it are left. -/
theorem byUse_remove (h : store.byUse = row :: rest) : (store.remove row.1).2.byUse = rest := by
  have hnodup := store.nodup_byUse
  rw [h, List.nodup_cons] at hnodup
  rw [byUse_eq_filter (rows_remove_of_mem (mem_rows_of_byUse h).1), h, List.filter_cons_of_neg (by simp)]
  apply List.filter_eq_self.mpr
  intro other hother
  have hne : other ≠ row := ne_of_mem_of_not_mem hother hnodup.1
  simpa using hne

private theorem size_remove (h : row ∈ store.rows) :
    (store.remove row.1).2.size + 1 = store.size := by
  have hsize (store : IndexedStore) : store.size = store.rows.length :=
    Std.TreeMap.length_toList.symm
  have hone : store.rows.countP (· = row) = 1 := by
    rw [List.countP_congr (q := (· == row)) (by simp)]
    exact List.count_eq_one_of_mem store.nodup_numbers.of_map h
  have hsplit := store.rows.length_eq_countP_add_countP (· = row)
  rw [hsize, hsize, rows_remove_of_mem h, ← List.countP_eq_length_filter, hsplit, hone]
  simp [Nat.add_comm]

/-- Room is made by the first ones, as many as there are entries too many. -/
theorem shrink_eq_drop (store : IndexedStore) (bound : Nat) :
    (store.shrink bound).1 = min store.byUse.length (store.size - bound) ∧
      (store.shrink bound).2.rows =
        store.rows.filter (· ∉ store.byUse.take (store.size - bound)) ∧
      (store.shrink bound).2.capacity = store.capacity := by
  fun_induction shrink store bound with
  | case1 store hlt store' hevict =>
    cases hqueue : store.byUse with
    | nil =>
      rw [evict_of_byUse_nil hqueue] at hevict
      cases hevict
      simp
    | cons row rest =>
      rw [evict_of_byUse_cons hqueue] at hevict
      cases hevict
  | case2 store hlt e store' hevict hless evicted store'' hshrink ih =>
    cases hqueue : store.byUse with
    | nil =>
      rw [evict_of_byUse_nil hqueue] at hevict
      cases hevict
    | cons row rest =>
      obtain ⟨rfl, rfl⟩ : row.2 = e ∧ (store.remove row.1).2 = store' := by
        rw [evict_of_byUse_cons hqueue] at hevict
        cases hevict
        exact ⟨rfl, rfl⟩
      have hrow : row ∈ store.rows := (mem_rows_of_byUse hqueue).1
      have hsize := size_remove hrow
      have hover : store.size - bound = ((store.remove row.1).2.size - bound) + 1 := by omega
      obtain ⟨hcount, hrows, hcapacity⟩ := ih
      rw [hshrink, byUse_remove hqueue] at hcount hrows
      rw [hshrink] at hcapacity
      refine ⟨?_, ?_, hcapacity.trans (store.remove_capacity row.1)⟩
      · dsimp only at hcount ⊢
        rw [hcount, hover, List.length_cons]
        omega
      · dsimp only at hrows ⊢
        rw [hrows, rows_remove_of_mem hrow, List.filter_filter, hover, List.take_succ_cons]
        apply List.filter_congr
        intro other _
        simp [Bool.and_comm]
  | case3 store hle =>
    have hzero : store.size - bound = 0 := by omega
    simp [hzero]

section

variable {content : Content} {isStatic : Bool} {now c : Nat}

/-- Data under a new key takes the room that is made for it, if there is any. -/
theorem put_of_full (hcapacity : store.capacity = some c) (hpos : 0 < c) (hfull : c ≤ store.size)
    (hnew : store.contains content.name = false) {removed : Option CacheEntry}
    {store' : IndexedStore} (hevict : store.evict = (removed, store')) :
    store.put content isStatic now =
      removed.elim (none, store') fun _ => (some .inserted, store'.insert content isStatic now) := by
  have hcaching : store.capacity ≠ some 0 := by
    rw [hcapacity]
    simpa using Nat.ne_of_gt hpos
  have hnone : store.index[content.name.key]? = none := by
    rw [contains, Std.HashMap.contains_eq_isSome_getElem?] at hnew
    simpa using hnew
  have hany : store.capacity.any (· ≤ store.size) = true := by simpa [hcapacity] using hfull
  cases removed with
  | none => simp [put, hcaching, hnone, hany, hevict]
  | some _ => simp [put, hcaching, hnone, hany, hevict]

private theorem put_of_byUse_nil (hcapacity : store.capacity = some c) (hpos : 0 < c)
    (hfull : c ≤ store.size) (hnew : store.contains content.name = false)
    (hqueue : store.byUse = []) : store.put content isStatic now = (none, store) :=
  put_of_full hcapacity hpos hfull hnew (evict_of_byUse_nil hqueue)

private theorem put_of_byUse_cons (hcapacity : store.capacity = some c) (hpos : 0 < c)
    (hfull : c ≤ store.size) (hnew : store.contains content.name = false)
    (hqueue : store.byUse = row :: rest) :
    store.put content isStatic now =
      (some .inserted, (store.remove row.1).2.insert content isStatic now) :=
  put_of_full hcapacity hpos hfull hnew (evict_of_byUse_cons hqueue)

end

/-- The first one was used longest ago, or at the same tick as others that were put in later. -/
theorem lastUse_lt_of_byUse (hqueue : store.byUse = row :: rest) {other : Nat × CacheEntry}
    (hother : other ∈ store.rows) (hmoves : other.2.isStatic = false) (hne : other ≠ row) :
    lastUse row < lastUse other := by
  have hmem : other ∈ rest := by
    have hmem := mem_byUse.mpr ⟨hother, hmoves⟩
    rw [hqueue] at hmem
    exact (List.mem_cons.mp hmem).resolve_left hne
  have hsorted : store.byUse.Pairwise fun row other => lastUse row ≤ lastUse other :=
    pairwise_sortByUse _
  rw [hqueue] at hsorted
  apply lt_of_le_of_ne (List.rel_of_pairwise_cons hsorted hmem)
  intro hsame
  have hrow : row ∈ store.rows := (mem_rows_of_byUse hqueue).1
  exact hne (eq_of_number hother hrow (number_eq_of_lastUse hsame).symm)

/-- Whatever is done to an indexed store from the beginning, once it has as many entries as its capacity
says, which is not zero, data under a new key takes the place of exactly one of them: that which is not
static and was used longest ago, of several the oldest. If all are static, and only then, it is refused and
the store is as it was. A store that is bounded loses the entries that were used longest ago, as many as
there are too many or all that are not static; it answers how many these are, and keeps all others as they
are. -/
theorem leastRecentlyUsed_of_performAll (capacity : Option Nat) (changes : List Change) :
    let store := (performAll { capacity } changes).2
    (∀ content isStatic now c, store.capacity = some c → 0 < c → c ≤ store.size →
      store.contains content.name = false →
      ((store.put content isStatic now).1 = none ↔ ∀ row ∈ store.rows, row.2.isStatic = true) ∧
      ((store.put content isStatic now).1 = none → (store.put content isStatic now).2 = store) ∧
      ((store.put content isStatic now).1 ≠ none →
        ∃ victim ∈ store.rows, victim.2.isStatic = false ∧
          (∀ row ∈ store.rows, row.2.isStatic = false → row ≠ victim →
            toLex (victim.2.lastUsed, victim.1) < toLex (row.2.lastUsed, row.1)) ∧
          (store.put content isStatic now).1 = some .inserted ∧
          (store.put content isStatic now).2.rows =
            store.rows.filter (· ≠ victim) ++ [(store.nextSeq, .fresh content isStatic now)])) ∧
    ∀ bound,
      (store.setCapacity (some bound)).1 =
          min (store.rows.filter (!·.2.isStatic)).length (store.size - bound) ∧
        (store.setCapacity (some bound)).2.rows =
          store.rows.filter (· ∉ store.byUse.take (store.size - bound)) ∧
        (store.setCapacity (some bound)).2.capacity = some bound := by
  dsimp only
  obtain ⟨-, -, hwell⟩ := refines_performAll (.empty capacity) changes
  generalize (performAll { capacity } changes).2 = store at hwell
  constructor
  · intro content isStatic now c hcapacity hpos hfull hnew
    rw [← byUse_eq_nil_iff]
    cases hqueue : store.byUse with
    | nil =>
      rw [put_of_byUse_nil hcapacity hpos hfull hnew hqueue]
      simp
    | cons victim rest =>
      obtain ⟨hvictim, hmoves⟩ := mem_rows_of_byUse hqueue
      rw [put_of_byUse_cons hcapacity hpos hfull hnew hqueue]
      refine ⟨by simp, by simp, fun _ => ⟨victim, hvictim, hmoves, ?_, rfl, ?_⟩⟩
      · intro row hrow hmoves hne
        exact lastUse_lt_of_byUse hqueue hrow hmoves hne
      · rw [rows_insert (hwell.remove victim.1), rows_remove_of_mem hvictim, remove_nextSeq]
  · intro bound
    obtain ⟨hcount, hrows, hcapacity⟩ := shrink_eq_drop { store with capacity := some bound } bound
    rw [length_byUse] at hcount
    exact ⟨hcount, hrows, hcapacity⟩

/-- Data that has answered an Interest makes no room, although it was put in before the other. -/
theorem leastRecentlyUsed_of_performAll_hit :
    let x : Name := { components := [[120]] }
    let y : Name := { components := [[121]] }
    let z : Name := { components := [[122]] }
    let changes : List Change :=
      [.put (.ofPayload x [1]) false 0, .put (.ofPayload y [2]) false 0, .lookup (.ofName x) 1]
    let store := (performAll { capacity := some 2 } changes).2
    store.newestFirst.map (·.content.name) = [y, x] ∧
      (store.put (.ofPayload z [3]) false 2).1 = some .inserted ∧
      ∃ victim ∈ store.rows, victim.2.content.name = y ∧
        (store.put (.ofPayload z [3]) false 2).2.rows =
          store.rows.filter (· ≠ victim) ++ [(store.nextSeq, .fresh (.ofPayload z [3]) false 2)] := by
  intro x y z changes store
  obtain ⟨-, hlist, hwell⟩ := refines_performAll (.empty (some 2)) changes
  have hcapacity : store.capacity = some 2 := (congrArg ContentStore.capacity hlist).trans (by decide)
  have hentries : store.newestFirst =
      [.fresh (.ofPayload y [2]) false 0,
        { CacheEntry.fresh (.ofPayload x [1]) false 0 with served := 1, lastUsed := 1 }] :=
    (congrArg ContentStore.entries hlist).trans (by decide)
  have hfull : 2 ≤ store.size := by
    rw [← length_newestFirst, hentries]
    exact Nat.le_refl _
  have hnew : store.contains z = false := by
    rw [← contains_toStore hwell, hlist]
    decide
  obtain ⟨hrefused, -, hput⟩ := (leastRecentlyUsed_of_performAll (some 2) changes).1
    (.ofPayload z [3]) false 2 2 hcapacity (by decide) hfull hnew
  obtain ⟨seq, hy⟩ : ∃ seq : Nat, store.entries[seq]? = some (.fresh (.ofPayload y [2]) false 0) :=
    mem_newestFirst.mp (hentries ▸ List.mem_cons_self)
  have hroom : (store.put (.ofPayload z [3]) false 2).1 ≠ none := by
    intro hnone
    have hstatic := hrefused.mp hnone _ (mem_rows.mpr hy)
    cases hstatic
  obtain ⟨victim, hvictim, -, hleast, hinserted, hrows⟩ := hput hroom
  refine ⟨by rw [hentries]; rfl, hinserted, victim, hvictim, ?_, hrows⟩
  by_cases hsame : (seq, CacheEntry.fresh (.ofPayload y [2]) false 0) = victim
  · rw [← hsame]
    rfl
  · have hlt := hleast _ (mem_rows.mpr hy) rfl hsame
    have hmem : victim.2 ∈ store.newestFirst := mem_newestFirst.mpr ⟨victim.1, mem_rows.mp hvictim⟩
    rw [hentries, List.mem_cons, List.mem_singleton] at hmem
    rcases hmem with hvictim | hvictim
    · rw [hvictim]
      rfl
    · rw [hvictim, Prod.Lex.toLex_lt_toLex] at hlt
      simp [CacheEntry.fresh] at hlt

end IndexedStore

end NamedFunctions
