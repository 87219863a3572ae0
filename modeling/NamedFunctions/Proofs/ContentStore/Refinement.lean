import NamedFunctions.Proofs.ContentStore.Capacity
import NamedFunctions.Proofs.ContentStore.Indexed

/-!
# An indexed store is a list of entries

Whatever is done to an indexed store, its answers are those of the list of entries that it stands for, and
it stands for what becomes of the list. There is a square for each operation; runs follow from these.
-/

namespace NamedFunctions

namespace ContentStore

/-- What an operation on a store answers. -/
inductive Answer where
  | data (content : Option Content)
  | outcome (outcome : Option PutOutcome)
  | stale (hit : Bool)
  | names (names : List Name)
  | count (removed : Nat)
deriving DecidableEq, Repr

/-- What a store answers to a change. -/
def answer (store : ContentStore) : Change → Answer
  | .lookup interest now => .data ((store.lookup interest now).map (·.1))
  | .put content isStatic now => .outcome ((store.put content isStatic now).map (·.1))
  | .markStale name => .stale (store.markStale name).1
  | .markExpired now tick => .names (store.markExpired now tick).1
  | .expireIdle now timeout => .names (store.expireIdle now timeout).1
  | .flush => .count store.flush.1
  | .setCapacity capacity => .count (store.setCapacity capacity).1

/-- The store after some changes, one after the other. -/
def changeAll (store : ContentStore) (changes : List Change) : ContentStore :=
  changes.foldl change store

/-- What a store answers to some changes, one after the other. -/
def answers (store : ContentStore) : List Change → List Answer
  | [] => []
  | c :: changes => store.answer c :: (store.change c).answers changes

/-- Changes are made one after the other. -/
theorem changeAll_append (store : ContentStore) (before after : List Change) :
    store.changeAll (before ++ after) = (store.changeAll before).changeAll after :=
  List.foldl_append

/-- What every change keeps, a run of changes keeps. -/
theorem changeAll_induction {motive : ContentStore → Prop} {store : ContentStore}
    (h : motive store) (hchange : ∀ store c, motive store → motive (store.change c))
    (changes : List Change) : motive (store.changeAll changes) := by
  induction changes generalizing store with
  | nil => exact h
  | cons c changes ih => exact ih (hchange store c h)

/-- Changes keep a store well formed. -/
theorem WellFormed.changeAll {store : ContentStore} (h : store.WellFormed) (changes : List Change) :
    (store.changeAll changes).WellFormed :=
  changeAll_induction h (fun _ c h => h.change c) changes

private theorem Bounded.changeAll {store : ContentStore} (h : store.Bounded) (changes : List Change) :
    (store.changeAll changes).Bounded :=
  changeAll_induction h (fun _ c h => h.change c) changes

private theorem Bounded.empty (capacity : Option Nat) : Bounded { capacity } :=
  fun _ _ => .inl (Nat.zero_le _)

private theorem serveFirst_append_cons {interest : Interest} {now : Nat} {newer older : List CacheEntry}
    {e : CacheEntry} (hnewer : ∀ x ∈ newer, x.answers interest = false)
    (hanswers : e.answers interest = true) :
    serveFirst interest now (newer ++ e :: older) =
      some (e.content, newer ++ { e with served := e.served + 1, lastUsed := now } :: older) := by
  induction newer with
  | nil => rw [List.nil_append, serveFirst, if_pos hanswers, List.nil_append]
  | cons x newer ih =>
    rw [List.forall_mem_cons] at hnewer
    rw [List.cons_append, serveFirst, hnewer.1, if_neg Bool.false_ne_true, ih hnewer.2]
    rfl

/-- No entry is hit if the one for the name is static, or there is none. -/
theorem markStale_of_static {store : ContentStore} {name : Name}
    (h : ∀ e ∈ store.entries, e.content.name.key = name.key → e.isStatic = true) :
    store.markStale name = (false, store) := by
  have hmiss : ∀ e ∈ store.entries, ¬ (e.hasKey name && !e.isStatic) = true := by
    intro e he hhit
    rw [Bool.and_eq_true, Bool.not_eq_true', CacheEntry.hasKey_iff] at hhit
    rw [h e he hhit.1] at hhit
    cases hhit.2
  have hsame : (store.entries.map fun e =>
      if e.hasKey name && !e.isStatic then { e with isStale := true } else e) = store.entries :=
    (List.map_congr_left fun e he => if_neg (hmiss e he)).trans (List.map_id' _)
  unfold markStale
  dsimp only
  rw [List.any_eq_false.mpr hmiss, hsame]

section

variable {store : ContentStore} {content : Content} {isStatic : Bool} {now : Nat} {old : CacheEntry}

/-- The payload that is there already changes nothing. -/
theorem put_of_same (hcaching : store.capacity ≠ some 0) (hget : store.get? content.name = some old)
    (hpayload : old.content.payload = content.payload) :
    store.put content isStatic now = some (.duplicate, store) := by
  unfold put
  simp only [hcaching, if_false, hget, hpayload, if_true]

/-- Another payload takes the place of the one that is there, and keeps it pinned if it was. -/
theorem put_of_other (hcaching : store.capacity ≠ some 0)
    (hget : store.get? content.name = some old) (hpayload : old.content.payload ≠ content.payload) :
    store.put content isStatic now =
      some (.replaced,
        { store with
          entries := .fresh content (isStatic || old.isStatic) now ::
            store.entries.filter fun e => !e.hasKey content.name }) := by
  unfold put
  simp only [hcaching, if_false, hget, hpayload]
  rfl

/-- Data under a new name is put in front once there is room. -/
theorem put_of_none (hcaching : store.capacity ≠ some 0) (hget : store.get? content.name = none) :
    store.put content isStatic now =
      store.makeRoom.map fun entries =>
        (.inserted, { store with entries := .fresh content isStatic now :: entries }) := by
  unfold put
  simp only [hcaching, if_false, hget]
  rfl

end

end ContentStore

namespace IndexedStore

open ContentStore (Answer Change)

/-- Make a change to a store; what it answers. -/
def perform (store : IndexedStore) : Change → Answer × IndexedStore
  | .lookup interest now => (store.lookup interest now).map .data id
  | .put content isStatic now => (store.put content isStatic now).map .outcome id
  | .markStale name => (store.markStale name).map .stale id
  | .markExpired now tick => (store.markExpired now tick).map .names id
  | .expireIdle now timeout => (store.expireIdle now timeout).map .names id
  | .flush => store.flush.map .count id
  | .setCapacity capacity => (store.setCapacity capacity).map .count id

/-- Make some changes to a store, one after the other; what it answers to each. -/
def performAll (store : IndexedStore) : List Change → List Answer × IndexedStore
  | [] => ([], store)
  | c :: changes =>
    let (answer, store) := store.perform c
    let (answers, store) := store.performAll changes
    (answer :: answers, store)

/-- Changes are made one after the other. -/
theorem performAll_append (store : IndexedStore) (before after : List Change) :
    (store.performAll (before ++ after)).2 = ((store.performAll before).2.performAll after).2 := by
  induction before generalizing store with
  | nil => rfl
  | cons c before ih => exact ih _

/-- Whether a change to a store is the one to the plain store that it stands for. -/
structure Refines (store : IndexedStore) (c : Change) : Prop where
  answer : (store.perform c).1 = store.toStore.answer c
  toStore : (store.perform c).2.toStore = store.toStore.change c
  wellFormed : (store.perform c).2.WellFormed

/-- A change that is made is the one to the plain store if it answers the same and leads to the same. -/
theorem Refines.of_perform {store store' : IndexedStore} {c : Change} {answer : Answer}
    (hperform : store.perform c = (answer, store')) (hanswer : store.toStore.answer c = answer)
    (hchange : store.toStore.change c = store'.toStore) (hwell : store'.WellFormed) :
    store.Refines c := by
  have hfirst : (store.perform c).1 = answer := congrArg Prod.fst hperform
  have hsecond : (store.perform c).2 = store' := congrArg Prod.snd hperform
  exact ⟨hfirst.trans hanswer.symm, (congrArg IndexedStore.toStore hsecond).trans hchange.symm,
    hsecond.symm ▸ hwell⟩

/-- Nothing makes room before what makes room first. -/
theorem not_yields_firstToYield {rows : List (Nat × CacheEntry)} {row : Nat × CacheEntry}
    (h : firstToYield rows = some row) :
    row ∈ rows ∧ ∀ other ∈ rows, yields other row = false := by
  induction rows generalizing row with
  | nil => cases h
  | cons first rows ih =>
    rw [firstToYield] at h
    split at h
    · next hnone =>
      cases h
      cases rows with
      | nil => simp [yields]
      | cons second rest =>
        rw [firstToYield] at hnone
        split at hnone
        · cases hnone
        · split at hnone <;> cases hnone
    · next other hother =>
      obtain ⟨hmem, hbefore⟩ := ih hother
      split at h
      · next hyields =>
        cases h
        refine ⟨List.mem_cons_of_mem _ hmem, List.forall_mem_cons.mpr ⟨?_, hbefore⟩⟩
        simp only [yields, Bool.or_eq_true, Bool.and_eq_true, decide_eq_true_eq, beq_iff_eq,
          Bool.or_eq_false_iff, decide_eq_false_iff_not, Bool.and_eq_false_imp] at hyields ⊢
        omega
      · next hyields =>
        cases h
        refine ⟨List.mem_cons_self, List.forall_mem_cons.mpr ⟨by simp [yields], ?_⟩⟩
        intro x hx
        have hx := hbefore x hx
        simp only [yields, Bool.or_eq_true, Bool.and_eq_true, decide_eq_true_eq, beq_iff_eq,
          Bool.or_eq_false_iff, decide_eq_false_iff_not, Bool.and_eq_false_imp] at hyields hx ⊢
        omega

/-- An entry can be given up unless there is none. -/
theorem firstToYield_eq_none {rows : List (Nat × CacheEntry)} :
    firstToYield rows = none ↔ rows = [] := by
  cases rows with
  | nil => simp [firstToYield]
  | cons first rows =>
    rw [firstToYield]
    split
    · simp
    · split <;> simp

section

variable {store : IndexedStore}

/-- A row parts the list into newer and older entries, which are what is left without it. -/
theorem newestFirst_split {row : Nat × CacheEntry} (hrow : row ∈ store.rows) :
    ∃ older newer, store.rows = older ++ row :: newer ∧ (∀ x ∈ older, x.1 < row.1) ∧
      store.newestFirst = (newer.map (·.2)).reverse ++ row.2 :: (older.map (·.2)).reverse ∧
      (store.remove row.1).2.newestFirst =
        (newer.map (·.2)).reverse ++ (older.map (·.2)).reverse := by
  obtain ⟨older, newer, hrows⟩ := List.append_of_mem hrow
  have hsorted := store.pairwise_rows
  rw [hrows] at hsorted
  obtain ⟨_, hnewer, holder⟩ := List.pairwise_append.mp hsorted
  have hnewer := (List.pairwise_cons.mp hnewer).1
  have holder : ∀ x ∈ older, x.1 < row.1 := fun x hx => holder x hx row List.mem_cons_self
  have hold : older.filter (·.1 != row.1) = older :=
    List.filter_eq_self.mpr fun x hx => by simpa using Nat.ne_of_lt (holder x hx)
  have hnew : newer.filter (·.1 != row.1) = newer :=
    List.filter_eq_self.mpr fun x hx => by simpa using Nat.ne_of_gt (hnewer x hx)
  refine ⟨older, newer, hrows, holder, ?_, ?_⟩
  · rw [newestFirst, hrows]
    simp
  · rw [newestFirst, rows_remove, hrows, List.filter_append, List.filter_cons, hold, hnew]
    simp

/-- The entry that makes room is that which makes room in the list. -/
theorem evict_cases (store : IndexedStore) :
    (store.evict = (none, store) ∧ ContentStore.evict store.newestFirst = none) ∨
      ∃ seq e, store.evict = (some e, (store.remove seq).2) ∧
        ContentStore.evict store.newestFirst = some (store.remove seq).2.newestFirst := by
  cases hfirst : firstToYield (store.rows.filter (!·.2.isStatic)) with
  | none =>
    left
    refine ⟨by rw [evict, hfirst], ContentStore.evict_of_static fun e he => ?_⟩
    obtain ⟨seq, he⟩ := mem_newestFirst.mp he
    have hstatic := List.filter_eq_nil_iff.mp (firstToYield_eq_none.mp hfirst) _ (mem_rows.mpr he)
    simpa using hstatic
  | some row =>
    right
    obtain ⟨hmem, hbefore⟩ := not_yields_firstToYield hfirst
    obtain ⟨hrow, hmoves⟩ := List.mem_filter.mp hmem
    have hentry : (store.remove row.1).1 = some row.2 :=
      (store.fst_remove row.1).trans (mem_rows.mp hrow)
    refine ⟨row.1, row.2, ?_, ?_⟩
    · rw [evict, hfirst, ← hentry]
    · obtain ⟨older, newer, hrows, holder, hlist, hremoved⟩ := newestFirst_split hrow
      -- Rows with smaller numbers are older, so only ties with larger ones are left.
      have hyields : ∀ x ∈ store.rows, x.2.isStatic = false → yields x row = false :=
        fun x hx hmoves => hbefore x (List.mem_filter.mpr ⟨hx, by simp [hmoves]⟩)
      rw [hlist, hremoved]
      apply ContentStore.evict_append_cons (by simpa using hmoves)
      · intro e he hmoves
        obtain ⟨x, hx, rfl⟩ := List.mem_map.mp (List.mem_reverse.mp he)
        have hnot := hyields x (by simp [hrows, hx]) hmoves
        simp only [yields, Bool.or_eq_false_iff, decide_eq_false_iff_not] at hnot
        exact Nat.not_lt.mp hnot.1
      · intro e he hmoves
        obtain ⟨x, hx, rfl⟩ := List.mem_map.mp (List.mem_reverse.mp he)
        have hnot := hyields x (by simp [hrows, hx]) hmoves
        have hlt := holder x hx
        simp only [yields, Bool.or_eq_false_iff, decide_eq_false_iff_not, Bool.and_eq_false_imp,
          beq_iff_eq] at hnot
        omega

/-- Removing an entry leaves the capacity. -/
theorem remove_capacity (store : IndexedStore) (seq : Nat) :
    (store.remove seq).2.capacity = store.capacity := store.removeAll_capacity [seq]

/-- Removing an entry leaves the next number. -/
theorem remove_nextSeq (store : IndexedStore) (seq : Nat) :
    (store.remove seq).2.nextSeq = store.nextSeq := by
  unfold remove
  split <;> rfl

/-- Room is made as in the list, whose entries go one after the other. -/
theorem shrink_eq (h : store.WellFormed) (bound : Nat) :
    (store.shrink bound).1 =
        (ContentStore.evictMany (store.newestFirst.length - bound) store.newestFirst).1 ∧
      (store.shrink bound).2.newestFirst =
        (ContentStore.evictMany (store.newestFirst.length - bound) store.newestFirst).2 ∧
      (store.shrink bound).2.capacity = store.capacity ∧ (store.shrink bound).2.WellFormed := by
  fun_induction shrink store bound with
  | case1 store hlt store' hevict =>
    rcases store.evict_cases with ⟨hstore, hnone⟩ | ⟨seq, e, hsome, _⟩
    · obtain rfl : store' = store := by simpa using hevict.symm.trans hstore
      obtain ⟨n, hn⟩ : ∃ n, store'.newestFirst.length - bound = n + 1 :=
        ⟨store'.newestFirst.length - bound - 1, by rw [length_newestFirst]; omega⟩
      rw [hn, ContentStore.evictMany, hnone]
      exact ⟨rfl, rfl, rfl, h⟩
    · rw [hevict] at hsome
      cases hsome
  | case2 store hlt e store' hevict hless evicted store'' hshrink ih =>
    rcases store.evict_cases with ⟨hstore, _⟩ | ⟨seq, e', hsome, hrest⟩
    · rw [hevict] at hstore
      cases hstore
    · obtain rfl : store' = (store.remove seq).2 := by
        rw [hevict] at hsome
        cases hsome
        rfl
      have hlength := ContentStore.length_evict hrest
      obtain ⟨hcount, hlist, hcapacity, hwell⟩ := ih (h.remove seq)
      rw [hshrink] at hcount hlist hcapacity hwell
      have hn : store.newestFirst.length - bound =
          ((store.remove seq).2.newestFirst.length - bound) + 1 := by
        have hsize := store.length_newestFirst
        omega
      rw [hn, ContentStore.evictMany, hrest]
      refine ⟨?_, hlist, hcapacity.trans (store.remove_capacity seq), hwell⟩
      dsimp only at hcount ⊢
      rw [hcount]
  | case3 store hle =>
    have hzero : store.newestFirst.length - bound = 0 := by
      rw [length_newestFirst]
      omega
    rw [hzero]
    exact ⟨rfl, rfl, rfl, h⟩

end

section

variable {store : IndexedStore}

/-- A look-up comes upon the newest entry that answers, and marks it as used. -/
theorem lookup_cases (store : IndexedStore) (interest : Interest) (now : Nat) :
    ((∀ e ∈ store.newestFirst, e.answers interest = false) ∧
        store.lookup interest now = (none, store)) ∨
      ∃ newer e older, store.newestFirst = newer ++ e :: older ∧
        (∀ x ∈ newer, x.answers interest = false) ∧ e.answers interest = true ∧
        (store.lookup interest now).1 = some e.content ∧
        (store.lookup interest now).2.newestFirst =
          newer ++ { e with served := e.served + 1, lastUsed := now } :: older := by
  cases hfind : store.rows.reverse.find? (·.2.answers interest) with
  | none =>
    left
    refine ⟨fun e he => ?_, by rw [lookup, hfind]⟩
    rw [newestFirst_eq_reverse] at he
    obtain ⟨row, hrow, rfl⟩ := List.mem_map.mp he
    exact Bool.eq_false_iff.mpr (List.find?_eq_none.mp hfind row hrow)
  | some row =>
    right
    obtain ⟨hanswers, newer, older, hrows, hnewer⟩ := List.find?_eq_some_iff_append.mp hfind
    refine ⟨newer.map (·.2), row.2, older.map (·.2), ?_, ?_, hanswers, ?_, ?_⟩
    · rw [newestFirst_eq_reverse, hrows, List.map_append, List.map_cons]
    · intro e he
      obtain ⟨x, hx, rfl⟩ := List.mem_map.mp he
      simpa using hnewer x hx
    · rw [lookup, hfind]
    · have hnodup : (store.rows.reverse.map (·.1)).Nodup := by
        rw [List.map_reverse, List.nodup_reverse]
        exact store.nodup_numbers
      rw [hrows, List.map_append, List.map_cons, List.nodup_append, List.nodup_cons] at hnodup
      obtain ⟨_, ⟨holder, _⟩, hapart⟩ := hnodup
      have hnewer : ∀ x ∈ newer, x.1 ≠ row.1 := fun x hx =>
        hapart _ (List.mem_map_of_mem hx) _ List.mem_cons_self
      have holder : ∀ x ∈ older, x.1 ≠ row.1 := fun x hx heq =>
        holder (List.mem_map.mpr ⟨x, hx, heq⟩)
      rw [lookup, hfind, newestFirst_eq_reverse, rows_modify, ← List.map_reverse, hrows,
        List.map_append, List.map_cons, if_pos rfl, List.map_congr_left fun x hx => if_neg (hnewer x hx),
        List.map_congr_left fun x hx => if_neg (holder x hx)]
      simp

private theorem refines_lookup (h : store.WellFormed) (interest : Interest) (now : Nat) :
    store.Refines (.lookup interest now) := by
  have hwell : (store.lookup interest now).2.WellFormed := by
    unfold lookup
    split
    · exact h
    · exact h.modify _ fun _ => rfl
  have hcapacity : (store.lookup interest now).2.capacity = store.capacity := by
    unfold lookup
    split <;> rfl
  rcases store.lookup_cases interest now with ⟨hnone, heq⟩ |
    ⟨newer, e, older, hlist, hnewer, hanswers, hdata, hlater⟩
  · have hlookup : store.toStore.lookup interest now = none := by
      rw [ContentStore.lookup, toStore, ContentStore.serveFirst_eq_none hnone]
      rfl
    refine .of_perform (congrArg (Prod.map Answer.data id) heq) ?_ ?_ h
    · rw [ContentStore.answer, hlookup]
      rfl
    · rw [ContentStore.change, hlookup]
      rfl
  · have hlookup : store.toStore.lookup interest now =
        some (e.content, (store.lookup interest now).2.toStore) := by
      rw [ContentStore.lookup]
      simp only [toStore]
      rw [hlist, ContentStore.serveFirst_append_cons hnewer hanswers, hlater, hcapacity]
      rfl
    have heq : store.lookup interest now = (some e.content, (store.lookup interest now).2) := by
      rw [← hdata]
    refine .of_perform (congrArg (Prod.map Answer.data id) heq) ?_ ?_ hwell
    · rw [ContentStore.answer, hlookup]
      rfl
    · rw [ContentStore.change, hlookup]
      rfl

private theorem refines_markStale (h : store.WellFormed) (name : Name) : store.Refines (.markStale name) := by
  have hmiss (heq : store.markStale name = (false, store))
      (hstatic : ∀ e ∈ store.newestFirst, e.content.name.key = name.key → e.isStatic = true) :
      store.Refines (.markStale name) := by
    have hsame : store.toStore.markStale name = (false, store.toStore) :=
      ContentStore.markStale_of_static hstatic
    exact .of_perform (congrArg (Prod.map Answer.stale id) heq)
      (congrArg (fun x : Bool × ContentStore => Answer.stale x.1) hsame) (congrArg Prod.snd hsame) h
  cases hseq : store.index[name.key]? with
  | none =>
    refine hmiss (by rw [markStale, hseq]) fun e he hkey => ?_
    exact absurd hkey ((index_eq_none_iff h).mp hseq e he)
  | some seq =>
    obtain ⟨e, he, hkey⟩ := (h.index _ _).mp hseq
    have hmem : e ∈ store.newestFirst := mem_newestFirst.mpr ⟨seq, he⟩
    cases hstatic : e.isStatic with
    | true =>
      refine hmiss (by rw [markStale, hseq]; dsimp only; rw [he]; dsimp only; rw [if_pos hstatic]) ?_
      intro e' he' hkey'
      rw [eq_of_key h hmem he' (hkey'.trans hkey.symm)]
      exact hstatic
    | false =>
      have heq : store.markStale name =
          (true, store.modify seq fun e => { e with isStale := true }) := by
        rw [markStale, hseq]
        dsimp only
        rw [he]
        dsimp only
        rw [hstatic, if_neg Bool.false_ne_true]
      have hhit : (e.hasKey name && !e.isStatic) = true := by
        rw [CacheEntry.hasKey_iff.mpr hkey, hstatic]
        rfl
      refine .of_perform (congrArg (Prod.map Answer.stale id) heq)
        (congrArg Answer.stale (List.any_eq_true.mpr ⟨e, hmem, hhit⟩)) (Eq.symm ?_)
        (h.modify seq fun _ => rfl)
      refine congrArg (ContentStore.mk · _) (newestFirst_modify fun row hrow => ?_)
      dsimp only
      by_cases hnumber : row.1 = seq
      · have hentry : row.2 = e := by rw [eq_of_number hrow (mem_rows.mpr he) hnumber]
        rw [if_pos hnumber, hentry, if_pos hhit]
      · have hother : ¬ (row.2.hasKey name && !row.2.isStatic) = true := by
          rw [Bool.and_eq_true, h.hasKey_iff hseq hrow]
          exact fun hhit => hnumber hhit.1
        rw [if_neg hnumber, if_neg hother]

private theorem rows_markExpired (store : IndexedStore) (now : Nat) (tick : Duration) :
    (store.markExpired now tick).2.rows = store.rows.map fun row =>
      (row.1, if row.2.isExpired now tick then { row.2 with isStale := true } else row.2) :=
  Std.TreeMap.toList_map

private theorem refines_markExpired (h : store.WellFormed) (now : Nat) (tick : Duration) :
    store.Refines (.markExpired now tick) := by
  refine ⟨congrArg Answer.names ?_, congrArg (ContentStore.mk · _) ?_, h.markExpired now tick⟩
  · change ((store.rows.filter _).map _) = ((store.newestFirst.reverse.filter _).map _)
    rw [newestFirst, List.reverse_reverse, List.filter_map, List.map_map]
    rfl
  · exact newestFirst_eq_map (store.rows_markExpired now tick) fun _ _ => rfl

private theorem refines_expireIdle (h : store.WellFormed) (now timeout : Nat) :
    store.Refines (.expireIdle now timeout) := by
  have hnumbers : ((store.rows.filter (·.2.isIdle now timeout)).map (·.1)).Nodup :=
    store.nodup_numbers.sublist (List.filter_sublist.map _)
  refine ⟨congrArg Answer.names ?_, ?_, h.removeAll _⟩
  · change (store.removeAll _).1.map _ = ((store.newestFirst.reverse.filter _).map _)
    have hremoved : ((store.rows.filter (·.2.isIdle now timeout)).filterMap
        fun row => store.entries[row.1]?) = (store.rows.filter (·.2.isIdle now timeout)).map (·.2) := by
      rw [← List.filterMap_eq_map]
      exact List.filterMap_congr fun row hrow => mem_rows.mp (List.mem_of_mem_filter hrow)
    rw [fst_removeAll hnumbers, List.filterMap_map, Function.comp_def, hremoved, newestFirst,
      List.reverse_reverse, List.filter_map, List.map_map, List.map_map]
    rfl
  · exact congr (congrArg ContentStore.mk (store.newestFirst_removeAll (·.isIdle now timeout)))
      (store.removeAll_capacity _)

private theorem refines_flush (h : store.WellFormed) : store.Refines .flush := by
  refine ⟨congrArg Answer.count ?_, ?_, h.removeAll _⟩
  · change ((store.rows.filter (!·.2.isStatic)).map _).length =
      store.newestFirst.length - (store.newestFirst.filter (·.isStatic)).length
    have hsplit := store.newestFirst.length_eq_length_filter_add (·.isStatic)
    have hgone : (store.newestFirst.filter (!·.isStatic)).length =
        (store.rows.filter (!·.2.isStatic)).length := by
      rw [newestFirst, List.filter_reverse, List.length_reverse, List.filter_map, List.length_map]
      rfl
    rw [hsplit, Nat.add_sub_cancel_left, List.length_map, hgone]
  · refine congr (congrArg ContentStore.mk ((store.newestFirst_removeAll (!·.isStatic)).trans ?_))
      (store.removeAll_capacity _)
    simp only [Bool.not_not]
    rfl

/-- Data that takes a place is put in as in the list. -/
private theorem insert_toStore (h : store.WellFormed) {content : Content}
    (hother : ∀ e ∈ store.newestFirst, e.content.name.key ≠ content.name.key) (isStatic : Bool)
    (now : Nat) :
    (store.insert content isStatic now).toStore =
        { store.toStore with entries := .fresh content isStatic now :: store.newestFirst } ∧
      (store.insert content isStatic now).WellFormed :=
  ⟨congrArg (ContentStore.mk · _) (newestFirst_insert h content isStatic now),
    h.insert ((index_eq_none_iff h).mpr hother) isStatic now⟩

/-- A put is the one to the list once they come to the same. -/
private theorem refines_of_put {content : Content} {isStatic : Bool} {now : Nat}
    {outcome : PutOutcome} {store' : IndexedStore}
    (hput : store.put content isStatic now = (some outcome, store'))
    (hlist : store.toStore.put content isStatic now = some (outcome, store'.toStore))
    (hwell : store'.WellFormed) : store.Refines (.put content isStatic now) := by
  refine .of_perform (congrArg (Prod.map Answer.outcome id) hput) ?_ ?_ hwell
  · rw [ContentStore.answer, hlist]
    rfl
  · rw [ContentStore.change, hlist]
    rfl

private theorem refines_put_of_some (h : store.WellFormed) (hcaching : store.capacity ≠ some 0)
    {content : Content} {seq : Nat} (hseq : store.index[content.name.key]? = some seq)
    (isStatic : Bool) (now : Nat) : store.Refines (.put content isStatic now) := by
  obtain ⟨old, hold, hkey⟩ := (h.index _ _).mp hseq
  have hget : store.toStore.get? content.name = some old := by
    rw [get?_toStore h, get?, hseq]
    exact hold
  by_cases hpayload : old.content.payload = content.payload
  · have hput : store.put content isStatic now = (some .duplicate, store) := by
      rw [put]
      simp only [hcaching, if_false, hseq, hold, hpayload, if_true]
    exact refines_of_put hput (ContentStore.put_of_same hcaching hget hpayload) h
  · have hput : store.put content isStatic now =
        (some .replaced, (store.remove seq).2.insert content (isStatic || old.isStatic) now) := by
      rw [put]
      simp only [hcaching, if_false, hseq, hold, hpayload]
    have hothers : (store.remove seq).2.newestFirst =
        store.newestFirst.filter fun e => !e.hasKey content.name := by
      refine newestFirst_eq_filter (store.rows_remove seq) fun row hrow => ?_
      rw [Bool.eq_iff_iff, bne_iff_ne, Bool.not_eq_true', ← Bool.not_eq_true, ne_eq,
        h.hasKey_iff hseq hrow]
    have hother : ∀ e ∈ (store.remove seq).2.newestFirst,
        e.content.name.key ≠ content.name.key := by
      intro e he hkey'
      rw [hothers, List.mem_filter, CacheEntry.hasKey_iff.mpr hkey'] at he
      cases he.2
    obtain ⟨hlist, hwell⟩ := insert_toStore (h.remove seq) hother (isStatic || old.isStatic) now
    refine refines_of_put hput ?_ hwell
    rw [ContentStore.put_of_other hcaching hget hpayload, hlist, hothers]
    exact congrArg (fun capacity => some (PutOutcome.replaced, ContentStore.mk _ capacity))
      (store.remove_capacity seq).symm

private theorem refines_put_of_none (h : store.WellFormed) (hcaching : store.capacity ≠ some 0)
    {content : Content} (hnone : store.index[content.name.key]? = none) (isStatic : Bool)
    (now : Nat) : store.Refines (.put content isStatic now) := by
  have hother := (index_eq_none_iff h).mp hnone
  have hlist : store.toStore.put content isStatic now =
      store.toStore.makeRoom.map fun entries =>
        (.inserted, { store.toStore with entries := .fresh content isStatic now :: entries }) :=
    ContentStore.put_of_none hcaching (ContentStore.get?_eq_none_iff.mpr hother)
  by_cases hfull : store.capacity.any (· ≤ store.size) = true
  · have hroom : store.toStore.makeRoom = ContentStore.evict store.newestFirst := by
      refine if_pos ?_
      change store.capacity.any (· ≤ store.newestFirst.length) = true
      rw [length_newestFirst]
      exact hfull
    rw [hroom] at hlist
    rcases store.evict_cases with ⟨hevict, hstatic⟩ | ⟨seq, e, hevict, hrest⟩
    · have hput : store.put content isStatic now = (none, store) := by
        rw [put]
        simp only [hcaching, if_false, hnone, hfull, if_true, hevict]
      rw [hstatic] at hlist
      refine .of_perform (congrArg (Prod.map Answer.outcome id) hput) ?_ ?_ h
      · rw [ContentStore.answer, hlist]
        rfl
      · rw [ContentStore.change, hlist]
        rfl
    · have hput : store.put content isStatic now =
          (some .inserted, (store.remove seq).2.insert content isStatic now) := by
        rw [put]
        simp only [hcaching, if_false, hnone, hfull, if_true, hevict]
      have hleft : ∀ e ∈ (store.remove seq).2.newestFirst, e.content.name.key ≠ content.name.key :=
        fun e he => hother e ((ContentStore.Thinned.evict hrest).sublist.subset he)
      obtain ⟨hinsert, hwell⟩ := insert_toStore (h.remove seq) hleft isStatic now
      refine refines_of_put hput ?_ hwell
      rw [hlist, hrest, hinsert]
      exact congrArg (fun capacity => some (PutOutcome.inserted, ContentStore.mk _ capacity))
        (store.remove_capacity seq).symm
  · have hput : store.put content isStatic now =
        (some .inserted, store.insert content isStatic now) := by
      rw [put]
      simp only [hcaching, if_false, hnone, hfull, Bool.false_eq_true]
    have hroom : store.toStore.makeRoom = some store.newestFirst := by
      refine if_neg ?_
      change ¬ store.capacity.any (· ≤ store.newestFirst.length) = true
      rw [length_newestFirst]
      exact hfull
    obtain ⟨hinsert, hwell⟩ := insert_toStore h hother isStatic now
    refine refines_of_put hput ?_ hwell
    rw [hlist, hroom, hinsert]
    rfl

private theorem refines_put (h : store.WellFormed) (content : Content) (isStatic : Bool) (now : Nat) :
    store.Refines (.put content isStatic now) := by
  by_cases hcaching : store.capacity = some 0
  · have hput : store.put content isStatic now = (some .transient, store) := by
      rw [put, if_pos hcaching]
    have hlist : store.toStore.put content isStatic now = some (.transient, store.toStore) := by
      unfold ContentStore.put
      exact if_pos hcaching
    exact refines_of_put hput hlist h
  · cases hseq : store.index[content.name.key]? with
    | none => exact refines_put_of_none h hcaching hseq isStatic now
    | some seq => exact refines_put_of_some h hcaching hseq isStatic now

private theorem refines_setCapacity (h : store.WellFormed) (capacity : Option Nat) :
    store.Refines (.setCapacity capacity) := by
  cases capacity with
  | none => exact ⟨rfl, rfl, ⟨h.index, h.below⟩⟩
  | some bound =>
    have hopen : WellFormed { store with capacity := some bound } := ⟨h.index, h.below⟩
    obtain ⟨hcount, hlist, hcapacity, hwell⟩ := shrink_eq hopen bound
    exact ⟨congrArg Answer.count hcount, congr (congrArg ContentStore.mk hlist) hcapacity, hwell⟩

/-- Every change to a store is the one to the plain store that it stands for. -/
theorem refines (h : store.WellFormed) (c : Change) : store.Refines c := by
  cases c with
  | lookup interest now => exact refines_lookup h interest now
  | put content isStatic now => exact refines_put h content isStatic now
  | markStale name => exact refines_markStale h name
  | markExpired now tick => exact refines_markExpired h now tick
  | expireIdle now timeout => exact refines_expireIdle h now timeout
  | flush => exact refines_flush h
  | setCapacity capacity => exact refines_setCapacity h capacity

/-- So is every run of changes. -/
theorem refines_performAll (h : store.WellFormed) (changes : List Change) :
    (store.performAll changes).1 = store.toStore.answers changes ∧
      (store.performAll changes).2.toStore = store.toStore.changeAll changes ∧
      (store.performAll changes).2.WellFormed := by
  induction changes generalizing store with
  | nil => exact ⟨rfl, rfl, h⟩
  | cons c changes ih =>
    have hstep := refines h c
    obtain ⟨hanswers, hlist, hwell⟩ := ih hstep.wellFormed
    rw [hstep.toStore] at hanswers hlist
    exact ⟨congr (congrArg List.cons hstep.answer) hanswers, hlist, hwell⟩

/-- What is found for a name is what the list has. -/
theorem get?_performAll (capacity : Option Nat) (changes : List Change) (name : Name) :
    (performAll { capacity } changes).2.get? name =
      (ContentStore.changeAll { capacity } changes).get? name := by
  obtain ⟨_, hlist, hwell⟩ := refines_performAll (.empty capacity) changes
  rw [← get?_toStore hwell, hlist]
  rfl

/-- Data that is not taken in leaves the store as it is. -/
theorem put_of_refused (store : IndexedStore) (content : Content) (isStatic : Bool) (now : Nat) :
    (store.put content isStatic now).1 = some .inserted ∨
      (store.put content isStatic now).1 = some .replaced ∨
      (store.put content isStatic now).2 = store := by
  unfold put
  split
  · exact .inr (.inr rfl)
  · split
    · split
      · split
        · exact .inr (.inr rfl)
        · exact .inr (.inl rfl)
      · exact .inr (.inl rfl)
    · split
      · rcases store.evict_cases with ⟨hevict, _⟩ | ⟨seq, e, hevict, _⟩
        · rw [hevict]
          exact .inr (.inr rfl)
        · rw [hevict]
          exact .inl rfl
      · exact .inl rfl

end

/-- Whatever is done to an indexed store from the beginning, it answers as a list does whose entries have
different keys; its index has the number of the entry for each key and nothing else; a look-up marks the
first entry that answers and no other; data that is not taken in leaves it as it is; and there are no more
entries than its capacity, unless all are static. -/
theorem list_of_performAll (capacity : Option Nat) (changes : List Change) :
    let store := (performAll { capacity } changes).2
    let entries := store.newestFirst
    (performAll { capacity } changes).1 = ContentStore.answers { capacity } changes ∧
      ({ entries, capacity := store.capacity } : ContentStore) =
        ContentStore.changeAll { capacity } changes ∧
      (entries.map (·.content.name.key)).Nodup ∧
      (∀ key (seq : Nat), store.index[key]? = some seq ↔
        ∃ e, store.entries[seq]? = some e ∧ e.content.name.key = key) ∧
      (∀ name, store.get? name = entries.find? (·.hasKey name)) ∧
      (∀ name, store.contains name = entries.any (·.hasKey name)) ∧
      store.size = entries.length ∧
      (∀ interest now,
        ((∀ e ∈ entries, e.answers interest = false) ∧
            store.lookup interest now = (none, store)) ∨
          ∃ newer e older, entries = newer ++ e :: older ∧
            (∀ x ∈ newer, x.answers interest = false) ∧ e.answers interest = true ∧
            (store.lookup interest now).1 = some e.content ∧
            (store.lookup interest now).2.newestFirst =
              newer ++ { e with served := e.served + 1, lastUsed := now } :: older) ∧
      (∀ content isStatic now,
        (store.put content isStatic now).1 = some .inserted ∨
          (store.put content isStatic now).1 = some .replaced ∨
          (store.put content isStatic now).2 = store) ∧
      ∀ bound, store.capacity = some bound →
        store.size ≤ bound ∨ ∀ e ∈ entries, e.isStatic = true := by
  dsimp only
  obtain ⟨hanswers, hlist, hwell⟩ := refines_performAll (.empty capacity) changes
  have hplain := (ContentStore.WellFormed.empty capacity).changeAll changes
  have hbounded := (ContentStore.Bounded.empty capacity).changeAll changes
  have hempty : toStore { capacity } = { capacity } := rfl
  rw [hempty] at hanswers hlist
  rw [← hlist] at hplain hbounded
  refine ⟨hanswers, hlist, hplain.nodup, hwell.index, fun name => (get?_toStore hwell name).symm,
    fun name => (contains_toStore hwell name).symm, (length_newestFirst _).symm, lookup_cases _,
    put_of_refused _, fun bound hbound => ?_⟩
  rw [← length_newestFirst]
  exact hbounded bound hbound

end IndexedStore

end NamedFunctions
