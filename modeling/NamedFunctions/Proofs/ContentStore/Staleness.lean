import NamedFunctions.Proofs.ContentStore.Eviction

/-!
# What makes data stale

An entry keeps its number as long as it is there, with its data and the tick at which it was put in. It
becomes stale when it is named, or with a sweep after its freshness has run out, and stays so. Numbers of
entries that are gone are not given to others.
-/

namespace NamedFunctions

namespace CacheEntry

/-- Whether the freshness of the data of an entry is over at a tick. -/
def Outlived (e : CacheEntry) (now : Nat) (tick : Duration) : Prop :=
  ∃ freshness, e.content.freshness = some freshness ∧
    freshness.milliseconds ≤ (now - e.storedAt) * max tick.milliseconds 1

/-- A period is over if as many ticks have passed as it takes to fill it. -/
theorem isExpired_iff {e : CacheEntry} {now : Nat} {tick : Duration} :
    e.isExpired now tick = true ↔ e.isStatic = false ∧ e.isStale = false ∧ e.Outlived now tick := by
  have hperiod (milliseconds : Nat) :
      (milliseconds + max tick.milliseconds 1 - 1) / max tick.milliseconds 1 ≤ now - e.storedAt ↔
        milliseconds ≤ (now - e.storedAt) * max tick.milliseconds 1 := by
    have hpos : 0 < max tick.milliseconds 1 := by omega
    rw [Nat.div_le_iff_le_mul_add_pred hpos, Nat.mul_comm]
    omega
  unfold isExpired Outlived
  cases e.content.freshness <;> simp [hperiod, and_assoc]

/-- More time is over later. -/
theorem Outlived.mono {e : CacheEntry} {now later : Nat} {tick : Duration} (h : e.Outlived now tick)
    (hle : now ≤ later) : e.Outlived later tick := by
  obtain ⟨freshness, hfreshness, hover⟩ := h
  exact ⟨freshness, hfreshness, hover.trans (Nat.mul_le_mul_right _ (Nat.sub_le_sub_right hle _))⟩

/-- Whether an entry is the same as another one but for its uses, and that it may have become stale. -/
structure Aged (stale : Prop) (e e' : CacheEntry) : Prop where
  content : e'.content = e.content
  isStatic : e'.isStatic = e.isStatic
  storedAt : e'.storedAt = e.storedAt
  isStale : e'.isStale = true ↔ e.isStale = true ∨ stale

namespace Aged

variable {e e' e'' : CacheEntry} {stale stale' : Prop}

private theorem rfl : Aged False e e := ⟨.refl _, .refl _, .refl _, by simp⟩

private theorem trans (h : Aged stale e e') (h' : Aged stale' e' e'') : Aged (stale ∨ stale') e e'' :=
  ⟨h'.content.trans h.content, h'.isStatic.trans h.isStatic, h'.storedAt.trans h.storedAt, by
    rw [h'.isStale, h.isStale, or_assoc]⟩

/-- The condition of becoming stale may be put in another way. -/
theorem congr (h : Aged stale e e') (hiff : stale ↔ stale') : Aged stale' e e' :=
  { h with isStale := h.isStale.trans (or_congr_right hiff) }

end Aged

end CacheEntry

namespace ContentStore

/-- Whether a change lets an entry become stale that is not. -/
def Change.Spoils : Change → CacheEntry → Prop
  | .markStale name, e => e.isStatic = false ∧ e.content.name.key = name.key
  | .markExpired now tick, e => e.isStatic = false ∧ e.Outlived now tick
  | _, _ => False

/-- Entries that are the same become stale alike. -/
theorem Change.spoils_iff {e e' : CacheEntry} {stale : Prop} (h : e.Aged stale e') (c : Change) :
    c.Spoils e' ↔ c.Spoils e := by
  cases c with
  | markStale name => rw [Spoils, Spoils, h.isStatic, h.content]
  | markExpired now tick =>
    rw [Spoils, Spoils, h.isStatic, CacheEntry.Outlived, CacheEntry.Outlived, h.content, h.storedAt]
  | _ => exact Iff.rfl

end ContentStore

namespace IndexedStore

open ContentStore (Change)

variable {store : IndexedStore} {seq : Nat} {e' : CacheEntry}

/-- Rows that are left are as they were. -/
theorem getElem?_of_rows {store' : IndexedStore} {keep : Nat × CacheEntry → Bool}
    (hrows : store'.rows = store.rows.filter keep) (he' : store'.entries[seq]? = some e') :
    store.entries[seq]? = some e' := by
  rw [← mem_rows, hrows] at he'
  exact mem_rows.mp (List.mem_of_mem_filter he')

/-- Data is put in next to the others, once one of them is removed if need be, or not at all. -/
theorem put_cases (store : IndexedStore) (content : Content) (isStatic : Bool) (now : Nat) :
    (store.put content isStatic now).2 = store ∨
      (∃ isStatic', (store.put content isStatic now).2 = store.insert content isStatic' now) ∨
      ∃ seq isStatic',
        (store.put content isStatic now).2 = (store.remove seq).2.insert content isStatic' now := by
  unfold put
  split
  · exact .inl rfl
  · split
    · next seq _ =>
      split
      · split
        · exact .inl rfl
        · exact .inr (.inr ⟨seq, _, rfl⟩)
      · exact .inr (.inr ⟨seq, _, rfl⟩)
    · split
      · rcases store.evict_cases with ⟨hevict, -⟩ | ⟨seq, e, hevict, -⟩
        · rw [hevict]
          exact .inl rfl
        · rw [hevict]
          exact .inr (.inr ⟨seq, _, rfl⟩)
      · exact .inr (.inl ⟨_, rfl⟩)

private theorem getElem?_lookup {interest : Interest} {now : Nat}
    (he' : (store.lookup interest now).2.entries[seq]? = some e') :
    ∃ e, store.entries[seq]? = some e ∧ e.Aged False e' := by
  unfold lookup at he'
  split at he'
  · exact ⟨e', he', .rfl⟩
  · rw [getElem?_modify] at he'
    split at he'
    · obtain ⟨e, he, rfl⟩ := Option.map_eq_some_iff.mp he'
      exact ⟨e, he, rfl, rfl, rfl, by simp⟩
    · exact ⟨e', he', .rfl⟩

private theorem getElem?_put {content : Content} {isStatic : Bool} {now : Nat}
    (he' : (store.put content isStatic now).2.entries[seq]? = some e') :
    store.entries[seq]? = some e' ∨
      seq = store.nextSeq ∧ ∃ isStatic', e' = .fresh content isStatic' now := by
  rcases store.put_cases content isStatic now with hput | ⟨isStatic', hput⟩ | ⟨x, isStatic', hput⟩
  · rw [hput] at he'
    exact .inl he'
  · rw [hput, getElem?_insert] at he'
    split at he'
    · next hseq => exact .inr ⟨hseq.symm, isStatic', (Option.some.inj he').symm⟩
    · exact .inl he'
  · rw [hput, getElem?_insert, remove_nextSeq] at he'
    split at he'
    · next hseq => exact .inr ⟨hseq.symm, isStatic', (Option.some.inj he').symm⟩
    · rw [getElem?_remove] at he'
      split at he'
      · cases he'
      · exact .inl he'

/-- The entry for a name becomes stale, unless it is static. -/
theorem getElem?_markStale (h : store.WellFormed) {name : Name}
    (he' : (store.markStale name).2.entries[seq]? = some e') :
    ∃ e, store.entries[seq]? = some e ∧ e.Aged ((Change.markStale name).Spoils e) e' := by
  have hmiss (hother : ∀ e, store.entries[seq]? = some e → ¬ (Change.markStale name).Spoils e)
      (he' : store.entries[seq]? = some e') :
      ∃ e, store.entries[seq]? = some e ∧ e.Aged ((Change.markStale name).Spoils e) e' :=
    ⟨e', he', CacheEntry.Aged.rfl.congr (iff_of_false id (hother e' he'))⟩
  have hkey {e : CacheEntry} (he : store.entries[seq]? = some e)
      (hkey : e.content.name.key = name.key) : store.index[name.key]? = some seq :=
    (h.index _ _).mpr ⟨e, he, hkey⟩
  unfold markStale at he'
  split at he'
  · next hnone =>
    refine hmiss (fun e he hspoils => ?_) he'
    rw [hkey he hspoils.2] at hnone
    cases hnone
  · next x hx =>
    split at he'
    · next hnone =>
      refine hmiss (fun e he hspoils => ?_) he'
      obtain rfl : seq = x := Option.some.inj ((hkey he hspoils.2).symm.trans hx)
      rw [he] at hnone
      cases hnone
    · next found hfound =>
      split at he'
      · next hstatic =>
        refine hmiss (fun e he hspoils => ?_) he'
        obtain rfl : seq = x := Option.some.inj ((hkey he hspoils.2).symm.trans hx)
        obtain rfl : found = e := Option.some.inj (hfound.symm.trans he)
        cases hstatic.symm.trans hspoils.1
      · next hmoves =>
        rw [getElem?_modify] at he'
        split at he'
        · next hseq =>
          subst hseq
          obtain ⟨e, he, hnamed⟩ := (h.index _ _).mp hx
          obtain rfl : found = e := Option.some.inj (hfound.symm.trans he)
          rw [he] at he'
          cases he'
          exact ⟨found, he, rfl, rfl, rfl, by simp [Change.Spoils, hmoves, hnamed]⟩
        · next hseq =>
          refine hmiss (fun e he hspoils => hseq ?_) he'
          exact Option.some.inj (hx.symm.trans (hkey he hspoils.2))

private theorem getElem?_markExpired {now : Nat} {tick : Duration}
    (he' : (store.markExpired now tick).2.entries[seq]? = some e') :
    ∃ e, store.entries[seq]? = some e ∧ e.Aged ((Change.markExpired now tick).Spoils e) e' := by
  have hmap : (store.markExpired now tick).2.entries[seq]? =
      store.entries[seq]?.map fun e => if e.isExpired now tick then { e with isStale := true } else e :=
    Std.TreeMap.getElem?_map
  rw [hmap] at he'
  obtain ⟨e, he, rfl⟩ := Option.map_eq_some_iff.mp he'
  refine ⟨e, he, ?_⟩
  split
  · next hexpired =>
    obtain ⟨hmoves, -, hover⟩ := CacheEntry.isExpired_iff.mp hexpired
    exact ⟨rfl, rfl, rfl, by simp [Change.Spoils, hmoves, hover]⟩
  · next hexpired =>
    refine ⟨rfl, rfl, rfl, (or_iff_left_of_imp ?_).symm⟩
    rintro ⟨hmoves, hover⟩
    rw [CacheEntry.isExpired_iff] at hexpired
    simpa [hmoves, hover] using hexpired

/-- After a change an entry is there that was there before, stale if it was or becomes so, or one that has
just been put in. -/
theorem getElem?_perform (h : store.WellFormed) (c : Change)
    (he' : (store.perform c).2.entries[seq]? = some e') :
    (∃ e, store.entries[seq]? = some e ∧ e.Aged (c.Spoils e) e') ∨
      seq = store.nextSeq ∧ ∃ content isStatic isStatic' now, c = .put content isStatic now ∧
        e' = .fresh content isStatic' now := by
  cases c with
  | lookup interest now => exact .inl (getElem?_lookup he')
  | put content isStatic now =>
    rcases getElem?_put he' with he | ⟨hseq, isStatic', hfresh⟩
    · exact .inl ⟨e', he, .rfl⟩
    · exact .inr ⟨hseq, content, isStatic, isStatic', now, rfl, hfresh⟩
  | markStale name => exact .inl (getElem?_markStale h he')
  | markExpired now tick => exact .inl (getElem?_markExpired he')
  | expireIdle now timeout => exact .inl ⟨e', getElem?_of_rows (rows_removeAll _ _) he', .rfl⟩
  | flush => exact .inl ⟨e', getElem?_of_rows (rows_removeAll _ _) he', .rfl⟩
  | setCapacity capacity =>
    cases capacity with
    | none => exact .inl ⟨e', he', .rfl⟩
    | some bound =>
      have hrows := (shrink_eq_drop { store with capacity := some bound } bound).2.1
      exact .inl ⟨e', getElem?_of_rows hrows he', .rfl⟩

private theorem removeAll_nextSeq (store : IndexedStore) (seqs : List Nat) :
    (store.removeAll seqs).2.nextSeq = store.nextSeq := by
  induction seqs generalizing store with
  | nil => rfl
  | cons seq seqs ih => exact (ih _).trans (store.remove_nextSeq seq)

private theorem shrink_nextSeq (store : IndexedStore) (bound : Nat) :
    (store.shrink bound).2.nextSeq = store.nextSeq := by
  fun_induction shrink store bound with
  | case1 store hlt store' hevict =>
    rcases store.evict_cases with ⟨hstore, -⟩ | ⟨seq, e, hsome, -⟩
    · cases hevict.symm.trans hstore
      rfl
    · cases hevict.symm.trans hsome
  | case2 store hlt e store' hevict hless evicted store'' hshrink ih =>
    rcases store.evict_cases with ⟨hstore, -⟩ | ⟨seq, e', hsome, -⟩
    · cases hevict.symm.trans hstore
    · cases hevict.symm.trans hsome
      rw [hshrink] at ih
      exact ih.trans (store.remove_nextSeq seq)
  | case3 => rfl

/-- Numbers are given out one after the other. -/
theorem nextSeq_le_perform (store : IndexedStore) (c : Change) :
    store.nextSeq ≤ (store.perform c).2.nextSeq := by
  cases c with
  | lookup interest now =>
    change store.nextSeq ≤ (store.lookup interest now).2.nextSeq
    unfold lookup
    split <;> exact Nat.le_refl _
  | put content isStatic now =>
    change store.nextSeq ≤ (store.put content isStatic now).2.nextSeq
    rcases store.put_cases content isStatic now with hput | ⟨isStatic', hput⟩ | ⟨x, isStatic', hput⟩
    · rw [hput]
    · rw [hput]
      exact Nat.le_succ _
    · rw [hput]
      exact (store.remove_nextSeq x).symm.le.trans (Nat.le_succ _)
  | markStale name =>
    change store.nextSeq ≤ (store.markStale name).2.nextSeq
    unfold markStale
    split
    · exact Nat.le_refl _
    · split
      · exact Nat.le_refl _
      · split <;> exact Nat.le_refl _
  | markExpired now tick => exact Nat.le_refl _
  | expireIdle now timeout => exact (store.removeAll_nextSeq _).symm.le
  | flush => exact (store.removeAll_nextSeq _).symm.le
  | setCapacity capacity =>
    cases capacity with
    | none => exact Nat.le_refl _
    | some bound => exact (shrink_nextSeq { store with capacity := some bound } bound).symm.le

/-- After some changes an entry is there that was there before, stale if it was or has become so, or one
that has been put in under a number that was not in use. -/
theorem getElem?_performAll (h : store.WellFormed) (changes : List Change)
    (he' : (store.performAll changes).2.entries[seq]? = some e') :
    (∃ e, store.entries[seq]? = some e ∧ e.Aged (∃ c ∈ changes, c.Spoils e) e') ∨
      store.nextSeq ≤ seq ∧ (∃ isStatic, .put e'.content isStatic e'.storedAt ∈ changes) ∧
        (e'.isStale = true → ∃ c ∈ changes, c.Spoils e') := by
  induction changes generalizing store with
  | nil => exact .inl ⟨e', he', CacheEntry.Aged.rfl.congr (by simp)⟩
  | cons c changes ih =>
    rcases ih (refines h c).wellFormed he' with ⟨e₁, he₁, haged⟩ | ⟨hseq, ⟨isStatic, hput⟩, hstale⟩
    · rcases getElem?_perform h c he₁ with
        ⟨e, he, hfirst⟩ | ⟨rfl, content, isStatic, isStatic', now, rfl, rfl⟩
      · refine .inl ⟨e, he, (hfirst.trans haged).congr ?_⟩
        simp only [List.exists_mem_cons_iff, Change.spoils_iff hfirst]
      · refine .inr ⟨Nat.le_refl _, ⟨isStatic, ?_⟩, fun hstale => ?_⟩
        · rw [haged.content, haged.storedAt]
          exact List.mem_cons_self
        · obtain ⟨c, hc, hspoils⟩ := (haged.isStale.mp hstale).resolve_left Bool.false_ne_true
          exact ⟨c, List.mem_cons_of_mem _ hc, (Change.spoils_iff haged c).mpr hspoils⟩
    · refine .inr ⟨(store.nextSeq_le_perform c).trans hseq,
        ⟨isStatic, List.mem_cons_of_mem _ hput⟩, fun h => ?_⟩
      obtain ⟨c, hc, hspoils⟩ := hstale h
      exact ⟨c, List.mem_cons_of_mem _ hc, hspoils⟩

end IndexedStore

end NamedFunctions
