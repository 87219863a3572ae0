import NamedFunctions.Proofs.ContentStore.Change

/-!
# How many entries there are

The entry that makes room for another is the one that was used longest ago, of several the oldest; only
static entries never do. So a store has no more entries than its capacity, unless all of them are static.
-/

namespace NamedFunctions.ContentStore

/-- The oldest of the entries that were used longest ago makes room. -/
theorem evict_append_cons {newer older : List CacheEntry} {e : CacheEntry}
    (hstatic : e.isStatic = false)
    (hnewer : ∀ x ∈ newer, x.isStatic = false → e.lastUsed ≤ x.lastUsed)
    (holder : ∀ x ∈ older, x.isStatic = false → e.lastUsed < x.lastUsed) :
    evict (newer ++ e :: older) = some (newer ++ older) := by
  have hmem : e ∈ (newer ++ e :: older).filter (!·.isStatic) :=
    List.mem_filter.mpr ⟨List.mem_append_right _ List.mem_cons_self, by simp [hstatic]⟩
  have holdest : oldestUse (newer ++ e :: older) = some e.lastUsed := by
    refine List.min?_eq_some_iff.mpr ⟨List.mem_map_of_mem hmem, ?_⟩
    intro tick htick
    obtain ⟨x, hx, rfl⟩ := List.mem_map.mp htick
    obtain ⟨hx, hmoves⟩ := List.mem_filter.mp hx
    rw [Bool.not_eq_true'] at hmoves
    rcases List.mem_append.mp hx with hx | hx
    · exact hnewer x hx hmoves
    · rcases List.mem_cons.mp hx with rfl | hx
      · exact Nat.le_refl _
      · exact Nat.le_of_lt (holder x hx hmoves)
  have hothers : ∀ x ∈ older.reverse, ¬ (!x.isStatic && x.lastUsed == e.lastUsed) = true := by
    intro x hx h
    simp only [Bool.and_eq_true, Bool.not_eq_true', beq_iff_eq] at h
    exact absurd (holder x (List.mem_reverse.mp hx) h.1) (h.2 ▸ Nat.lt_irrefl _)
  rw [evict, holdest, Option.map_some, List.reverse_append, List.reverse_cons, List.append_assoc,
    List.eraseP_append_right _ hothers, List.singleton_append,
    List.eraseP_cons_of_pos (by simp [hstatic])]
  simp

/-- Nothing makes room if all entries are static. -/
theorem evict_of_static {entries : List CacheEntry} (h : ∀ e ∈ entries, e.isStatic = true) :
    evict entries = none := by
  have hnone : entries.filter (!·.isStatic) = [] := by
    rw [List.filter_eq_nil_iff]
    intro e he
    simp [h e he]
  rw [evict, oldestUse, hnone]
  rfl

private theorem isStatic_of_evict {entries : List CacheEntry} (h : evict entries = none) :
    ∀ e ∈ entries, e.isStatic = true := by
  have hnone := List.min?_eq_none_iff.mp (Option.map_eq_none_iff.mp h)
  rw [List.map_eq_nil_iff, List.filter_eq_nil_iff] at hnone
  intro e he
  simpa using hnone e he

/-- One entry makes room. -/
theorem length_evict {entries entries' : List CacheEntry} (h : evict entries = some entries') :
    entries'.length + 1 = entries.length := by
  obtain ⟨tick, htick, rfl⟩ := Option.map_eq_some_iff.mp h
  obtain ⟨e, he, rfl⟩ := List.mem_map.mp (List.min?_mem htick)
  obtain ⟨hmem, hmoves⟩ := List.mem_filter.mp he
  have hpos : 0 < entries.length := List.length_pos_of_mem hmem
  rw [List.length_reverse,
    List.length_eraseP_of_mem (List.mem_reverse.mpr hmem) (by simpa using hmoves),
    List.length_reverse]
  omega

/-- As many entries make room as are asked to, or all that are left are static. -/
theorem length_evictMany (n : Nat) (entries : List CacheEntry) :
    (evictMany n entries).2.length + n = entries.length ∨
      (∀ e ∈ (evictMany n entries).2, e.isStatic = true) := by
  induction n generalizing entries with
  | zero => exact .inl rfl
  | succ n ih =>
    unfold evictMany
    split
    · next hnone => exact .inr (isStatic_of_evict hnone)
    · next entries' hevict =>
      have hlength := length_evict hevict
      rcases ih entries' with hrest | hrest
      · left
        dsimp only
        omega
      · exact .inr hrest

/-- Whether there are no more entries than the capacity, unless all are static. -/
def Bounded (store : ContentStore) : Prop :=
  ∀ bound, store.capacity = some bound →
    store.entries.length ≤ bound ∨ ∀ e ∈ store.entries, e.isStatic = true

namespace Bounded

variable {store : ContentStore}

private theorem marked (h : store.Bounded) {entries : List CacheEntry}
    (hmarked : List.Forall₂ CacheEntry.Marked store.entries entries) :
    Bounded { store with entries } := by
  intro bound hbound
  rcases h bound hbound with hlength | hstatic
  · exact .inl (hmarked.length_eq ▸ hlength)
  · right
    intro e' he'
    obtain ⟨e, he, hsame⟩ := exists_of_marked hmarked he'
    rw [hsame.isStatic]
    exact hstatic e he

private theorem sublist (h : store.Bounded) {entries : List CacheEntry}
    (hsublist : entries.Sublist store.entries) : Bounded { store with entries } := by
  intro bound hbound
  rcases h bound hbound with hlength | hstatic
  · exact .inl (Nat.le_trans hsublist.length_le hlength)
  · exact .inr fun e he => hstatic e (hsublist.subset he)

/-- Data that takes the place of other data is static if that was. -/
theorem replace (h : store.Bounded) {content : Content} {old : CacheEntry}
    (hold : store.get? content.name = some old) (isStatic : Bool) (now : Nat) :
    Bounded
      { store with
        entries := .fresh content (isStatic || old.isStatic) now ::
          store.entries.filter fun e => !e.hasKey content.name } := by
  obtain ⟨hmem, hkey⟩ := mem_of_get? hold
  intro bound hbound
  rcases h bound hbound with hlength | hstatic
  · left
    have hless : (store.entries.filter fun e => !e.hasKey content.name).length <
        store.entries.length := by
      refine List.length_filter_lt_length_iff_exists.mpr ⟨old, hmem, ?_⟩
      simp [CacheEntry.hasKey_iff.mpr hkey]
    exact Nat.lt_of_lt_of_le hless hlength
  · right
    intro e he
    rcases List.mem_cons.mp he with rfl | he
    · simp [CacheEntry.fresh, hstatic old hmem]
    · exact hstatic e (List.mem_of_mem_filter he)

/-- An entry is made room for before it is put in, if the store is full. -/
theorem insert (h : store.Bounded) (hcaching : store.capacity ≠ some 0) {entries : List CacheEntry}
    (hroom : store.makeRoom = some entries) (e : CacheEntry) :
    Bounded { store with entries := e :: entries } := by
  intro bound hbound
  change store.capacity = some bound at hbound
  left
  rw [List.length_cons]
  have hpos : bound ≠ 0 := fun hzero => hcaching (hzero ▸ hbound)
  unfold makeRoom at hroom
  split at hroom
  · rcases h bound hbound with hlength | hstatic
    · have := length_evict hroom
      omega
    · rw [evict_of_static hstatic] at hroom
      cases hroom
  · next hspace =>
    cases hroom
    simp only [hbound, Option.any_some, decide_eq_true_eq] at hspace
    omega

private theorem put (h : store.Bounded) (content : Content) (isStatic : Bool) (now : Nat) :
    (store.change (.put content isStatic now)).Bounded := by
  unfold ContentStore.change ContentStore.put
  dsimp only
  split
  · exact h
  · next hcaching =>
    split
    · next old hold =>
      split
      · exact h
      · exact h.replace hold isStatic now
    · cases hroom : store.makeRoom with
      | none => exact h
      | some entries => exact h.insert hcaching hroom _

private theorem setCapacity (entries : List CacheEntry) (bound : Nat) :
    Bounded
      { entries := (evictMany (entries.length - bound) entries).2, capacity := some bound } := by
  rintro _ ⟨⟩
  refine (length_evictMany (entries.length - bound) entries).imp_left fun hlength => ?_
  dsimp only
  omega

/-- Every change keeps the bound. -/
theorem change (h : store.Bounded) (c : Change) : (store.change c).Bounded := by
  cases c with
  | lookup interest now =>
    change Bounded (((serveFirst interest now store.entries).map _).map _ |>.getD store)
    cases hserve : serveFirst interest now store.entries with
    | none => exact h
    | some found => exact h.marked (marked_serveFirst hserve)
  | put content isStatic now => exact h.put content isStatic now
  | markStale name => exact h.marked (marked_map (by simp) _)
  | markExpired now tick =>
    exact h.marked (marked_map (by simp +contextual [CacheEntry.isExpired]) _)
  | expireIdle now timeout => exact h.sublist List.filter_sublist
  | flush => exact h.sublist List.filter_sublist
  | setCapacity capacity =>
    cases capacity with
    | none =>
      rintro _ ⟨⟩
    | some bound => exact setCapacity store.entries bound

end Bounded

end NamedFunctions.ContentStore
