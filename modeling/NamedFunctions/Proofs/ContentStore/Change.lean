import Mathlib.Data.List.Forall2
import Mathlib.Data.List.Nodup
import NamedFunctions.Proofs.ContentStore
import NamedFunctions.Proofs.Packet.Matching

/-!
# What becomes of stored data

All that is done to a content store comes to one of a few things: entries are marked where they are, some
that are not static are taken out, or data is put in. What holds of static entries follows from these,
however the entries to be taken out are chosen.
-/

namespace NamedFunctions

namespace CacheEntry

/-- The entry of data that is put into a store. -/
def fresh (content : Content) (isStatic : Bool) (now : Nat) : CacheEntry :=
  { content, isStatic, storedAt := now, lastUsed := now }

/-- An entry is kept under a name if the keys are the same. -/
theorem hasKey_iff {e : CacheEntry} {name : Name} :
    e.hasKey name = true ↔ e.content.name.key = name.key := Name.agrees_exact_iff

/-- Whether an entry has at most been used, or become stale without being static. -/
structure Marked (e e' : CacheEntry) : Prop where
  content : e'.content = e.content
  isStatic : e'.isStatic = e.isStatic
  isStale : e.isStatic = true → e'.isStale = e.isStale

private theorem Marked.rfl {e : CacheEntry} : e.Marked e := ⟨.refl _, .refl _, fun _ => .refl _⟩

end CacheEntry

namespace ContentStore

/-- What can be done to a store. -/
inductive Change where
  | lookup (interest : Interest) (now : Nat)
  | put (content : Content) (isStatic : Bool) (now : Nat)
  | markStale (name : Name)
  | markExpired (now : Nat) (tick : Duration)
  | expireIdle (now timeout : Nat)
  | flush
  | setCapacity (capacity : Option Nat)

/-- The store after a change, which may leave it as it was. -/
def change (store : ContentStore) : Change → ContentStore
  | .lookup interest now => ((store.lookup interest now).map (·.2)).getD store
  | .put content isStatic now => ((store.put content isStatic now).map (·.2)).getD store
  | .markStale name => (store.markStale name).2
  | .markExpired now tick => (store.markExpired now tick).2
  | .expireIdle now timeout => (store.expireIdle now timeout).2
  | .flush => store.flush.2
  | .setCapacity capacity => (store.setCapacity capacity).2

/-- Whether entries have been taken out, none of them static. -/
structure Thinned (entries entries' : List CacheEntry) : Prop where
  sublist : entries'.Sublist entries
  static : ∀ e ∈ entries, e.isStatic = true → e ∈ entries'

namespace Thinned

variable {entries entries' entries'' : List CacheEntry}

private theorem refl (entries : List CacheEntry) : Thinned entries entries :=
  ⟨.refl _, fun _ he _ => he⟩

private theorem trans (h : Thinned entries entries') (h' : Thinned entries' entries'') :
    Thinned entries entries'' :=
  ⟨h'.sublist.trans h.sublist, fun e he hstatic => h'.static e (h.static e he hstatic) hstatic⟩

private theorem filter {keep : CacheEntry → Bool} (hkeep : ∀ e, e.isStatic = true → keep e = true)
    (entries : List CacheEntry) : Thinned entries (entries.filter keep) :=
  ⟨List.filter_sublist, fun e he hstatic => List.mem_filter.mpr ⟨he, hkeep e hstatic⟩⟩

/-- The entry that makes room is not static. -/
theorem evict (h : evict entries = some entries') : Thinned entries entries' := by
  obtain ⟨tick, -, rfl⟩ := Option.map_eq_some_iff.mp h
  constructor
  · rw [← List.reverse_sublist, List.reverse_reverse]
    exact List.eraseP_sublist
  · intro e he hstatic
    rw [List.mem_reverse, List.mem_eraseP_of_neg (by simp [hstatic]), List.mem_reverse]
    exact he

/-- Giving up entries leaves the others as they are. -/
theorem evictMany (n : Nat) (entries : List CacheEntry) :
    Thinned entries (evictMany n entries).2 := by
  induction n generalizing entries with
  | zero => exact .refl entries
  | succ n ih =>
    unfold ContentStore.evictMany
    split
    · exact .refl entries
    · next hevict => exact (Thinned.evict hevict).trans (ih _)

/-- Making room leaves the others as they are. -/
theorem makeRoom {store : ContentStore} (h : store.makeRoom = some entries') :
    Thinned store.entries entries' := by
  unfold ContentStore.makeRoom at h
  split at h
  · exact .evict h
  · cases h
    exact .refl _

end Thinned

/-- What a change comes to. -/
inductive Changed (store : ContentStore) : Change → ContentStore → Prop where
  /-- Entries are marked where they are. -/
  | marked {c : Change} {entries : List CacheEntry}
      (h : List.Forall₂ CacheEntry.Marked store.entries entries) :
      Changed store c { store with entries }
  /-- Entries are taken out. -/
  | thinned {c : Change} {entries : List CacheEntry} (capacity : Option Nat)
      (h : Thinned store.entries entries) : Changed store c { entries, capacity }
  /-- There was no data under the name. -/
  | inserted {content : Content} {isStatic : Bool} {now : Nat} {entries : List CacheEntry}
      (hnone : store.get? content.name = none) (h : Thinned store.entries entries) :
      Changed store (.put content isStatic now)
        { store with entries := .fresh content isStatic now :: entries }
  /-- There was other data under the name, whose place is taken. -/
  | replaced {content : Content} {isStatic : Bool} {now : Nat} {old : CacheEntry}
      (hold : store.get? content.name = some old)
      (hne : old.content.payload ≠ content.payload) :
      Changed store (.put content isStatic now)
        { store with
          entries := .fresh content (isStatic || old.isStatic) now ::
            store.entries.filter fun e => !e.hasKey content.name }

/-- A change may leave a store as it is. -/
theorem Changed.same (store : ContentStore) (c : Change) : Changed store c store :=
  .marked (List.forall₂_same.mpr fun _ _ => .rfl)

/-- Serving data marks entries at most. -/
theorem marked_serveFirst {interest : Interest} {now : Nat} {content : Content}
    {entries entries' : List CacheEntry}
    (h : serveFirst interest now entries = some (content, entries')) :
    List.Forall₂ CacheEntry.Marked entries entries' := by
  induction entries generalizing entries' with
  | nil => cases h
  | cons e older ih =>
    rw [serveFirst] at h
    split at h
    · cases h
      exact .cons ⟨rfl, rfl, fun _ => rfl⟩ (List.forall₂_same.mpr fun _ _ => .rfl)
    · obtain ⟨⟨content', older'⟩, hserve, heq⟩ := Option.map_eq_some_iff.mp h
      cases heq
      exact .cons .rfl (ih hserve)

/-- Entries that are not static may become stale. -/
theorem marked_map {hit : CacheEntry → Bool}
    (hhit : ∀ e, hit e = true → e.isStatic = false) (entries : List CacheEntry) :
    List.Forall₂ CacheEntry.Marked entries
      (entries.map fun e => if hit e then { e with isStale := true } else e) := by
  rw [List.forall₂_map_right_iff, List.forall₂_same]
  intro e _
  split
  · next h => exact ⟨rfl, rfl, fun hstatic => by simp [hhit e h] at hstatic⟩
  · exact .rfl

private theorem changed_lookup (store : ContentStore) (interest : Interest) (now : Nat) :
    Changed store (.lookup interest now) (store.change (.lookup interest now)) := by
  change Changed store _ (((serveFirst interest now store.entries).map _).map _ |>.getD store)
  cases hserve : serveFirst interest now store.entries with
  | none => exact .same store _
  | some found => exact .marked (marked_serveFirst hserve)

private theorem changed_put (store : ContentStore) (content : Content) (isStatic : Bool) (now : Nat) :
    Changed store (.put content isStatic now) (store.change (.put content isStatic now)) := by
  unfold change put
  dsimp only
  split
  · exact .same store _
  · split
    · next old hold =>
      split
      · exact .same store _
      · next hne => exact .replaced hold hne
    · next hnone =>
      cases hroom : store.makeRoom with
      | none => exact .same store _
      | some entries => exact .inserted hnone (.makeRoom hroom)

/-- Every change comes to one of these. -/
theorem changed (store : ContentStore) (c : Change) : Changed store c (store.change c) := by
  cases c with
  | lookup interest now => exact changed_lookup store interest now
  | put content isStatic now => exact changed_put store content isStatic now
  | markStale name => exact .marked (marked_map (by simp) _)
  | markExpired now tick => exact .marked (marked_map (by simp +contextual [CacheEntry.isExpired]) _)
  | expireIdle now timeout =>
    exact .thinned _ (.filter (by simp +contextual [CacheEntry.isIdle]) _)
  | flush => exact .thinned _ (.filter (fun _ h => h) _)
  | setCapacity capacity =>
    cases capacity with
    | none => exact .thinned _ (.refl _)
    | some bound => exact .thinned _ (.evictMany _ _)

/-- Only a change of the capacity changes it. -/
theorem capacity_change (store : ContentStore) {c : Change}
    (hc : ∀ capacity, c ≠ .setCapacity capacity) : (store.change c).capacity = store.capacity := by
  cases c with
  | lookup interest now =>
    change (((serveFirst interest now store.entries).map _).map _ |>.getD store).capacity = _
    cases serveFirst interest now store.entries <;> rfl
  | put content isStatic now =>
    unfold change put
    dsimp only
    split
    · rfl
    · split
      · split <;> rfl
      · cases store.makeRoom <;> rfl
  | setCapacity capacity => exact absurd rfl (hc capacity)
  | _ => rfl

/-- Whether no two entries are for the same name, and none is static and stale. -/
structure WellFormed (store : ContentStore) : Prop where
  nodup : (store.entries.map (·.content.name.key)).Nodup
  fresh : ∀ e ∈ store.entries, e.isStatic = true → e.isStale = false

private theorem keys_of_marked {entries entries' : List CacheEntry}
    (h : List.Forall₂ CacheEntry.Marked entries entries') :
    entries'.map (·.content.name.key) = entries.map (·.content.name.key) := by
  induction h with
  | nil => rfl
  | cons hmarked _ ih => rw [List.map_cons, List.map_cons, ih, hmarked.content]

/-- An entry that is marked was there before. -/
theorem exists_of_marked {entries entries' : List CacheEntry}
    (h : List.Forall₂ CacheEntry.Marked entries entries') {e' : CacheEntry} (he' : e' ∈ entries') :
    ∃ e ∈ entries, e.Marked e' := by
  obtain ⟨i, hi, rfl⟩ := List.mem_iff_getElem.mp he'
  have hi' : i < entries.length := h.length_eq ▸ hi
  exact ⟨entries[i], List.getElem_mem hi', h.get hi' hi⟩

/-- An entry that is there is only marked. -/
theorem exists_marked {entries entries' : List CacheEntry}
    (h : List.Forall₂ CacheEntry.Marked entries entries') {e : CacheEntry} (he : e ∈ entries) :
    ∃ e' ∈ entries', e.Marked e' := by
  obtain ⟨i, hi, rfl⟩ := List.mem_iff_getElem.mp he
  have hi' : i < entries'.length := h.length_eq ▸ hi
  exact ⟨entries'[i], List.getElem_mem hi', h.get hi hi'⟩

/-- No entry is found under a name if none has its key. -/
theorem get?_eq_none_iff {store : ContentStore} {name : Name} :
    store.get? name = none ↔ ∀ e ∈ store.entries, e.content.name.key ≠ name.key := by
  simp only [get?, List.find?_eq_none, CacheEntry.hasKey_iff, ne_eq]

/-- An entry that is found is in the store and has the key. -/
theorem mem_of_get? {store : ContentStore} {name : Name} {e : CacheEntry}
    (h : store.get? name = some e) : e ∈ store.entries ∧ e.content.name.key = name.key := by
  have hkey := List.find?_some h
  exact ⟨List.mem_of_find?_eq_some h, CacheEntry.hasKey_iff.mp hkey⟩

namespace WellFormed

variable {store : ContentStore}

/-- A store without entries is well formed. -/
theorem empty (capacity : Option Nat) : WellFormed { capacity } :=
  ⟨List.nodup_nil, fun _ he => absurd he List.not_mem_nil⟩

/-- The entry for a name is the only one. -/
theorem eq_of_key (h : store.WellFormed) {e e' : CacheEntry} (he : e ∈ store.entries)
    (he' : e' ∈ store.entries) (hkey : e.content.name.key = e'.content.name.key) : e = e' :=
  List.inj_on_of_nodup_map h.nodup he he' hkey

/-- Every change keeps a store well-formed. -/
theorem change (h : store.WellFormed) (c : Change) : (store.change c).WellFormed := by
  have hchanged := store.changed c
  generalize store.change c = store' at hchanged
  cases hchanged with
  | marked hmarked =>
    refine ⟨?_, fun e' he' hstatic => ?_⟩
    · rw [keys_of_marked hmarked]
      exact h.nodup
    · obtain ⟨e, he, hsame⟩ := exists_of_marked hmarked he'
      rw [hsame.isStatic] at hstatic
      rw [hsame.isStale hstatic]
      exact h.fresh e he hstatic
  | thinned capacity hthinned =>
    exact ⟨h.nodup.sublist (hthinned.sublist.map _),
      fun e he hstatic => h.fresh e (hthinned.sublist.subset he) hstatic⟩
  | @inserted content isStatic now entries hnone hthinned =>
    refine ⟨?_, fun e he hstatic => ?_⟩
    · refine List.nodup_cons.mpr ⟨fun hmem => ?_, h.nodup.sublist (hthinned.sublist.map _)⟩
      obtain ⟨e, he, hkey⟩ := List.mem_map.mp hmem
      exact get?_eq_none_iff.mp hnone e (hthinned.sublist.subset he) hkey
    · rcases List.mem_cons.mp he with rfl | he
      · rfl
      · exact h.fresh e (hthinned.sublist.subset he) hstatic
  | @replaced content isStatic now old hold hne =>
    refine ⟨?_, fun e he hstatic => ?_⟩
    · refine List.nodup_cons.mpr ⟨fun hmem => ?_, h.nodup.sublist (List.filter_sublist.map _)⟩
      obtain ⟨e, he, hkey⟩ := List.mem_map.mp hmem
      have hother := (List.mem_filter.mp he).2
      rw [Bool.not_eq_true', ← Bool.not_eq_true, CacheEntry.hasKey_iff] at hother
      exact hother hkey
    · rcases List.mem_cons.mp he with rfl | he
      · rfl
      · exact h.fresh e (List.mem_of_mem_filter he) hstatic

end WellFormed

/-- Whether the data under a name is static, and of some kind. -/
structure Pins (store : ContentStore) (name : Name) (kept : Content → Prop) : Prop where
  present : ∃ e ∈ store.entries, e.content.name.key = name.key
  pinned : ∀ e ∈ store.entries, e.content.name.key = name.key → e.isStatic = true ∧ kept e.content

namespace Pins

variable {store : ContentStore} {name : Name} {kept : Content → Prop}

/-- What is found under the name is static and of the kind. -/
theorem get? (h : store.Pins name kept) :
    ∃ e, store.get? name = some e ∧ e.isStatic = true ∧ kept e.content := by
  obtain ⟨e, he, hkey⟩ := h.present
  cases hget : store.get? name with
  | none => exact absurd hkey (get?_eq_none_iff.mp hget e he)
  | some e' =>
    obtain ⟨he', hkey'⟩ := mem_of_get? hget
    exact ⟨e', rfl, h.pinned e' he' hkey'⟩

/-- A name stays pinned with every change. Data that is put in under it has to be of the kind, or to be
the same as what is there already. -/
theorem change (h : store.Pins name kept) (c : Change)
    (hput : ∀ content isStatic now, c = .put content isStatic now → content.name.key = name.key →
      kept content ∨ ∀ data, kept data → data.payload = content.payload) :
    (store.change c).Pins name kept := by
  have hchanged := store.changed c
  generalize store.change c = store' at hchanged
  obtain ⟨e, he, hkey⟩ := h.present
  obtain ⟨hstatic, hkept⟩ := h.pinned e he hkey
  cases hchanged with
  | marked hmarked =>
    constructor
    · obtain ⟨e', he', hsame⟩ := exists_marked hmarked he
      exact ⟨e', he', hsame.content ▸ hkey⟩
    · intro e' he' hkey'
      obtain ⟨e, he, hsame⟩ := exists_of_marked hmarked he'
      rw [hsame.content] at hkey' ⊢
      rw [hsame.isStatic]
      exact h.pinned e he hkey'
  | thinned capacity hthinned =>
    exact ⟨⟨e, hthinned.static e he hstatic, hkey⟩,
      fun e' he' => h.pinned e' (hthinned.sublist.subset he')⟩
  | @inserted content isStatic now entries hnone hthinned =>
    refine ⟨⟨e, List.mem_cons_of_mem _ (hthinned.static e he hstatic), hkey⟩, ?_⟩
    intro e' he' hkey'
    rcases List.mem_cons.mp he' with rfl | he'
    · exact absurd (hkey.trans hkey'.symm) (get?_eq_none_iff.mp hnone e he)
    · exact h.pinned e' (hthinned.sublist.subset he') hkey'
  | @replaced content isStatic now old hold hne =>
    obtain ⟨hmem, hkeyOld⟩ := mem_of_get? hold
    by_cases hname : content.name.key = name.key
    · -- The new entry is static because the one that it replaces is.
      obtain ⟨hstaticOld, hkeptOld⟩ := h.pinned old hmem (hkeyOld.trans hname)
      refine ⟨⟨_, List.mem_cons_self, hname⟩, fun e' he' hkey' => ?_⟩
      rcases List.mem_cons.mp he' with rfl | he'
      · refine ⟨by simp [CacheEntry.fresh, hstaticOld], ?_⟩
        rcases hput content isStatic now rfl hname with hnew | hsame
        · exact hnew
        · exact absurd (hsame _ hkeptOld) hne
      · exact h.pinned e' (List.mem_of_mem_filter he') hkey'
    · have hother : (!e.hasKey content.name) = true := by
        rw [Bool.not_eq_true', ← Bool.not_eq_true, CacheEntry.hasKey_iff, hkey]
        exact Ne.symm hname
      refine ⟨⟨e, List.mem_cons_of_mem _ (List.mem_filter.mpr ⟨he, hother⟩), hkey⟩, ?_⟩
      intro e' he' hkey'
      rcases List.mem_cons.mp he' with rfl | he'
      · exact absurd hkey' hname
      · exact h.pinned e' (List.mem_of_mem_filter he') hkey'

end Pins

/-- Static data that is put under a name of which there was none pins the name. -/
private theorem pins_cons {store : ContentStore} {content : Content} {entries : List CacheEntry}
    (hnone : store.get? content.name = none) (h : Thinned store.entries entries) (now : Nat)
    (capacity : Option Nat) :
    Pins { entries := .fresh content true now :: entries, capacity } content.name (· = content) := by
  refine ⟨⟨_, List.mem_cons_self, rfl⟩, fun e he hkey => ?_⟩
  rcases List.mem_cons.mp he with rfl | he
  · exact ⟨rfl, rfl⟩
  · exact absurd hkey (get?_eq_none_iff.mp hnone e (h.sublist.subset he))

/-- Data that is inserted as static data pins its name. -/
theorem pins_of_inserted {store store' : ContentStore} {content : Content} {now : Nat}
    (h : store.put content true now = some (.inserted, store')) :
    store'.Pins content.name (· = content) := by
  unfold put at h
  dsimp only at h
  split at h
  · cases h
  · split at h
    · split at h <;> cases h
    · next hnone =>
      obtain ⟨entries, hroom, heq⟩ := Option.map_eq_some_iff.mp h
      cases heq
      exact pins_cons hnone (.makeRoom hroom) now _

/-- Without a bound on the entries static data pins its name, unless the same data is there already and is
not static. -/
theorem WellFormed.pins_put {store : ContentStore} (h : store.WellFormed)
    (hcapacity : store.capacity = none) (content : Content) (now : Nat)
    (hsame : ∀ e, store.get? content.name = some e → e.content.payload = content.payload →
      e.isStatic = true) :
    (store.change (.put content true now)).Pins content.name fun _ => True := by
  unfold ContentStore.change put
  dsimp only
  rw [if_neg (by simp [hcapacity])]
  split
  · next old hold =>
    obtain ⟨hmem, hkey⟩ := mem_of_get? hold
    split
    · next hpayload =>
      refine ⟨⟨old, hmem, hkey⟩, fun e he hkey' => ⟨?_, trivial⟩⟩
      rw [h.eq_of_key he hmem (hkey'.trans hkey.symm)]
      exact hsame old hold hpayload
    · refine ⟨⟨_, List.mem_cons_self, rfl⟩, fun e he hkey' => ⟨?_, trivial⟩⟩
      rcases List.mem_cons.mp he with rfl | he
      · rfl
      · have hother := (List.mem_filter.mp he).2
        rw [Bool.not_eq_true', ← Bool.not_eq_true, CacheEntry.hasKey_iff] at hother
        exact absurd hkey' hother
  · next hnone =>
    have hroom : store.makeRoom = some store.entries := by simp [makeRoom, hcapacity]
    rw [hroom]
    have hpins := pins_cons hnone (.refl _) now store.capacity
    exact ⟨hpins.present, fun e he hkey => ⟨(hpins.pinned e he hkey).1, trivial⟩⟩

/-- What is handed out is the data of the newest entry that answers the Interest. -/
theorem map_fst_lookup (store : ContentStore) (interest : Interest) (now : Nat) :
    (store.lookup interest now).map Prod.fst =
      (store.entries.find? (·.answers interest)).map (·.content) := by
  have hserve (entries : List CacheEntry) :
      (serveFirst interest now entries).map Prod.fst =
        (entries.find? (·.answers interest)).map (·.content) := by
    induction entries with
    | nil => rfl
    | cons e older ih =>
      rw [serveFirst, List.find?_cons]
      cases e.answers interest with
      | true => rfl
      | false => simpa [Option.map_map, Function.comp_def] using ih
  rw [← hserve, lookup, Option.map_map]
  rfl

/-- If an entry answers an Interest there is data to be handed out, which is that of the newest such
entry. -/
theorem lookup_of_find? {store : ContentStore} {interest : Interest} {e : CacheEntry}
    (h : store.entries.find? (·.answers interest) = some e) (now : Nat) :
    ∃ store', store.lookup interest now = some (e.content, store') := by
  have hlookup := store.map_fst_lookup interest now
  rw [h, Option.map_some] at hlookup
  obtain ⟨⟨content, store'⟩, hfound, rfl⟩ := Option.map_eq_some_iff.mp hlookup
  exact ⟨store', hfound⟩

/-- A static entry answers every Interest for exactly its name that asks for nothing besides. -/
theorem WellFormed.answers_of_static {store : ContentStore} (h : store.WellFormed) {e : CacheEntry}
    (he : e ∈ store.entries) (hstatic : e.isStatic = true) {interest : Interest}
    (hsatisfied : interest.satisfiedBy e.content false = true) : e.answers interest = true := by
  rw [CacheEntry.answers, h.fresh e he hstatic]
  exact hsatisfied

end ContentStore

end NamedFunctions
