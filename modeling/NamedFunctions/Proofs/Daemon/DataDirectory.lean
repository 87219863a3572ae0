import Mathlib.Data.List.Dedup
import NamedFunctions.Proofs.ContentStore.Refinement
import NamedFunctions.Proofs.Daemon

/-!
# What is loaded from a directory

The data of a directory goes into the content store for good as long as there is room; what is full of static
data takes no more names. What is counted is each file whose name is in the store in the end, so a name counts
once for each file that holds data of it. If caching is off each file counts although nothing is stored.
-/

namespace NamedFunctions

/-- A name that was classified and is not marked is determined by what exact matches compare. -/
theorem Name.Classified.eq_of_key {name name' : Name} (h : name.Classified) (h' : name'.Classified)
    (hmark : name.flags.computed = false) (hmark' : name'.flags.computed = false)
    (hkey : name.key = name'.key) : name = name' := by
  simp only [key, Prod.mk.injEq] at hkey
  obtain ⟨hsuite, hcomponents, hchunk⟩ := hkey
  rw [← unmarked_eq hmark, ← unmarked_eq hmark', ← h.classify_eq, ← h'.classify_eq, hsuite, hcomponents,
    hchunk]

/-- A list is as long as one without repetitions that has the same elements exactly if it is without
repetitions itself. -/
theorem length_eq_iff_nodup {α : Type} [DecidableEq α] {l l' : List α} (hl : l.Nodup)
    (hmem : ∀ a, a ∈ l ↔ a ∈ l') : l'.length = l.length ↔ l'.Nodup := by
  have hperm : l.Perm l'.dedup := (List.perm_ext_iff_of_nodup hl l'.nodup_dedup).mpr (by simp [hmem])
  rw [hperm.length_eq]
  constructor
  · intro hlength
    exact List.dedup_eq_self.mp ((List.dedup_sublist l').eq_of_length hlength.symm)
  · intro hnodup
    rw [hnodup.dedup]

namespace ContentStore

variable {store store' store'' : ContentStore} {content : Content} {contents : List Content}
  {counted : Nat}

/-- The names of data that a store has, as often as they occur in the data. -/
def namesOf (store : ContentStore) (contents : List Content) : List Name :=
  (contents.filter fun c => store.contains c.name).map (·.name)

private theorem contains_iff {name : Name} :
    store.contains name = true ↔ ∃ e ∈ store.entries, e.content.name.key = name.key := by
  simp only [contains, List.any_eq_true, CacheEntry.hasKey_iff]

/-- Whether a store has as many entries as it may have. -/
def Full (store : ContentStore) : Prop :=
  ∃ bound, store.capacity = some bound ∧ bound ≤ store.entries.length

private theorem makeRoom_of_full (h : store.Full) : store.makeRoom = evict store.entries := by
  obtain ⟨bound, hbound, hle⟩ := h
  simp [makeRoom, hbound, hle]

private theorem makeRoom_of_not_full (h : ¬ store.Full) : store.makeRoom = some store.entries := by
  unfold makeRoom
  split
  · next hfull =>
    cases hcapacity : store.capacity with
    | none => simp [hcapacity] at hfull
    | some bound => exact absurd ⟨bound, hcapacity, by simpa [hcapacity] using hfull⟩ h
  · rfl

/-- Whether data has gone into a store for good, or is there already. -/
structure Takes (store : ContentStore) (content : Content) (store' : ContentStore) : Prop where
  capacity : store'.capacity = store.capacity
  entries : ∀ e ∈ store'.entries, e ∈ store.entries ∨ e.isStatic = true ∧ e.content = content
  contains : ∀ name, store'.contains name = true ↔
    store.contains name = true ∨ content.name.key = name.key
  wellFormed : store.WellFormed → store'.WellFormed
  /-- A full store takes data only under names that it has. -/
  room : store.Full → store.contains content.name = true

private theorem contains_cons_fresh (isStatic : Bool) (now : Nat) {name : Name} :
    contains { store with entries := .fresh content isStatic now :: store.entries } name = true ↔
      store.contains name = true ∨ content.name.key = name.key := by
  simp [contains_iff, CacheEntry.fresh, or_comm]

private theorem contains_replace (isStatic : Bool) (now : Nat) {name : Name} :
    contains
        { store with
          entries := .fresh content isStatic now ::
            store.entries.filter fun e => !e.hasKey content.name } name = true ↔
      store.contains name = true ∨ content.name.key = name.key := by
  rw [contains_iff, contains_iff, List.exists_mem_cons_iff]
  constructor
  · rintro (hname | ⟨e, he, hname⟩)
    · exact .inr hname
    · exact .inl ⟨e, List.mem_of_mem_filter he, hname⟩
  · rintro (⟨e, he, hname⟩ | hname)
    · by_cases hsame : e.hasKey content.name = true
      · exact .inl ((CacheEntry.hasKey_iff.mp hsame).symm.trans hname)
      · exact .inr ⟨e, List.mem_filter.mpr ⟨he, by simp [hsame]⟩, hname⟩
    · exact .inl hname

/-- Data that is put in for good is taken, be there no data under its name, the same or other data. -/
theorem takes_of_put {outcome : PutOutcome} {now : Nat} (hcaching : store.capacity ≠ some 0)
    (hstatic : ∀ e ∈ store.entries, e.isStatic = true)
    (hput : store.put content true now = some (outcome, store')) : store.Takes content store' := by
  have hkept (h : store.WellFormed) : store'.WellFormed := by
    have hchanged := h.change (.put content true now)
    rw [change, hput] at hchanged
    exact hchanged
  cases hget : store.get? content.name with
  | none =>
    by_cases hfull : store.Full
    · rw [put_of_none hcaching hget, makeRoom_of_full hfull, evict_of_static hstatic] at hput
      cases hput
    · rw [put_of_none hcaching hget, makeRoom_of_not_full hfull] at hput
      cases hput
      refine ⟨rfl, fun e he => ?_, fun name => contains_cons_fresh true now, hkept,
        fun h => absurd h hfull⟩
      rcases List.mem_cons.mp he with rfl | he
      · exact .inr ⟨rfl, rfl⟩
      · exact .inl he
  | some old =>
    obtain ⟨hold, hkey⟩ := mem_of_get? hget
    have hthere : store.contains content.name = true := contains_iff.mpr ⟨old, hold, hkey⟩
    by_cases hpayload : old.content.payload = content.payload
    · rw [put_of_same hcaching hget hpayload] at hput
      cases hput
      refine ⟨rfl, fun e he => .inl he, fun name => ?_, id, fun _ => hthere⟩
      refine ⟨.inl, fun h => h.elim id fun hname => ?_⟩
      exact contains_iff.mpr ⟨old, hold, hkey.trans hname⟩
    · rw [put_of_other hcaching hget hpayload] at hput
      cases hput
      refine ⟨rfl, fun e he => ?_, fun name => contains_replace _ now, hkept, fun _ => hthere⟩
      rcases List.mem_cons.mp he with rfl | he
      · exact .inr ⟨rfl, rfl⟩
      · exact .inl (List.mem_of_mem_filter he)

/-- Data is refused only if the store is full and the name is new. -/
theorem full_of_put {now : Nat} (hcaching : store.capacity ≠ some 0)
    (hput : store.put content true now = none) : store.Full ∧ store.contains content.name = false := by
  cases hget : store.get? content.name with
  | none =>
    constructor
    · by_contra hroom
      rw [put_of_none hcaching hget, makeRoom_of_not_full hroom] at hput
      cases hput
    · rw [Bool.eq_false_iff, Ne, contains_iff]
      rintro ⟨e, he, hkey⟩
      exact get?_eq_none_iff.mp hget e he hkey
  | some old =>
    by_cases hpayload : old.content.payload = content.payload
    · rw [put_of_same hcaching hget hpayload] at hput
      cases hput
    · rw [put_of_other hcaching hget hpayload] at hput
      cases hput

/-- Whether some data has gone into a store for good, one after the other, but for data under new names that
came when the store was full; and how much of it has. -/
inductive Loads : ContentStore → List Content → Nat → ContentStore → Prop where
  | nil {store : ContentStore} : Loads store [] 0 store
  | taken {store store' store'' : ContentStore} {content : Content} {rest : List Content} {counted : Nat}
      (htakes : store.Takes content store') (hrest : Loads store' rest counted store'') :
      Loads store (content :: rest) (counted + 1) store''
  | refused {store store' : ContentStore} {content : Content} {rest : List Content} {counted : Nat}
      (hfull : store.Full) (hnew : store.contains content.name = false)
      (hrest : Loads store rest counted store') : Loads store (content :: rest) counted store'

namespace Loads

/-- All that is new is static and among the data. -/
theorem entries (h : Loads store contents counted store') :
    ∀ e ∈ store'.entries, e ∈ store.entries ∨ e.isStatic = true ∧ e.content ∈ contents := by
  induction h with
  | nil => exact fun e he => .inl he
  | taken htakes _ ih =>
    intro e he
    rcases ih e he with hbefore | ⟨hstatic, hmem⟩
    · rcases htakes.entries e hbefore with hbefore | ⟨hstatic, rfl⟩
      · exact .inl hbefore
      · exact .inr ⟨hstatic, List.mem_cons_self⟩
    · exact .inr ⟨hstatic, List.mem_cons_of_mem _ hmem⟩
  | refused _ _ _ ih =>
    intro e he
    exact (ih e he).imp id fun hnew => ⟨hnew.1, List.mem_cons_of_mem _ hnew.2⟩

private theorem wellFormed (h : Loads store contents counted store') (hstore : store.WellFormed) :
    store'.WellFormed := by
  induction h with
  | nil => exact hstore
  | taken htakes _ ih => exact ih (htakes.wellFormed hstore)
  | refused _ _ _ ih => exact ih hstore

/-- No name is lost. -/
theorem contains (h : Loads store contents counted store') {name : Name}
    (hname : store.contains name = true) : store'.contains name = true := by
  induction h with
  | nil => exact hname
  | taken htakes _ ih => exact ih ((htakes.contains name).mpr (.inl hname))
  | refused _ _ _ ih => exact ih hname

end Loads

/-- A store that is full stays so. -/
theorem Takes.full (h : store.Takes content store') (hstore : store.WellFormed) (hfull : store.Full) :
    store'.Full := by
  -- No name is lost and no two entries have the same one, so there are no fewer entries.
  have hsub : store.entries.map (·.content.name.key) ⊆ store'.entries.map (·.content.name.key) := by
    intro key hkey
    obtain ⟨e, he, rfl⟩ := List.mem_map.mp hkey
    have hthere := (h.contains e.content.name).mpr (.inl (contains_iff.mpr ⟨e, he, rfl⟩))
    obtain ⟨e', he', hsame⟩ := contains_iff.mp hthere
    exact List.mem_map.mpr ⟨e', he', hsame⟩
  have hlength := (List.subperm_of_subset hstore.nodup hsub).length_le
  rw [List.length_map, List.length_map] at hlength
  obtain ⟨bound, hbound, hle⟩ := hfull
  exact ⟨bound, h.capacity.trans hbound, hle.trans hlength⟩

namespace Loads

/-- A store that is full takes no new names. -/
theorem contains_of_full (h : Loads store contents counted store') (hstore : store.WellFormed)
    (hfull : store.Full) {name : Name} (hname : store'.contains name = true) :
    store.contains name = true := by
  induction h with
  | nil => exact hname
  | taken htakes _ ih =>
    have hbefore := ih (htakes.wellFormed hstore) (htakes.full hstore hfull) hname
    rcases (htakes.contains name).mp hbefore with hthere | hkey
    · exact hthere
    · obtain ⟨e, he, hsame⟩ := contains_iff.mp (htakes.room hfull)
      exact contains_iff.mpr ⟨e, he, hsame.trans hkey⟩
  | refused _ _ _ ih => exact ih hstore hfull hname

/-- What has gone in is what has its name in the store in the end. -/
theorem counted_eq (h : Loads store contents counted store') (hstore : store.WellFormed) :
    counted = (store'.namesOf contents).length := by
  rw [namesOf, List.length_map]
  -- The names that count are those of the last store: what was taken stays, what was refused does not come
  -- to be there later, since a full store stays full.
  induction h with
  | nil => rfl
  | @taken _ _ store'' content _ _ htakes hrest ih =>
    have hthere : store''.contains content.name = true :=
      hrest.contains ((htakes.contains content.name).mpr (.inr rfl))
    rw [List.filter_cons, if_pos hthere, List.length_cons, ← ih (htakes.wellFormed hstore)]
  | @refused _ store' content _ _ hfull hnew hrest ih =>
    have hnever : ¬ store'.contains content.name = true := fun hname =>
      Bool.false_ne_true (hnew.symm.trans (hrest.contains_of_full hstore hfull hname))
    rw [List.filter_cons, if_neg hnever]
    exact ih hstore

/-- Where any number of entries is allowed all data goes in. -/
theorem contains_of_mem (h : Loads store contents counted store') (hcapacity : store.capacity = none)
    {c : Content} (hc : c ∈ contents) : store'.contains c.name = true := by
  induction h with
  | nil => exact absurd hc List.not_mem_nil
  | taken htakes hrest ih =>
    rcases List.mem_cons.mp hc with rfl | hc
    · exact hrest.contains ((htakes.contains c.name).mpr (.inr rfl))
    · exact ih (htakes.capacity.trans hcapacity) hc
  | refused hfull =>
    obtain ⟨bound, hbound, -⟩ := hfull
    rw [hcapacity] at hbound
    cases hbound

end Loads

end ContentStore

namespace DirectoryEntry

variable {format : WireFormat} {listing listing' : List DirectoryEntry} {content : Content}

/-- The data of all files. -/
def readAll (format : WireFormat) (listing : List DirectoryEntry) : List Content :=
  listing.filterMap (·.content? format)

private theorem mem_readAll :
    content ∈ readAll format listing ↔ ∃ file ∈ listing, file.Holds format content := by
  simp only [readAll, List.mem_filterMap, content?_eq_some_iff]

/-- The names of data that was read are the same if they match exactly. -/
theorem name_eq_of_key {content' : Content} (h : content ∈ readAll format listing)
    (h' : content' ∈ readAll format listing') (hkey : content.name.key = content'.name.key) :
    content.name = content'.name := by
  obtain ⟨_, -, -, _, -, -, hdecode⟩ := mem_readAll.mp h
  obtain ⟨_, -, -, _, -, -, hdecode'⟩ := mem_readAll.mp h'
  cases format with
  | ndn =>
    obtain ⟨⟨hencodable, hmark⟩, -⟩ := Ndn.of_decode hdecode
    obtain ⟨⟨hencodable', hmark'⟩, -⟩ := Ndn.of_decode hdecode'
    exact (Content.Encodable.classified hencodable).eq_of_key
      (Content.Encodable.classified hencodable') hmark hmark' hkey

end DirectoryEntry

namespace Relay

private theorem loads_cacheAll (r : Relay) (hcaching : r.store.capacity ≠ some 0)
    (hstatic : ∀ e ∈ r.store.entries, e.isStatic = true) (contents : List Content) :
    r.store.Loads contents (r.cacheAll contents).1 (r.cacheAll contents).2.store := by
  induction contents generalizing r with
  | nil => exact .nil
  | cons content rest ih =>
    rw [cacheAll, cacheContent]
    cases hput : r.store.put content true r.clock with
    | none =>
      obtain ⟨hfull, hnew⟩ := ContentStore.full_of_put hcaching hput
      exact .refused hfull hnew (ih r hcaching hstatic)
    | some found =>
      obtain ⟨outcome, store⟩ := found
      have htakes := ContentStore.takes_of_put hcaching hstatic hput
      refine .taken htakes (ih { r with store } (htakes.capacity ▸ hcaching) fun e he => ?_)
      exact (htakes.entries e he).elim (hstatic e) And.left

/-- Where caching is off all data counts and none is stored. -/
theorem cacheAll_of_off (r : Relay) (hcapacity : r.store.capacity = some 0) (contents : List Content) :
    r.cacheAll contents = (contents.length, r) := by
  induction contents with
  | nil => rfl
  | cons content rest ih =>
    rw [cacheAll, cacheContent, ContentStore.put, if_pos hcapacity]
    dsimp only
    rw [ih, List.length_cons]

variable {config : RelayConfig} {source : NonceSource} {r : Relay}

open DirectoryEntry

/-- Where caching is on a new relay loads as much as there is room for. -/
theorem loads_loadDirectory (hr : Relay.new config source = .ok r)
    (hcaching : config.maxCacheEntries ≠ some 0) (format : WireFormat) (listing : List DirectoryEntry) :
    ContentStore.Loads { capacity := config.maxCacheEntries } (readAll format listing)
      (r.loadDirectory format listing).1 (r.loadDirectory format listing).2.store := by
  have hstore : r.store = { capacity := config.maxCacheEntries } := by rw [eq_of_new hr]
  have hloads := r.loads_cacheAll (by rwa [hstore]) (by simp [hstore]) (readAll format listing)
  rw [hstore] at hloads
  exact hloads

/-- Where caching is off each file counts and the store stays empty. -/
theorem loadDirectory_of_off (hr : Relay.new config source = .ok r)
    (hoff : config.maxCacheEntries = some 0) (format : WireFormat) (listing : List DirectoryEntry) :
    (r.loadDirectory format listing).1 = (readAll format listing).length ∧
      (r.loadDirectory format listing).2.store.entries = [] := by
  obtain rfl := eq_of_new hr
  rw [loadDirectory, cacheAll_of_off _ hoff]
  exact ⟨rfl, rfl⟩

/-- All entries are static and hold the data of files. -/
theorem entries_loadDirectory (hr : Relay.new config source = .ok r) {format : WireFormat}
    {listing : List DirectoryEntry} :
    ∀ e ∈ (r.loadDirectory format listing).2.store.entries,
      e.isStatic = true ∧ e.content ∈ readAll format listing := by
  intro e he
  by_cases hoff : config.maxCacheEntries = some 0
  · rw [(loadDirectory_of_off hr hoff format listing).2] at he
    exact absurd he List.not_mem_nil
  · rcases (loads_loadDirectory hr hoff format listing).entries e he with hbefore | hnew
    · exact absurd hbefore List.not_mem_nil
    · exact hnew

/-- The names of entries are the names of data that the store has. -/
theorem mem_names_iff (hr : Relay.new config source = .ok r) {format : WireFormat}
    {listing : List DirectoryEntry} {name : Name} :
    (∃ e ∈ (r.loadDirectory format listing).2.store.entries, e.content.name = name) ↔
      name ∈ (r.loadDirectory format listing).2.store.namesOf (readAll format listing) := by
  simp only [ContentStore.namesOf, List.mem_map, List.mem_filter, ContentStore.contains_iff]
  constructor
  · rintro ⟨e, he, rfl⟩
    exact ⟨e.content, ⟨(entries_loadDirectory hr e he).2, e, he, rfl⟩, rfl⟩
  · rintro ⟨c, ⟨hc, e, he, hkey⟩, rfl⟩
    exact ⟨e, he, name_eq_of_key (entries_loadDirectory hr e he).2 hc hkey⟩

/-- The names that the store has are as many as its entries exactly if no two files have the same one. -/
theorem length_namesOf_eq_iff (hr : Relay.new config source = .ok r) {format : WireFormat}
    {listing : List DirectoryEntry} :
    ((r.loadDirectory format listing).2.store.namesOf (readAll format listing)).length =
        (r.loadDirectory format listing).2.store.entries.length ↔
      ((r.loadDirectory format listing).2.store.namesOf (readAll format listing)).Nodup := by
  have hwellFormed : (r.loadDirectory format listing).2.store.WellFormed := by
    by_cases hoff : config.maxCacheEntries = some 0
    · have hempty := (loadDirectory_of_off hr hoff format listing).2
      exact ⟨hempty ▸ List.nodup_nil, hempty ▸ List.forall_mem_nil _⟩
    · exact (loads_loadDirectory hr hoff format listing).wellFormed (.empty _)
  have hnodup : ((r.loadDirectory format listing).2.store.entries.map (·.content.name)).Nodup :=
    List.Nodup.of_map Name.key (by simpa [Function.comp_def] using hwellFormed.nodup)
  rw [← length_eq_iff_nodup hnodup, List.length_map]
  intro name
  rw [← mem_names_iff hr, List.mem_map]

/-- Where any number of entries is allowed the store has the names of all files. -/
theorem mem_names_iff_of_unbounded (hr : Relay.new config source = .ok r)
    (hunbounded : config.maxCacheEntries = none) {format : WireFormat} {listing : List DirectoryEntry}
    {name : Name} :
    (∃ e ∈ (r.loadDirectory format listing).2.store.entries, e.content.name = name) ↔
      ∃ file ∈ listing, ∃ content, file.Holds format content ∧ content.name = name := by
  have hcaching : config.maxCacheEntries ≠ some 0 := by simp [hunbounded]
  have hloads := loads_loadDirectory hr hcaching format listing
  rw [mem_names_iff hr, ContentStore.namesOf, List.mem_map]
  constructor
  · rintro ⟨c, hc, hname⟩
    obtain ⟨file, hfile, hholds⟩ := mem_readAll.mp (List.mem_of_mem_filter hc)
    exact ⟨file, hfile, c, hholds, hname⟩
  · rintro ⟨file, hfile, c, hholds, hname⟩
    have hc := mem_readAll.mpr ⟨file, hfile, hholds⟩
    exact ⟨c, List.mem_filter.mpr ⟨hc, hloads.contains_of_mem hunbounded hc⟩, hname⟩

/-- The files that count are as many as the entries exactly if caching is on or there is nothing to load, and
no two files have data of the same name that the store has. -/
theorem counted_eq_length_iff (hr : Relay.new config source = .ok r) {format : WireFormat}
    {listing : List DirectoryEntry} :
    (r.loadDirectory format listing).1 = (r.loadDirectory format listing).2.store.entries.length ↔
      (config.maxCacheEntries = some 0 → readAll format listing = []) ∧
        ((r.loadDirectory format listing).2.store.namesOf (readAll format listing)).Nodup := by
  rw [← length_namesOf_eq_iff hr]
  by_cases hoff : config.maxCacheEntries = some 0
  · obtain ⟨hcounted, hempty⟩ := loadDirectory_of_off hr hoff format listing
    have hnone : (r.loadDirectory format listing).2.store.namesOf (readAll format listing) = [] := by
      simp [ContentStore.namesOf, ContentStore.contains, hempty]
    rw [hcounted, hempty, hnone]
    simp [hoff]
  · rw [← (loads_loadDirectory hr hoff format listing).counted_eq (.empty _)]
    simp [hoff]

/-- After a directory was loaded into a new relay all entries are static and hold the data of files. Where
caching is on, what is counted are the files whose names the store has in the end; where it is off, all files
are, and nothing is stored. So the count is the number of entries exactly if no two of these files have data
of the same name and, where caching is off, none has data at all. Where any number of entries is allowed the
store has the names of all files, and so the same names in whatever order they are listed. -/
theorem loads_of_new (hr : Relay.new config source = .ok r) (format : WireFormat)
    (listing : List DirectoryEntry) :
    (∀ e ∈ (r.loadDirectory format listing).2.store.entries,
      e.isStatic = true ∧ ∃ file ∈ listing, file.Holds format e.content) ∧
    (config.maxCacheEntries ≠ some 0 → (r.loadDirectory format listing).1 =
      ((r.loadDirectory format listing).2.store.namesOf (readAll format listing)).length) ∧
    (config.maxCacheEntries = some 0 →
      (r.loadDirectory format listing).1 = (readAll format listing).length ∧
        (r.loadDirectory format listing).2.store.entries = []) ∧
    ((r.loadDirectory format listing).1 = (r.loadDirectory format listing).2.store.entries.length ↔
      (config.maxCacheEntries = some 0 → readAll format listing = []) ∧
        ((r.loadDirectory format listing).2.store.namesOf (readAll format listing)).Nodup) ∧
    (config.maxCacheEntries = none →
      (∀ file ∈ listing, ∀ content, file.Holds format content →
        ∃ e ∈ (r.loadDirectory format listing).2.store.entries, e.content.name = content.name) ∧
      ∀ listing', listing.Perm listing' → ∀ name,
        (∃ e ∈ (r.loadDirectory format listing).2.store.entries, e.content.name = name) ↔
          ∃ e ∈ (r.loadDirectory format listing').2.store.entries, e.content.name = name) := by
  refine ⟨fun e he => ?_, fun hcaching => ?_, fun hoff => loadDirectory_of_off hr hoff format listing,
    counted_eq_length_iff hr, fun hunbounded => ⟨fun file hfile content hholds => ?_, ?_⟩⟩
  · obtain ⟨hstatic, hread⟩ := entries_loadDirectory hr e he
    exact ⟨hstatic, mem_readAll.mp hread⟩
  · exact (loads_loadDirectory hr hcaching format listing).counted_eq (.empty _)
  · exact (mem_names_iff_of_unbounded hr hunbounded).mpr ⟨file, hfile, content, hholds, rfl⟩
  · intro listing' hperm name
    rw [mem_names_iff_of_unbounded hr hunbounded, mem_names_iff_of_unbounded hr hunbounded]
    simp only [hperm.mem_iff]

/-- A file with the data x under the name /a. -/
def sampleFile (name : String) : DirectoryEntry :=
  ⟨name, some [0x06, 0x08, 0x07, 0x03, 0x08, 0x01, 0x61, 0x15, 0x01, 0x78]⟩

/-- The file, the same hidden, a file that is too short, and no file. -/
def sampleDirectory : List DirectoryEntry :=
  [sampleFile "a", sampleFile ".a", ⟨"b", some [0x06]⟩, ⟨"c", none⟩]

/-- The one file counts, and whatever the order there is the one name. -/
theorem loads_of_new_sample :
    ∃ r, Relay.new { maxCacheEntries := none } (.ofSeed 0) = .ok r ∧
      (r.loadDirectory .ndn sampleDirectory).1 = 1 ∧
      (r.loadDirectory .ndn sampleDirectory).2.store.entries.length = 1 ∧
      (∀ e ∈ (r.loadDirectory .ndn sampleDirectory).2.store.entries,
        e.isStatic = true ∧ ∃ file ∈ sampleDirectory, file.Holds .ndn e.content) ∧
      ∀ listing, sampleDirectory.Perm listing → ∀ name,
        (∃ e ∈ (r.loadDirectory .ndn sampleDirectory).2.store.entries, e.content.name = name) ↔
          ∃ e ∈ (r.loadDirectory .ndn listing).2.store.entries, e.content.name = name := by
  refine ⟨_, rfl, ?_, ?_, ?_⟩
  · decide +kernel
  · decide +kernel
  · obtain ⟨hentries, -, -, -, hunbounded⟩ := loads_of_new
      (show Relay.new { maxCacheEntries := none } (.ofSeed 0) = .ok _ from rfl) .ndn sampleDirectory
    exact ⟨hentries, (hunbounded rfl).2⟩

/-- Where caching is off a file counts and has no entry; where it is on, two files of the same data count
and have one. -/
theorem counted_without_entry :
    ∃ off on, Relay.new { maxCacheEntries := some 0 } (.ofSeed 0) = .ok off ∧
      (off.loadDirectory .ndn [sampleFile "a"]).1 = 1 ∧
      (off.loadDirectory .ndn [sampleFile "a"]).2.store.entries = [] ∧
      Relay.new { maxCacheEntries := none } (.ofSeed 0) = .ok on ∧
      (on.loadDirectory .ndn [sampleFile "a", sampleFile "b"]).1 = 2 ∧
      (on.loadDirectory .ndn [sampleFile "a", sampleFile "b"]).2.store.entries.length = 1 := by
  refine ⟨_, _, rfl, ?_, ?_, rfl, ?_, ?_⟩
  · decide +kernel
  · decide +kernel
  · decide +kernel
  · decide +kernel

end Relay

end NamedFunctions
