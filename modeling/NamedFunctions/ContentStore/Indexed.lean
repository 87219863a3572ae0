import NamedFunctions.ContentStore
import Std.Data.HashMap
import Std.Data.TreeMap.Lemmas

/-!
# The content store with an index

The cache of named data once more, kept in two maps: the entries by the numbers under which they were
put in, and these numbers by the keys of the names. Numbers grow, so the last entry is the newest. The
entry for a name is found without a search through the others.
-/

namespace NamedFunctions

/-- A bounded cache of named data that finds entries by their names. `nfn-relay/src/content_store:50–60`. -/
structure IndexedStore where
  /-- By their numbers, and so in the order in which they were put in. -/
  entries : Std.TreeMap Nat CacheEntry := ∅
  /-- The number of the entry for each key. -/
  index : Std.HashMap (Suite × List Bytes × Option UInt32) Nat := ∅
  /-- The number of the next entry. -/
  nextSeq : Nat := 0
  /-- How many entries there may be; any number if none is given, and zero turns caching off. -/
  capacity : Option Nat

namespace IndexedStore

/-- The entries with their numbers, the oldest first. `nfn-relay/src/content_store:56`. -/
def rows (store : IndexedStore) : List (Nat × CacheEntry) := store.entries.toList

/-- The entries, the newest first. `nfn-relay/src/content_store:253–255`. -/
def newestFirst (store : IndexedStore) : List CacheEntry := (store.rows.map (·.2)).reverse

/-- How many entries there are. `nfn-relay/src/content_store:244–246`. -/
def size (store : IndexedStore) : Nat := store.entries.size

/-- The entry for a name. `nfn-relay/src/content_store:158–161`. -/
def get? (store : IndexedStore) (name : Name) : Option CacheEntry :=
  store.index[name.key]?.bind fun seq => store.entries[seq]?

/-- Whether there is an entry for a name. `nfn-relay/src/content_store:163–165`. -/
def contains (store : IndexedStore) (name : Name) : Bool := store.index.contains name.key

/-- Add an entry for a name that has none. `nfn-relay/src/content_store:106–124`. -/
def insert (store : IndexedStore) (content : Content) (isStatic : Bool) (now : Nat) :
    IndexedStore :=
  { store with
    entries :=
      store.entries.insert store.nextSeq { content, isStatic, storedAt := now, lastUsed := now }
    index := store.index.insert content.name.key store.nextSeq
    nextSeq := store.nextSeq + 1 }

/-- Change the entry with a number. -/
def modify (store : IndexedStore) (seq : Nat) (change : CacheEntry → CacheEntry) : IndexedStore :=
  { store with entries := store.entries.modify seq change }

/-- Remove the entry with a number; which it was. `nfn-relay/src/content_store:126–130`. -/
def remove (store : IndexedStore) (seq : Nat) : Option CacheEntry × IndexedStore :=
  match store.entries[seq]? with
  | none => (none, store)
  | some e =>
    (some e,
      { store with
        entries := store.entries.erase seq
        index := store.index.erase e.content.name.key })

/-- Remove the entries with some numbers, one after the other; which they were. -/
def removeAll (store : IndexedStore) : List Nat → List CacheEntry × IndexedStore
  | [] => ([], store)
  | seq :: seqs =>
    let (removed, store) := store.remove seq
    let (others, store) := store.removeAll seqs
    (removed.toList ++ others, store)

/-- Whether an entry makes room before another: it was used earlier, or at the same tick and was put in
earlier. `nfn-relay/src/content_store:137`. -/
def yields (row other : Nat × CacheEntry) : Bool :=
  row.2.lastUsed < other.2.lastUsed || row.2.lastUsed == other.2.lastUsed && row.1 < other.1

/-- The entry that makes room before all others. `nfn-relay/src/content_store:133–138`. -/
def firstToYield : List (Nat × CacheEntry) → Option (Nat × CacheEntry)
  | [] => none
  | row :: rows =>
    match firstToYield rows with
    | none => some row
    | some other => if yields other row then some other else some row

/-- Remove the entry that is not static and makes room before all others that are not; which it was, unless
all are static. `nfn-relay/src/content_store:132–143`. -/
def evict (store : IndexedStore) : Option CacheEntry × IndexedStore :=
  match firstToYield (store.rows.filter (!·.2.isStatic)) with
  | none => (none, store)
  | some (seq, _) => store.remove seq

/-- Put data into the store; what became of it, unless the store is full of static entries. Data that takes
the place of other data is static if that was. `nfn-relay/src/content_store:79–104`. -/
def put (store : IndexedStore) (content : Content) (isStatic : Bool) (now : Nat) :
    Option PutOutcome × IndexedStore :=
  if store.capacity = some 0 then (some .transient, store)
  else
    match store.index[content.name.key]? with
    | some seq =>
      match store.entries[seq]? with
      | some old =>
        if old.content.payload = content.payload then (some .duplicate, store)
        else (some .replaced, (store.remove seq).2.insert content (isStatic || old.isStatic) now)
      | none => (some .replaced, (store.remove seq).2.insert content isStatic now)
    | none =>
      if store.capacity.any (· ≤ store.size) then
        match store.evict with
        | (none, store) => (none, store)
        | (some _, store) => (some .inserted, store.insert content isStatic now)
      else (some .inserted, store.insert content isStatic now)

/-- The newest data that answers an Interest, and the store once it has.
`nfn-relay/src/content_store:146–155`. -/
def lookup (store : IndexedStore) (interest : Interest) (now : Nat) :
    Option Content × IndexedStore :=
  match store.rows.reverse.find? (·.2.answers interest) with
  | none => (none, store)
  | some (seq, e) =>
    (some e.content,
      store.modify seq fun e => { e with served := e.served + 1, lastUsed := now })

/-- Let the entry for a name no longer count as fresh, unless it is static; whether it does not.
`nfn-relay/src/content_store:168–179`. -/
def markStale (store : IndexedStore) (name : Name) : Bool × IndexedStore :=
  match store.index[name.key]? with
  | none => (false, store)
  | some seq =>
    match store.entries[seq]? with
    | none => (false, store)
    | some e =>
      if e.isStatic then (false, store)
      else (true, store.modify seq fun e => { e with isStale := true })

/-- Let each entry whose freshness has run out no longer count as fresh. Returns the names of those entries,
the oldest first. `nfn-relay/src/content_store:183–200`. -/
def markExpired (store : IndexedStore) (now : Nat) (tick : Duration) : List Name × IndexedStore :=
  ((store.rows.filter (·.2.isExpired now tick)).map (·.2.content.name),
    { store with
      entries := store.entries.map fun _ e =>
        if e.isExpired now tick then { e with isStale := true } else e })

/-- Remove the entries that are not static; how many were removed. `nfn-relay/src/content_store:203–214`. -/
def flush (store : IndexedStore) : Nat × IndexedStore :=
  let seqs := (store.rows.filter (!·.2.isStatic)).map (·.1)
  (seqs.length, (store.removeAll seqs).2)

/-- Removing an entry leaves fewer. -/
theorem size_remove_lt {store : IndexedStore} {seq : Nat} {e : CacheEntry}
    (h : (store.remove seq).1 = some e) : (store.remove seq).2.size < store.size := by
  unfold remove at h ⊢
  split at h
  · cases h
  · next e' he =>
    have hcontains : store.entries.contains seq = true := by
      rw [Std.TreeMap.contains_eq_isSome_getElem?, he]
      rfl
    have hpos : store.entries.size ≠ 0 := by
      intro hzero
      rw [← beq_iff_eq, ← Std.TreeMap.isEmpty_eq_size_eq_zero] at hzero
      rw [Std.TreeMap.contains_of_isEmpty hzero] at hcontains
      cases hcontains
    simp only [size, Std.TreeMap.size_erase, hcontains, if_true]
    omega

/-- A store that gives up an entry has fewer. -/
theorem size_evict_lt {store store' : IndexedStore} {e : CacheEntry}
    (h : store.evict = (some e, store')) : store'.size < store.size := by
  unfold evict at h
  split at h
  · cases h
  · next seq _ _ =>
    have hremoved : (store.remove seq).1 = some e := by rw [h]
    have hlt := size_remove_lt hremoved
    rw [h] at hlt
    exact hlt

/-- Make room until there are no more than `bound` entries; how many were removed.
`nfn-relay/src/content_store:223–226`. -/
def shrink (store : IndexedStore) (bound : Nat) : Nat × IndexedStore :=
  if bound < store.size then
    match h : store.evict with
    | (none, store) => (0, store)
    | (some _, store') =>
      have := size_evict_lt h
      let (evicted, store'') := store'.shrink bound
      (evicted + 1, store'')
  else (0, store)
termination_by store.size

/-- Change the capacity and remove entries down to it; how many were removed.
`nfn-relay/src/content_store:218–228`. -/
def setCapacity (store : IndexedStore) (capacity : Option Nat) : Nat × IndexedStore :=
  match capacity with
  | none => (0, { store with capacity })
  | some bound => { store with capacity }.shrink bound

/-- Remove the entries that have been idle for more than `timeout` ticks. Returns their names, the oldest
first. `nfn-relay/src/content_store:231–242`. -/
def expireIdle (store : IndexedStore) (now timeout : Nat) : List Name × IndexedStore :=
  let (removed, store) := store.removeAll ((store.rows.filter (·.2.isIdle now timeout)).map (·.1))
  (removed.map (·.content.name), store)

end IndexedStore

end NamedFunctions
