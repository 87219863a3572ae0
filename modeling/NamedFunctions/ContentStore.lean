import NamedFunctions.Packet.Matching

/-!
# The content store

A cache of named data, the newest entry first. No two entries have the same key: suite, components
and chunk of the name. When the store is full, the entry that was used longest ago makes room; static
entries stay whatever happens.
-/

namespace NamedFunctions

/-- Data in the cache. `nfn-relay/src/content_store:10–30`. -/
structure CacheEntry where
  content : Content
  /-- It is never removed and never becomes stale. -/
  isStatic : Bool
  /-- It no longer counts as fresh. -/
  isStale : Bool := false
  /-- How often it has answered an Interest. -/
  served : Nat := 0
  /-- The tick at which it was stored. -/
  storedAt : Nat
  /-- The tick at which it was stored or last answered an Interest. -/
  lastUsed : Nat
deriving Repr, DecidableEq

namespace CacheEntry

/-- Whether an entry is the one for a name. `nfn-relay/src/content_store:46–48`. -/
def hasKey (e : CacheEntry) (name : Name) : Bool := e.content.name.agrees .exact name

/-- Whether an entry answers an Interest. `nfn-relay/src/content_store:151`. -/
def answers (e : CacheEntry) (interest : Interest) : Bool :=
  interest.satisfiedBy e.content e.isStale

/-- Whether the freshness of an entry has run out; `tick` is the time from one tick to the next. A period that
does not end with a tick lasts up to the following one. `nfn-relay/src/content_store:187–194`. -/
def isExpired (e : CacheEntry) (now : Nat) (tick : Duration) : Bool :=
  !e.isStatic && !e.isStale &&
    e.content.freshness.any fun freshness =>
      let tickLength := max tick.milliseconds 1
      (freshness.milliseconds + tickLength - 1) / tickLength ≤ now - e.storedAt

/-- Whether an entry may be removed for having been idle for more than `timeout` ticks.
`nfn-relay/src/content_store:235`. -/
def isIdle (e : CacheEntry) (now timeout : Nat) : Bool := !e.isStatic && now - e.lastUsed > timeout

end CacheEntry

/-- A bounded cache of named data. `nfn-relay/src/content_store:50–60`. -/
structure ContentStore where
  /-- The newest first. -/
  entries : List CacheEntry := []
  /-- How many entries there may be; any number if none is given, and zero turns caching off. -/
  capacity : Option Nat
deriving Repr, DecidableEq

/-- What became of data that was put into the store. `nfn-relay/src/content_store:32–42`. -/
inductive PutOutcome where
  /-- It has a new entry. -/
  | inserted
  /-- It took the place of other data under its name. -/
  | replaced
  /-- The same data was there already. -/
  | duplicate
  /-- Caching is turned off. -/
  | transient
deriving DecidableEq, Repr

namespace ContentStore

/-- The least tick at which an entry that is not static was used. `nfn-relay/src/content_store:133–137`. -/
def oldestUse (entries : List CacheEntry) : Option Nat :=
  ((entries.filter (!·.isStatic)).map (·.lastUsed)).min?

/-- Remove the entry that is not static and was used longest ago, of several the oldest; `none` if all are
static. `nfn-relay/src/content_store:132–143`. -/
def evict (entries : List CacheEntry) : Option (List CacheEntry) :=
  (oldestUse entries).map fun tick =>
    (entries.reverse.eraseP fun e => !e.isStatic && e.lastUsed == tick).reverse

/-- Remove up to `n` entries; how many were removed. `nfn-relay/src/content_store:223–226`. -/
def evictMany : Nat → List CacheEntry → Nat × List CacheEntry
  | 0, entries => (0, entries)
  | n + 1, entries =>
    match evict entries with
    | none => (0, entries)
    | some entries =>
      let (evicted, entries) := evictMany n entries
      (evicted + 1, entries)

/-- The entry for a name. `nfn-relay/src/content_store:158–161`. -/
def get? (store : ContentStore) (name : Name) : Option CacheEntry :=
  store.entries.find? (·.hasKey name)

/-- Whether there is an entry for a name. `nfn-relay/src/content_store:163–165`. -/
def contains (store : ContentStore) (name : Name) : Bool := store.entries.any (·.hasKey name)

/-- The store with room for one more entry; `none` if it is full of static ones.
`nfn-relay/src/content_store:99–101`. -/
def makeRoom (store : ContentStore) : Option (List CacheEntry) :=
  if store.capacity.any (· ≤ store.entries.length) then evict store.entries else some store.entries

/-- Put data into the store; `none` if it is full of static entries. Data that takes the place of other data
is static if that was. `nfn-relay/src/content_store:79–104`. -/
def put (store : ContentStore) (content : Content) (isStatic : Bool) (now : Nat) :
    Option (PutOutcome × ContentStore) :=
  let entry (isStatic : Bool) : CacheEntry := { content, isStatic, storedAt := now, lastUsed := now }
  if store.capacity = some 0 then some (.transient, store)
  else
    match store.get? content.name with
    | some old =>
      if old.content.payload = content.payload then some (.duplicate, store)
      else
        let others := store.entries.filter fun e => !e.hasKey content.name
        some (.replaced, { store with entries := entry (isStatic || old.isStatic) :: others })
    | none =>
      store.makeRoom.map fun entries =>
        (.inserted, { store with entries := entry isStatic :: entries })

/-- The first entry that answers an Interest, and the entries once it has.
`nfn-relay/src/content_store:147–154`. -/
def serveFirst (interest : Interest) (now : Nat) :
    List CacheEntry → Option (Content × List CacheEntry)
  | [] => none
  | e :: older =>
    if e.answers interest then
      some (e.content, { e with served := e.served + 1, lastUsed := now } :: older)
    else (serveFirst interest now older).map fun (content, older) => (content, e :: older)

/-- The newest data that answers an Interest, and the store once it has.
`nfn-relay/src/content_store:146–155`. -/
def lookup (store : ContentStore) (interest : Interest) (now : Nat) :
    Option (Content × ContentStore) :=
  (serveFirst interest now store.entries).map fun (content, entries) =>
    (content, { store with entries })

/-- Let the entry for a name no longer count as fresh, unless it is static; whether it does not.
`nfn-relay/src/content_store:168–179`. -/
def markStale (store : ContentStore) (name : Name) : Bool × ContentStore :=
  let hit (e : CacheEntry) : Bool := e.hasKey name && !e.isStatic
  (store.entries.any hit,
    { store with entries := store.entries.map fun e => if hit e then { e with isStale := true } else e })

/-- Let each entry whose freshness has run out no longer count as fresh. Returns the names of those entries,
the oldest first. `nfn-relay/src/content_store:183–200`. -/
def markExpired (store : ContentStore) (now : Nat) (tick : Duration) : List Name × ContentStore :=
  let expired (e : CacheEntry) : Bool := e.isExpired now tick
  ((store.entries.reverse.filter expired).map (·.content.name),
    { store with
      entries := store.entries.map fun e => if expired e then { e with isStale := true } else e })

/-- Remove the entries that are not static; how many were removed. `nfn-relay/src/content_store:203–214`. -/
def flush (store : ContentStore) : Nat × ContentStore :=
  let kept := store.entries.filter (·.isStatic)
  (store.entries.length - kept.length, { store with entries := kept })

/-- Change the capacity and remove entries down to it; how many were removed.
`nfn-relay/src/content_store:218–228`. -/
def setCapacity (store : ContentStore) (capacity : Option Nat) : Nat × ContentStore :=
  match capacity with
  | none => (0, { store with capacity })
  | some bound =>
    let (evicted, entries) := evictMany (store.entries.length - bound) store.entries
    (evicted, { entries, capacity })

/-- Remove the entries that have been idle for more than `timeout` ticks. Returns their names, the oldest
first. `nfn-relay/src/content_store:231–242`. -/
def expireIdle (store : ContentStore) (now timeout : Nat) : List Name × ContentStore :=
  ((store.entries.reverse.filter (·.isIdle now timeout)).map (·.content.name),
    { store with entries := store.entries.filter fun e => !e.isIdle now timeout })

end ContentStore

end NamedFunctions
