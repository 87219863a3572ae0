import Std.Data.HashMap

/-!
# Nonces in a map and a queue

The table of nonces once more: a map tells when each nonce was recorded, so that one is found without a
search through the others, and a queue which of them was recorded first.
-/

namespace NamedFunctions

/-- The nonces that are known, found by a map. `nfn-relay/src/nonce:5–13`. -/
structure IndexedNonces where
  /-- The tick at which each nonce was recorded. -/
  seen : Std.HashMap UInt32 Nat := ∅
  /-- The nonces in the order of their recording, the earliest first. -/
  order : List UInt32 := []
  capacity : Nat

namespace IndexedNonces

/-- Whether a nonce is known. `nfn-relay/src/nonce:45–47`. -/
def contains (table : IndexedNonces) (nonce : UInt32) : Bool := table.seen.contains nonce

/-- How many nonces are known. `nfn-relay/src/nonce:66–68`. -/
def size (table : IndexedNonces) : Nat := table.seen.size

/-- Forget the earliest nonces until there is room for another one, or none is left to forget.
`nfn-relay/src/nonce:30–39`. -/
def makeRoom (capacity : Nat) (seen : Std.HashMap UInt32 Nat) :
    List UInt32 → Std.HashMap UInt32 Nat × List UInt32
  | [] => (seen, [])
  | oldest :: order =>
    if seen.size ≥ capacity then makeRoom capacity (seen.erase oldest) order
    else (seen, oldest :: order)

/-- Record a nonce, forgetting the earliest ones if the table is full; whether it was not known.
`nfn-relay/src/nonce:24–43`. -/
def record (table : IndexedNonces) (nonce : UInt32) (now : Nat) : Bool × IndexedNonces :=
  if table.contains nonce then (false, table)
  else
    let (seen, order) := makeRoom table.capacity table.seen table.order
    (true, { table with seen := seen.insert nonce now, order := order ++ [nonce] })

/-- Forget a nonce; whether it was known. `nfn-relay/src/nonce:49–55`. -/
def erase (table : IndexedNonces) (nonce : UInt32) : Bool × IndexedNonces :=
  if table.contains nonce then
    (true,
      { table with seen := table.seen.erase nonce, order := table.order.filter (· != nonce) })
  else (false, table)

/-- Forget the nonces that were recorded more than `timeout` ticks ago; how many were forgotten.
`nfn-relay/src/nonce:57–64`. -/
def expire (table : IndexedNonces) (now timeout : Nat) : Nat × IndexedNonces :=
  let seen := table.seen.filter fun _ recorded => now - recorded ≤ timeout
  (table.size - seen.size, { table with seen, order := table.order.filter seen.contains })

end IndexedNonces

end NamedFunctions
