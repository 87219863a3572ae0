/-!
# Nonces seen of late

An Interest whose nonce is known has come back in a loop. The table keeps as many nonces as its
capacity says, and forgets the earliest when it is full.
-/

namespace NamedFunctions

/-- The nonces that are known. `nfn-relay/src/nonce:5–13`. -/
structure NonceTable where
  /-- Nonces with the ticks of their recording, the earliest first. -/
  records : List (UInt32 × Nat) := []
  capacity : Nat
deriving DecidableEq, Repr

namespace NonceTable

/-- Whether a nonce is known. `nfn-relay/src/nonce:45–47`. -/
def contains (table : NonceTable) (nonce : UInt32) : Bool := table.records.any (·.1 == nonce)

/-- How many nonces are known. `nfn-relay/src/nonce:66–68`. -/
def size (table : NonceTable) : Nat := table.records.length

/-- Record a nonce, forgetting the earliest ones if the table is full; whether it was not known.
`nfn-relay/src/nonce:24–43`. -/
def record (table : NonceTable) (nonce : UInt32) (now : Nat) : Bool × NonceTable :=
  if table.contains nonce then (false, table)
  else
    let kept := table.records.drop (table.size + 1 - table.capacity)
    (true, { table with records := kept ++ [(nonce, now)] })

/-- Forget a nonce. `nfn-relay/src/nonce:49–55`. -/
def erase (table : NonceTable) (nonce : UInt32) : NonceTable :=
  { table with records := table.records.filter (·.1 != nonce) }

/-- Forget the nonces that were recorded more than `timeout` ticks ago; how many were forgotten.
`nfn-relay/src/nonce:57–64`. -/
def expire (table : NonceTable) (now timeout : Nat) : Nat × NonceTable :=
  let kept := table.records.filter fun (_, recorded) => now - recorded ≤ timeout
  (table.size - kept.length, { table with records := kept })

end NonceTable

end NamedFunctions
