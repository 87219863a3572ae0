/-!
# Durations

Spans of time, exact to the nanosecond, such as the lifetimes and the periods of freshness of
`nfn-core/src/packets:113–161`.
-/

namespace NamedFunctions

/-- A span of time in nanoseconds. -/
structure Duration where
  nanoseconds : Nat
deriving DecidableEq, Repr

namespace Duration

/-- The span of so many milliseconds. -/
def ofMilliseconds (n : Nat) : Duration := ⟨n * 1000000⟩

/-- The whole milliseconds in a span. -/
def milliseconds (d : Duration) : Nat := d.nanoseconds / 1000000

/-- The whole seconds in a span. -/
def seconds (d : Duration) : Nat := d.nanoseconds / 1000000000

/-- The nanoseconds of a span beyond its whole seconds. -/
def subsecond (d : Duration) : Nat := d.nanoseconds % 1000000000

/-- A duration of so many milliseconds has as many. -/
@[simp] theorem milliseconds_ofMilliseconds (n : Nat) : (ofMilliseconds n).milliseconds = n := by
  rw [milliseconds, ofMilliseconds, Nat.mul_div_cancel _ (by decide)]

end Duration

end NamedFunctions
