/-!
# Byte strings and big-endian numbers

A byte string is a list of octets. A number is written most significant octet first in a given
width; `toNat_ofNat` says that reading gives back every number that fits the width.
-/

namespace NamedFunctions

/-- A byte string, read from left to right. -/
abbrev Bytes := List UInt8

namespace BigEndian

-- Powers are those of natural numbers, also where powers in monoids are known.
attribute [local instance (high)] instPowNat

/-- The number that a byte string spells, most significant octet first. `nfn-core/src/tlv:117–128,142–147`. -/
def toNat (bytes : Bytes) : Nat :=
  bytes.foldl (fun n b => n * 256 + b.toNat) 0

/-- The low `width` octets of a number, most significant first. `nfn-core/src/tlv:101–115,130–140`. -/
def ofNat : Nat → Nat → Bytes
  | 0, _ => []
  | width + 1, n => ofNat width (n / 256) ++ [UInt8.ofNat n]

/-- No octets are zero. -/
@[simp] theorem toNat_nil : toNat [] = 0 := rfl

/-- A last octet adds its value to 256 times what stands before it. -/
theorem toNat_append_singleton (bytes : Bytes) (b : UInt8) :
    toNat (bytes ++ [b]) = toNat bytes * 256 + b.toNat := by
  simp [toNat, List.foldl_append]

/-- A number is written in exactly the width that was asked for. -/
@[simp] theorem length_ofNat (width n : Nat) : (ofNat width n).length = width := by
  induction width generalizing n with
  | zero => rfl
  | succ width ih => simp [ofNat, ih]

/-- Reading what was written keeps the number modulo the width. -/
theorem toNat_ofNat_mod (width n : Nat) : toNat (ofNat width n) = n % 256 ^ width := by
  induction width generalizing n with
  | zero => simp [ofNat, Nat.mod_one]
  | succ width ih =>
    have hb : (UInt8.ofNat n).toNat = n % 256 := by simp
    rw [ofNat, toNat_append_singleton, ih, hb, Nat.pow_succ, Nat.mul_comm (256 ^ width) 256,
      Nat.mod_mul]
    omega

/-- Reading gives back a number that fits the width. -/
theorem toNat_ofNat {width n : Nat} (h : n < 256 ^ width) : toNat (ofNat width n) = n := by
  rw [toNat_ofNat_mod, Nat.mod_eq_of_lt h]

private theorem foldl_lt (bytes : Bytes) (n : Nat) :
    bytes.foldl (fun n b => n * 256 + b.toNat) n < (n + 1) * 256 ^ bytes.length := by
  induction bytes generalizing n with
  | nil => simp
  | cons b bytes ih =>
    have hb := b.toNat_lt
    have step : (n * 256 + b.toNat + 1) * 256 ^ bytes.length ≤ (n + 1) * 256 * 256 ^ bytes.length :=
      Nat.mul_le_mul_right _ (by omega)
    have := ih (n * 256 + b.toNat)
    rw [List.foldl_cons, List.length_cons, Nat.pow_succ, Nat.mul_comm (256 ^ bytes.length),
      ← Nat.mul_assoc]
    omega

/-- A byte string spells a number below 256 to the power of its length. -/
theorem toNat_lt (bytes : Bytes) : toNat bytes < 256 ^ bytes.length := by
  simpa [toNat] using foldl_lt bytes 0

end BigEndian

end NamedFunctions
