import NamedFunctions.Bytes
import NamedFunctions.Text.Numeral

/-!
# Octets in hexadecimal digits

A byte string in text has two digits for each octet, the most significant one first.
`ofHexDigits?_hexDigits` says that reading gives back what was written.
-/

namespace NamedFunctions

open Text

/-- The two digits of an octet. -/
def octetDigits (b : UInt8) : List Char :=
  [Nat.digitChar (b.toNat / 16), Nat.digitChar (b.toNat % 16)]

namespace Bytes

/-- The digits of a byte string. -/
def hexDigits (bytes : Bytes) : List Char := bytes.flatMap octetDigits

/-- A byte string in digits. -/
def toHex (bytes : Bytes) : String := String.ofList bytes.hexDigits

/-- The byte string that digits stand for, if their number is even. Letters may be of either case. -/
def ofHexDigits? : List Char → Option Bytes
  | [] => some []
  | [_] => none
  | high :: low :: rest => do
    let high ← digitValue? high
    let low ← digitValue? low
    return UInt8.ofNat (high * 16 + low) :: (← ofHexDigits? rest)

/-- The byte string that a text in digits stands for. -/
def ofHex? (text : String) : Option Bytes := ofHexDigits? text.toList

/-- A digit has the value that it was written for. -/
theorem digitValue?_digitChar : ∀ n < 16, digitValue? (Nat.digitChar n) = some n := by
  decide

/-- Reading gives back what was written. -/
theorem ofHexDigits?_hexDigits (bytes : Bytes) : ofHexDigits? bytes.hexDigits = some bytes := by
  induction bytes with
  | nil => rfl
  | cons b rest ih =>
    have hb := b.toNat_lt
    have high := digitValue?_digitChar (b.toNat / 16) (by omega)
    have low := digitValue?_digitChar (b.toNat % 16) (by omega)
    have value : UInt8.ofNat (b.toNat / 16 * 16 + b.toNat % 16) = b := by
      rw [Nat.div_add_mod', UInt8.ofNat_toNat]
    change ofHexDigits? (_ :: _ :: hexDigits rest) = _
    simp only [ofHexDigits?, high, low, ih, Option.bind_eq_bind, Option.bind_some, value,
      Option.pure_def]

end Bytes

end NamedFunctions
