/-!
# Numerals

Digits of numbers in a base up to sixteen, as they are written and as they are read.
-/

namespace NamedFunctions.Text

/-- The lowercase digits of a number in base sixteen, without leading zeros. -/
def hexDigits (n : Nat) : String := String.ofList (Nat.toDigits 16 n)

/-- A number in base sixteen after the mark 0x. `nfn-core/src/codec:45–46`. -/
def hexNumeral (n : Nat) : String := "0x" ++ hexDigits n

/-- A word of 32 bits as eight digits after the mark 0x. `nfn-relay/src/error:15–16`. -/
def hexWord (n : UInt32) : String :=
  let digits := Nat.toDigits 16 n.toNat
  "0x" ++ String.ofList (List.replicate (8 - digits.length) '0' ++ digits)

/-- The value of a digit in base sixteen, whose letters may be of either case. -/
def digitValue? (c : Char) : Option Nat :=
  if '0' ≤ c ∧ c ≤ '9' then some (c.toNat - '0'.toNat)
  else if 'a' ≤ c ∧ c ≤ 'f' then some (c.toNat - 'a'.toNat + 10)
  else if 'A' ≤ c ∧ c ≤ 'F' then some (c.toNat - 'A'.toNat + 10)
  else none

/-- Whether a character is a digit in a base. -/
def isDigit (base : Nat) (c : Char) : Bool := (digitValue? c).any (· < base)

/-- The number that digits in a base stand for. -/
def ofDigits (base : Nat) (digits : List Char) : Nat :=
  digits.foldl (fun n c => n * base + (digitValue? c).getD 0) 0

/-- The number that a text of digits in a base stands for. -/
def numeral? (base : Nat) (text : List Char) : Option Nat :=
  if text.isEmpty || !text.all (isDigit base) then none else some (ofDigits base text)

end NamedFunctions.Text
