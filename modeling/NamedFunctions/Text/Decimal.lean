import NamedFunctions.Text.Numeral

/-!
# Decimals

Numbers with a fraction or an exponent, exactly as they are written, and whether they lie beyond the
binary numbers of 64 bits.
-/

namespace NamedFunctions.Text

/-- A number in base ten: the number that its digits spell, times a power of ten. -/
structure Decimal where
  negative : Bool
  digits : List Char
  exponent : Int
deriving DecidableEq, Repr

namespace Decimal

/-- The number with digits before and behind its point, times a power of ten. -/
def ofParts (negative : Bool) (whole fraction : List Char) (exponent : Int) : Decimal :=
  ⟨negative, whole ++ fraction, exponent - fraction.length⟩

/-- The least number that is nearer to 2 ^ 1024 than to any binary number of 64 bits, or as near; all
of these are below 2 ^ 1024. -/
def binaryBound : Nat := 1 <<< 1024 - 1 <<< 970

/-- Whether a number is so large that rounding to a binary number of 64 bits makes it infinite. The
bound has 309 digits, so for all but numbers of that size it is enough to count digits. -/
def isBeyondBinary (d : Decimal) : Bool :=
  let digits := d.digits.dropWhile (· == '0')
  let size := digits.length + d.exponent
  !digits.isEmpty &&
    (309 < size ||
      (size == 309 && binaryBound * Nat.pow 10 digits.length ≤ ofDigits 10 digits * Nat.pow 10 309))

end Decimal

end NamedFunctions.Text
