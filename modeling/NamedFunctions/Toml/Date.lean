import NamedFunctions.Text.Numeral

/-!
# Dates of TOML

A day, a time of day, or both with a space or a letter between them and perhaps the distance from
universal time. Each reader takes what stands at the start of a text and leaves what follows it.
-/

namespace NamedFunctions.Toml

/-- A number of so many digits within bounds. -/
def numberWithin (width least most : Nat) (text : List Char) : Option (Nat × List Char) := do
  guard (width ≤ text.length)
  let n ← Text.numeral? 10 (text.take width)
  guard (least ≤ n && n ≤ most)
  return (n, text.drop width)

/-- What follows a mark. -/
def behind (mark : Char) : List Char → Option (List Char)
  | c :: rest => if c = mark then some rest else none
  | [] => none

/-- The number of days in a month. -/
def daysIn (year month : Nat) : Nat :=
  if month = 2 then if year % 4 = 0 ∧ (year % 100 ≠ 0 ∨ year % 400 = 0) then 29 else 28
  else if month ∈ [4, 6, 9, 11] then 30
  else 31

/-- What follows a day. -/
def day? (text : List Char) : Option (List Char) := do
  let (year, text) ← numberWithin 4 0 9999 text
  let (month, text) ← numberWithin 2 1 12 (← behind '-' text)
  let (_, text) ← numberWithin 2 1 (daysIn year month) (← behind '-' text)
  return text

/-- What follows an hour and a minute. -/
def hourMinute? (text : List Char) : Option (List Char) := do
  let (_, text) ← numberWithin 2 0 23 text
  let (_, text) ← numberWithin 2 0 59 (← behind ':' text)
  return text

/-- What follows a time of day. The last second can be a leap second. -/
def timeOfDay? (text : List Char) : Option (List Char) := do
  let text ← hourMinute? text
  let (_, text) ← numberWithin 2 0 60 (← behind ':' text)
  match text with
  | '.' :: d :: rest => return if d.isDigit then rest.dropWhile Char.isDigit else text
  | _ => return text

/-- What follows the distance from universal time, if it is given. -/
def skipOffset : List Char → List Char
  | 'Z' :: rest | 'z' :: rest => rest
  | '+' :: rest => (hourMinute? rest).getD ('+' :: rest)
  | '-' :: rest => (hourMinute? rest).getD ('-' :: rest)
  | text => text

/-- What follows a date. -/
def date? (text : List Char) : Option (List Char) :=
  match day? text with
  | none => timeOfDay? text
  | some [] => some []
  | some (c :: rest) =>
    if c = 'T' ∨ c = 't' ∨ c = ' ' then
      some (((timeOfDay? rest).map skipOffset).getD (c :: rest))
    else some (c :: rest)

end NamedFunctions.Toml
