import NamedFunctions.Document
import NamedFunctions.Text.Decimal
import NamedFunctions.Toml.Date
import NamedFunctions.Toml.Quoted

/-!
# Words of TOML

Keys, and the words for numbers, truth values and dates. Each reader takes what stands at the start
of a text and leaves what follows it.
-/

namespace NamedFunctions.Toml

/-- How many parts a key may have, and how deep values may be nested. -/
def depthLimit : Nat := 79

/-- Whether a character can stand in a key without quotes. -/
def isBare (c : Char) : Bool := c.isAlphanum || c == '_' || c == '-'

/-- A key, quoted or not. -/
def key : List Char → Option (String × List Char)
  | '"' :: rest => shortString '"' rest
  | '\'' :: rest => shortString '\'' rest
  | text =>
    let word := text.takeWhile isBare
    if word.isEmpty then none else some (String.ofList word, text.drop word.length)

/-- Up to `limit` keys with dots between them, with spaces before each. -/
def keys : Nat → List Char → Option (List String × List Char)
  | 0, _ => none
  | limit + 1, text => do
    let (first, text) ← key (skipSpace text)
    match skipSpace text with
    | '.' :: rest =>
      let (path, rest) ← keys limit rest
      return (first :: path, rest)
    | rest => return ([first], rest)

/-- Digits without the underscores between them. -/
def ungroup (base : Nat) : List Char → Option (List Char)
  | [] => none
  | [d] => if Text.isDigit base d then some [d] else none
  | d :: '_' :: rest => if Text.isDigit base d then (ungroup base rest).map (d :: ·) else none
  | d :: rest => if Text.isDigit base d then (ungroup base rest).map (d :: ·) else none

/-- Digits in base ten without underscores, where zero stands at the start only of zero itself. -/
def decimalDigits (text : List Char) : Option (List Char) := do
  let digits ← ungroup 10 text
  guard (digits.length == 1 || digits.head? != some '0')
  return digits

/-- A text without the sign at its start, and whether that is a minus. -/
def splitSign : List Char → Bool × List Char
  | '-' :: rest => (true, rest)
  | '+' :: rest => (false, rest)
  | text => (false, text)

/-- The integer that a word spells, which has 64 bits. -/
def integer? (word : List Char) : Option Int := do
  let n : Int ← match word with
    | '0' :: 'x' :: digits => (ungroup 16 digits).map fun ds => (Text.ofDigits 16 ds : Int)
    | '0' :: 'o' :: digits => (ungroup 8 digits).map fun ds => (Text.ofDigits 8 ds : Int)
    | '0' :: 'b' :: digits => (ungroup 2 digits).map fun ds => (Text.ofDigits 2 ds : Int)
    | _ =>
      let (negative, digits) := splitSign word
      (decimalDigits digits).map fun ds =>
        if negative then -(Text.ofDigits 10 ds : Int) else (Text.ofDigits 10 ds : Int)
  guard (Int64.minValue.toInt ≤ n && n ≤ Int64.maxValue.toInt)
  return n

/-- The power of ten that an exponent spells; without one it is zero. -/
def exponent? : List Char → Option Int
  | [] => some 0
  | e :: rest => do
    guard (e == 'e' || e == 'E')
    let (negative, digits) := splitSign rest
    let n : Int := Text.ofDigits 10 (← ungroup 10 digits)
    return if negative then -n else n

/-- The number with a fraction or an exponent that a word spells. -/
def decimal? (word : List Char) : Option Text.Decimal := do
  let isPart (c : Char) : Bool := c.isDigit || c == '_'
  let (negative, text) := splitSign word
  let whole := text.takeWhile isPart
  let digits ← decimalDigits whole
  match text.drop whole.length with
  | [] => none
  | '.' :: rest =>
    let fraction := rest.takeWhile isPart
    let exponent ← exponent? (rest.drop fraction.length)
    return .ofParts negative digits (← ungroup 10 fraction) exponent
  | rest => return .ofParts negative digits [] (← exponent? rest)

/-- The words for what is not finite or not a number, without a sign. -/
def notFinite : List (List Char) := [['i', 'n', 'f'], ['n', 'a', 'n']]

/-- Whether a word spells a number that is not an integer. One that rounding makes infinite is none,
unless it is negative. -/
def isDecimal (word : List Char) : Bool :=
  notFinite.contains (splitSign word).2 ||
    (decimal? word).any fun d => d.negative || !d.isBeyondBinary

/-- What a word without quotes stands for. -/
def ofWord? (word : List Char) : Option Document :=
  if word = ['t', 'r', 'u', 'e'] then some (.bool true)
  else if word = ['f', 'a', 'l', 's', 'e'] then some (.bool false)
  else
    match integer? word with
    | some n => some (.int n)
    | none => if isDecimal word then some (.decimal (String.ofList word)) else none

/-- A number, a truth value or a date, which is a record with its text as the only field. -/
def bareValue (text : List Char) : Option (Document × List Char) :=
  match date? text with
  | some rest =>
    let written := text.take (text.length - rest.length)
    some (.record [("date", .text (String.ofList written))], rest)
  | none =>
    let word := text.takeWhile fun c => isBare c || c == '+' || c == '.'
    (ofWord? word).map (·, text.drop word.length)

end NamedFunctions.Toml
