import NamedFunctions.Document
import NamedFunctions.Text.Decimal

/-!
# JSON

Reads the text of a message, such as a command of `nfn-relay/src/management:11–47`. Of fields with the same
name the last counts. A number is an integer only if it is written without a fraction and without an
exponent, and minus zero is none.
-/

namespace NamedFunctions.Json

/-- Whether a character can stand between words. -/
def isSpace (c : Char) : Bool := c == ' ' || c == '\t' || c == '\n' || c == '\r'

/-- What follows the spaces at the start of a text. -/
def skipSpace (text : List Char) : List Char := text.dropWhile isSpace

/-- The character that a backslash before a character stands for. -/
def escape? : Char → Option Char
  | '"' => some '"'
  | '\\' => some '\\'
  | '/' => some '/'
  | 'b' => some '\x08'
  | 'f' => some '\x0c'
  | 'n' => some '\n'
  | 'r' => some '\r'
  | 't' => some '\t'
  | _ => none

/-- The character that two surrogates stand for, the high one and the low one. -/
def ofSurrogates? (high low : Nat) : Option Char :=
  if 0xD800 ≤ high ∧ high < 0xDC00 ∧ 0xDC00 ≤ low ∧ low < 0xE000 then
    some (Char.ofNat (0x10000 + (high - 0xD800) * 0x400 + (low - 0xDC00)))
  else none

/-- The character that a backslash stands for with what is behind it, and what follows. -/
def escaped? : List Char → Option (Char × List Char)
  | 'u' :: a :: b :: c :: d :: '\\' :: 'u' :: e :: f :: g :: h :: rest => do
    let n ← Text.numeral? 16 [a, b, c, d]
    if n.isValidChar then return (Char.ofNat n, '\\' :: 'u' :: e :: f :: g :: h :: rest)
    return (← ofSurrogates? n (← Text.numeral? 16 [e, f, g, h]), rest)
  | 'u' :: a :: b :: c :: d :: rest => do
    let n ← Text.numeral? 16 [a, b, c, d]
    if n.isValidChar then return (Char.ofNat n, rest) else none
  | c :: rest => (escape? c).map (·, rest)
  | [] => none

/-- What follows what a backslash stands for is shorter. -/
theorem length_of_escaped? {text rest : List Char} {c : Char} (h : escaped? text = some (c, rest)) :
    rest.length < text.length := by
  unfold escaped? at h
  split at h
  · simp only [Option.bind_eq_bind, Option.bind_eq_some_iff] at h
    obtain ⟨n, -, h⟩ := h
    split at h
    · cases h
      simp only [List.length_cons]
      omega
    · simp only [Option.bind_eq_some_iff] at h
      obtain ⟨m, -, x, -, h⟩ := h
      cases h
      simp only [List.length_cons]
      omega
  · simp only [Option.bind_eq_bind, Option.bind_eq_some_iff] at h
    obtain ⟨n, -, h⟩ := h
    split at h
    · cases h
      simp only [List.length_cons]
      omega
    · cases h
  · simp only [Option.map_eq_some_iff] at h
    obtain ⟨x, -, h⟩ := h
    cases h
    simp only [List.length_cons]
    omega
  · cases h

/-- A string behind its opening quote, given what has been read of it, the last first. -/
def string (read text : List Char) : Option (String × List Char) :=
  match text with
  | [] => none
  | '"' :: rest => some (String.ofList read.reverse, rest)
  | '\\' :: rest =>
    match h : escaped? rest with
    | none => none
    | some (c, rest') =>
      have := length_of_escaped? h
      string (c :: read) rest'
  | c :: rest => if 0x20 ≤ c.toNat then string (c :: read) rest else none
termination_by text.length
decreasing_by all_goals (simp only [List.length_cons]; omega)

/-- The power of ten that an exponent spells; without one it is zero. -/
def exponent? : List Char → Option Int
  | [] => some 0
  | e :: rest => do
    guard (e == 'e' || e == 'E')
    match rest with
    | '-' :: digits => (Text.numeral? 10 digits).map fun n => -(n : Int)
    | '+' :: digits => (Text.numeral? 10 digits).map fun n => (n : Int)
    | digits => (Text.numeral? 10 digits).map fun n => (n : Int)

/-- The number that a word spells. A number that rounding makes infinite is refused. -/
def number? (word : List Char) : Option Document := do
  let negative := word.head? == some '-'
  let text := if negative then word.drop 1 else word
  let whole := text.takeWhile Char.isDigit
  guard (whole == ['0'] || !(whole.isEmpty || whole.head? == some '0'))
  let decimal ← match text.drop whole.length with
    | [] => pure (Text.Decimal.ofParts negative whole [] 0)
    | '.' :: rest => do
      let fraction := rest.takeWhile Char.isDigit
      guard !fraction.isEmpty
      pure (.ofParts negative whole fraction (← exponent? (rest.drop fraction.length)))
    | rest => do pure (.ofParts negative whole [] (← exponent? rest))
  guard !decimal.isBeyondBinary
  let n : Int := Text.ofDigits 10 whole
  if text.length = whole.length ∧ !(negative ∧ n = 0) then
    return .int (if negative then -n else n)
  return .decimal (String.ofList word)

/-- What a word without quotes stands for. -/
def ofWord? (word : List Char) : Option Document :=
  if word = ['n', 'u', 'l', 'l'] then some .null
  else if word = ['t', 'r', 'u', 'e'] then some (.bool true)
  else if word = ['f', 'a', 'l', 's', 'e'] then some (.bool false)
  else number? word

/-- A number, a truth value or null. -/
def bareValue (text : List Char) : Option (Document × List Char) :=
  let word := text.takeWhile fun c => c.isAlphanum || c == '+' || c == '-' || c == '.'
  (ofWord? word).map (·, text.drop word.length)

mutual

/-- A value. The number bounds the steps; two for each character, and two, are enough. -/
def value : Nat → List Char → Option (Document × List Char)
  | 0, _ => none
  | steps + 1, text =>
    match text with
    | '"' :: rest => (string [] rest).map fun (s, rest) => (.text s, rest)
    | '[' :: rest =>
      match skipSpace rest with
      | ']' :: rest => some (.list [], rest)
      | rest => items steps [] rest
    | '\x7b' :: rest =>
      match skipSpace rest with
      | '\x7d' :: rest => some (.record [], rest)
      | rest => fields steps [] rest
    | text => bareValue text

/-- The items of an array up to its end, after those that have been read, the last first. -/
def items : Nat → List Document → List Char → Option (Document × List Char)
  | 0, _, _ => none
  | steps + 1, read, text =>
    match value steps text with
    | none => none
    | some (d, text) =>
      match skipSpace text with
      | ',' :: rest => items steps (d :: read) (skipSpace rest)
      | ']' :: rest => some (.list (d :: read).reverse, rest)
      | _ => none

/-- The fields of an object up to its end, after those that have been read, the last first. -/
def fields : Nat → List (String × Document) → List Char → Option (Document × List Char)
  | 0, _, _ => none
  | steps + 1, read, text =>
    match field steps text with
    | none => none
    | some (key, d, text) =>
      let read := (key, d) :: read.filter (·.1 != key)
      match skipSpace text with
      | ',' :: rest => fields steps read (skipSpace rest)
      | '\x7d' :: rest => some (.record read.reverse, rest)
      | _ => none

/-- A key, a colon and a value. -/
def field : Nat → List Char → Option (String × Document × List Char)
  | 0, _ => none
  | steps + 1, text =>
    match text with
    | '"' :: rest => do
      let (key, text) ← string [] rest
      match skipSpace text with
      | ':' :: rest => return (key, ← value steps (skipSpace rest))
      | _ => none
    | _ => none

end

/-- The document that a text in JSON spells. -/
def parse (text : String) : Option Document := do
  let chars := text.toList
  let (d, rest) ← value (2 * chars.length + 2) (skipSpace chars)
  guard (skipSpace rest).isEmpty
  return d

end NamedFunctions.Json
