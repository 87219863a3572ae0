import NamedFunctions.Text.Numeral
import NamedFunctions.Toml.Blank

/-!
# Strings of TOML

A string stands between quotes on one line, or between three quotes on either side on several lines.
Between double quotes a backslash makes something else of what follows it. Reading goes in two
passes: the first finds the quote that closes a string, the second tells what its inside spells.
-/

namespace NamedFunctions.Toml

/-- Whether a backslash has a meaning between such quotes. -/
def hasEscapes (quote : Char) : Bool := quote == '"'

/-- What stands before and behind the quote that closes a string on one line. -/
def inside (quote : Char) : List Char → Option (List Char × List Char)
  | [] => none
  | '\\' :: d :: rest =>
    if !hasEscapes quote then
      (inside quote (d :: rest)).map fun (text, rest) => ('\\' :: text, rest)
    else if isPlain d then
      (inside quote rest).map fun (text, rest) => ('\\' :: d :: text, rest)
    else none
  | c :: rest =>
    if c = quote then some ([], rest)
    else if isPlain c then (inside quote rest).map fun (text, rest) => (c :: text, rest)
    else none

/-- What stands before and behind the three quotes that close a string on several lines. Up to two
quotes right before them belong to the inside. -/
def longInside (quote : Char) : List Char → Option (List Char × List Char)
  | [] => none
  | '\\' :: d :: rest =>
    if !hasEscapes quote then
      (longInside quote (d :: rest)).map fun (text, rest) => ('\\' :: text, rest)
    else (longInside quote rest).map fun (text, rest) => ('\\' :: d :: text, rest)
  | c :: rest =>
    let quotes := min ((c :: rest).takeWhile (· == quote)).length 5
    if 3 ≤ quotes then some (List.replicate (quotes - 3) quote, (c :: rest).drop quotes)
    else if isPlain c || (lineEnd? (c :: rest)).isSome then
      (longInside quote rest).map fun (text, rest) => (c :: text, rest)
    else none

/-- The character of a number in base sixteen. -/
def codePoint? (digits : List Char) : Option Char :=
  (Text.numeral? 16 digits).bind fun n => if n.isValidChar then some (Char.ofNat n) else none

/-- The character that a backslash before a character stands for. -/
def escape? : Char → Option Char
  | 'b' => some '\x08'
  | 't' => some '\t'
  | 'n' => some '\n'
  | 'f' => some '\x0c'
  | 'r' => some '\r'
  | '"' => some '"'
  | '\\' => some '\\'
  | _ => none

/-- What an inside with escapes spells. A backslash at the end of a line takes away all spaces and
ends of lines behind it; the flag tells that this is going on. -/
def unescape : Bool → List Char → Option (List Char)
  | _, [] => some []
  | true, ' ' :: rest | true, '\t' :: rest | true, '\n' :: rest => unescape true rest
  | true, '\r' :: '\n' :: rest => unescape true rest
  | false, '\r' :: '\n' :: rest => (unescape false rest).map ('\n' :: ·)
  | _, '\\' :: 'u' :: a :: b :: c :: d :: rest => do
    return (← codePoint? [a, b, c, d]) :: (← unescape false rest)
  | _, '\\' :: 'U' :: a :: b :: c :: d :: e :: f :: g :: h :: rest => do
    return (← codePoint? [a, b, c, d, e, f, g, h]) :: (← unescape false rest)
  | _, '\\' :: c :: rest =>
    match escape? c with
    | some char => (unescape false rest).map (char :: ·)
    | none =>
      if (lineEnd? (skipSpace (c :: rest))).isSome then unescape true (c :: rest) else none
  | _, c :: rest => (unescape false rest).map (c :: ·)

/-- What an inside without escapes spells: each end of a line is a line feed. -/
def plainLines : List Char → List Char
  | '\r' :: '\n' :: rest => '\n' :: plainLines rest
  | c :: rest => c :: plainLines rest
  | [] => []

/-- What an inside between such quotes spells. -/
def spelled (quote : Char) (text : List Char) : Option String :=
  (if hasEscapes quote then unescape false text else some (plainLines text)).map String.ofList

/-- A string on one line, behind its first quote. -/
def shortString (quote : Char) (text : List Char) : Option (String × List Char) :=
  (inside quote text).bind fun (text, rest) => (spelled quote text).map (·, rest)

/-- A string on several lines, behind its first three quotes. The end of a line right behind these
does not belong to it. -/
def longString (quote : Char) (text : List Char) : Option (String × List Char) :=
  (longInside quote ((lineEnd? text).getD text)).bind fun (text, rest) =>
    (spelled quote text).map (·, rest)

/-- A string behind its first quote. -/
def quoted (quote : Char) : List Char → Option (String × List Char)
  | a :: b :: rest =>
    if a = quote ∧ b = quote then longString quote rest else shortString quote (a :: b :: rest)
  | text => shortString quote text

end NamedFunctions.Toml
