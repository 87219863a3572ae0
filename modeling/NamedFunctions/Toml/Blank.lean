/-!
# Blanks and comments of TOML

What stands between the words of a file. Each reader takes it from the start of a text and leaves
what follows it.
-/

namespace NamedFunctions.Toml

/-- Whether a character can stand between words on a line. -/
def isSpace (c : Char) : Bool := c == ' ' || c == '\t'

/-- What follows the spaces at the start of a text. -/
def skipSpace (text : List Char) : List Char := text.dropWhile isSpace

/-- Whether a character can stand in comments and strings: a tab, or one that controls nothing. -/
def isPlain (c : Char) : Bool := c == '\t' || (0x20 ≤ c.toNat && c.toNat != 0x7F)

/-- What follows the end of a line. -/
def lineEnd? : List Char → Option (List Char)
  | '\n' :: rest | '\r' :: '\n' :: rest => some rest
  | _ => none

/-- What follows spaces and a comment, and then the end of the line or of the text. -/
def endLine (text : List Char) : Option (List Char) :=
  let text := match skipSpace text with
    | '#' :: comment => comment.dropWhile isPlain
    | rest => rest
  if text.isEmpty then some [] else lineEnd? text

/-- What follows spaces, comments and ends of lines; the flag tells that a comment has begun. -/
def skipLines : Bool → List Char → List Char
  | _, '\n' :: rest => skipLines false rest
  | _, '\r' :: '\n' :: rest => skipLines false rest
  | true, c :: rest => if isPlain c then skipLines true rest else c :: rest
  | false, '#' :: rest => skipLines true rest
  | false, c :: rest => if isSpace c then skipLines false rest else c :: rest
  | _, [] => []

end NamedFunctions.Toml
