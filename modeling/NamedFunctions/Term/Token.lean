import NamedFunctions.Term
import NamedFunctions.Text.Blank
import NamedFunctions.Text.Quoted

/-!
# Tokens of expressions

An expression is parentheses, binders and words, with blanks between them. A binder is a backslash
or a lambda, a word and a dot, or an at sign and a word. A word that does not start a binder runs up
to the next blank or parenthesis, so it may hold any of these signs itself.
-/

namespace NamedFunctions.Term

/-- Why a text is not an expression. Offsets count octets from the start of the text.
`nfn-relay/src/computation/term:77–80,147,157,192–195`. -/
inductive ParseError where
  /-- A term has to stand here. -/
  | missingTerm (offset : Nat)
  /-- The text ends inside parentheses. -/
  | unclosed
  /-- Something else has to stand here; the token is empty at the end of the text. -/
  | unexpected (token : String) (offset : Nat)
  /-- The term has too many levels. -/
  | tooDeep
deriving DecidableEq, Repr

/-- The text of the error that a term has too many levels. `nfn-relay/src/error:42–43`. -/
def tooDeepMessage : String :=
  "expression nested deeper than " ++ ToString.toString maxDepth ++ " levels"

/-- The text of an error. `nfn-relay/src/error:30–33`. -/
def ParseError.message : ParseError → String
  | missingTerm offset =>
    "malformed expression: expected a term at offset " ++ ToString.toString offset
  | unclosed => "malformed expression: unclosed parenthesis"
  | unexpected token offset =>
    "unexpected token " ++ Text.quoted token ++ " at offset " ++ ToString.toString offset
  | tooDeep => tooDeepMessage

/-- A part of an expression that is not taken apart further. `nfn-relay/src/computation/term:150–181`. -/
inductive Token where
  | opening
  | closing
  | binder (param : String)
  | word (name : String)
deriving DecidableEq, Repr

/-- The tokens of a text, each with its offset, up to the end of the text or the first fault. -/
inductive Tokens where
  | done (offset : Nat)
  | fault (error : ParseError)
  | token (token : Token) (offset : Nat) (rest : Tokens)
deriving Repr

/-- Whether a character can stand in a word. `nfn-relay/src/computation/term:115–124`. -/
def isWordChar (c : Char) : Bool := !Text.isBlank c && c != '(' && c != ')'

/-- How many octets some characters take. -/
def octets (cs : List Char) : Nat := cs.foldr (fun c n => c.utf8Size + n) 0

/-- What is left after a word is no longer than the text. -/
private theorem length_dropWhile_le (p : Char → Bool) (cs : List Char) :
    (cs.dropWhile p).length ≤ cs.length := (List.dropWhile_sublist p).length_le

/-- The tokens of a text that starts at an offset. `nfn-relay/src/computation/term:109–124,150–198`. -/
def scan (offset : Nat) : List Char → Tokens
  | [] => .done offset
  | c :: rest =>
    let start := offset + c.utf8Size
    if Text.isBlank c then scan start rest
    else if c = '(' then .token .opening offset (scan start rest)
    else if c = ')' then .token .closing offset (scan start rest)
    else if c = '\\' ∨ c = 'λ' then
      let inName := fun c => isWordChar c && c != '.'
      let name := rest.takeWhile inName
      let stop := start + octets name
      if name.isEmpty then .fault (.unexpected (String.ofList (rest.take 1)) start)
      else
        match h : rest.dropWhile inName with
        | [] => .fault (.unexpected "" stop)
        | d :: after =>
          have : after.length < rest.length := by
            have := length_dropWhile_le inName rest
            rw [h, List.length_cons] at this
            omega
          if d = '.' then .token (.binder (String.ofList name)) offset (scan (stop + 1) after)
          else .fault (.unexpected d.toString (stop + d.utf8Size))
    else if c = '@' then
      let name := rest.takeWhile isWordChar
      have := length_dropWhile_le isWordChar rest
      if name.isEmpty then .fault (.unexpected (String.ofList (rest.take 1)) start)
      else
        .token (.binder (String.ofList name)) offset
          (scan (start + octets name) (rest.dropWhile isWordChar))
    else
      let tail := rest.takeWhile isWordChar
      have := length_dropWhile_le isWordChar rest
      .token (.word (String.ofList (c :: tail))) offset
        (scan (start + octets tail) (rest.dropWhile isWordChar))
termination_by cs => cs.length
decreasing_by all_goals (simp only [List.length_cons]; omega)

end NamedFunctions.Term
