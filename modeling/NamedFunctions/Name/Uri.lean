import NamedFunctions.Name
import NamedFunctions.Text.Numeral
import NamedFunctions.Text.Quoted

/-!
# Names as URIs

A name is written as its components, each after a slash. An octet that is not a visible character of
ASCII, and each slash and percent sign in a component, is written as a percent sign and two
hexadecimal digits. The reader takes any characters and skips empty components.
-/

namespace NamedFunctions

/-- Why a name or a suite cannot be read. `nfn-core/src/name:266–272`. -/
inductive NameError where
  /-- In this component a percent sign is not followed by two hexadecimal digits. -/
  | invalidEscape (component : String)
  /-- No suite has this name. -/
  | unknownSuite (word : String)
deriving DecidableEq, Repr

/-- The text of an error about a name. `nfn-core/src/name:268–271`. -/
def NameError.message : NameError → String
  | invalidEscape component => "invalid percent escape in component " ++ Text.quoted component
  | unknownSuite word => "unknown suite " ++ Text.quoted word

/-- The suite that a user names, or the error that there is none. `nfn-core/src/name:48–57`. -/
def Suite.parse (word : String) : Except NameError Suite :=
  match ofWord? word with
  | some suite => .ok suite
  | none => .error (.unknownSuite word)

namespace Uri

/-- The value of a hexadecimal digit. `nfn-core/src/name:234–241`. -/
def hexValue? (c : Char) : Option UInt8 := (Text.digitValue? c).map UInt8.ofNat

/-- The uppercase hexadecimal digit of a number below sixteen. -/
def hexDigit (n : Nat) : Char := (Nat.digitChar n).toUpper

/-- The octets that a component spells, if each percent sign starts an escape. `nfn-core/src/name:243–264`. -/
def unescape : List Char → Option Bytes
  | [] => some []
  | '%' :: high :: low :: rest =>
    match hexValue? high, hexValue? low with
    | some h, some l => (unescape rest).map ((h * 16 + l) :: ·)
    | _, _ => none
  | c :: rest => if c = '%' then none else (unescape rest).map (String.utf8EncodeChar c ++ ·)

/-- Whether an octet stands for itself in a component. `nfn-core/src/name:207`. -/
def isPlain (b : UInt8) : Bool := 0x21 ≤ b && b ≤ 0x7E && b != 0x2F && b != 0x25

/-- An octet as it is written in a component. `nfn-core/src/name:206–212`. -/
def escapeByte (b : UInt8) : List Char :=
  if isPlain b then [Char.ofNat b.toNat]
  else ['%', hexDigit (b.toNat / 16), hexDigit (b.toNat % 16)]

/-- A component as it is written. `nfn-core/src/name:206–212`. -/
def escape (component : Bytes) : List Char := component.flatMap escapeByte

/-- The parts of a text between slashes. -/
def segments : List Char → List (List Char)
  | [] => [[]]
  | c :: rest =>
    match segments rest with
    | [] => [[c]]
    | part :: parts => if c = '/' then [] :: part :: parts else (c :: part) :: parts

/-- The components that a text spells: those of its parts between slashes that are not empty.
`nfn-core/src/name:98–108`. -/
def components (text : List Char) : Except NameError (List Bytes) :=
  ((segments text).filter fun part => !part.isEmpty).mapM fun part =>
    match unescape part with
    | some component => .ok component
    | none => .error (.invalidEscape (String.ofList part))

end Uri

namespace Name

/-- The name that a URI spells. `nfn-core/src/name:92–108`. -/
def ofUri (uri : String) (suite : Suite := default) : Except NameError Name :=
  (Uri.components uri.toList).map fun components => ofComponents components suite

/-- The URI of a name; the root is a lone slash. `nfn-core/src/name:197–215`. -/
def toUri (name : Name) : String :=
  match name.components with
  | [] => "/"
  | components => String.ofList (components.flatMap fun c => '/' :: Uri.escape c)

/-- A name as it is shown: its URI and, if there is one, the number of its chunk.
`nfn-core/src/name:224–232`. -/
def toString (name : Name) : String :=
  match name.chunk with
  | none => name.toUri
  | some chunk => name.toUri ++ " [chunk " ++ ToString.toString chunk.toNat ++ "]"

/-- A name is shown as its URI. -/
instance : ToString Name := ⟨toString⟩

end Name

end NamedFunctions
