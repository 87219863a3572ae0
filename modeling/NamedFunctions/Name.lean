import NamedFunctions.Bytes
import NamedFunctions.Suite
import NamedFunctions.Text.Utf8

/-!
# Names

A name is a list of components, each an arbitrary byte string, in a suite. Its last components can
mark it as a request for a computation; the components before the marker then spell an expression.
-/

namespace NamedFunctions

/-- What a name says about computations. `nfn-core/src/name:60–69`. -/
structure NameFlags where
  /-- The components before the marker spell an expression. -/
  expression : Bool := false
  /-- A placeholder is asked for in place of the result. -/
  thunk : Bool := false
  /-- The content under the name is the result of a computation. -/
  computed : Bool := false
deriving DecidableEq, Repr, Inhabited

/-- A hierarchical name. Without components it is the root. `nfn-core/src/name:71–79`. -/
structure Name where
  components : List Bytes := []
  suite : Suite := default
  /-- The number of a part of segmented data. -/
  chunk : Option UInt32 := none
  flags : NameFlags := {}
deriving DecidableEq, Repr, Inhabited

namespace Name

/-- The last component of a name that requests a computation: the letters NFN. `nfn-core/src/name:6–7`. -/
def expressionMarker : Bytes := [0x4E, 0x46, 0x4E]

/-- The component before the marker that asks for a placeholder: the letters THUNK.
`nfn-core/src/name:8–9`. -/
def thunkMarker : Bytes := [0x54, 0x48, 0x55, 0x4E, 0x4B]

/-- Set the flags that the last components determine. `nfn-core/src/name:170–176`. -/
def classify (name : Name) : Name :=
  match name.components.reverse with
  | [] => { name with flags := { name.flags with expression := false, thunk := false } }
  | last :: before =>
    let expression := last == expressionMarker
    let thunk := expression && before.head? == some thunkMarker
    { name with flags := { name.flags with expression, thunk } }

/-- The name with the given components. `nfn-core/src/name:110–120`. -/
def ofComponents (components : List Bytes) (suite : Suite := default) : Name :=
  classify { components, suite }

/-- The number of components. `nfn-core/src/name:132–134`. -/
def length (name : Name) : Nat := name.components.length

/-- The name with one more component at its end; its flags stay as they are. `nfn-core/src/name:127–130`. -/
def append (name : Name) (component : Bytes) : Name :=
  { name with components := name.components ++ [component] }

/-- The plain name of the first components. `nfn-core/src/name:164–168`. -/
def take (name : Name) (n : Nat) : Name :=
  { components := name.components.take n, suite := name.suite }

/-- The words of the expression that a name requests: its components before the markers.
`nfn-core/src/name:188–190`. -/
def expressionComponents (name : Name) : List Bytes :=
  name.components.take (name.length - if name.flags.thunk then 2 else 1)

/-- The text of the expression that a name requests: its words with a space between each two.
`nfn-core/src/name:182–195`. -/
def expression? (name : Name) : Option String :=
  if name.flags.expression then
    some (" ".intercalate
      (name.expressionComponents.map fun c => String.ofList (Utf8.decodeLossy c)))
  else none

end Name

end NamedFunctions
