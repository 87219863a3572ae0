/-!
# Terms

Terms of the lambda calculus with named variables, and their written form. An application is written
with its argument behind its function; parentheses stand around a function that is an abstraction
and around an argument that is not a variable.
-/

namespace NamedFunctions

/-- A term with named variables. `nfn-relay/src/computation/term:6–13`. -/
inductive Term where
  | var (name : String)
  | app (function argument : Term)
  | abs (param : String) (body : Term)
deriving DecidableEq, Repr, Inhabited

namespace Term

/-- Whether a term is an abstraction. `nfn-relay/src/computation/term:28–30`. -/
def isAbstraction : Term → Bool
  | abs .. => true
  | _ => false

/-- Whether a term is a variable. `nfn-relay/src/computation/term:49–52`. -/
def isVariable : Term → Bool
  | var _ => true
  | _ => false

/-- A text between parentheses. -/
private def inParentheses (text : List Char) : List Char := '(' :: (text ++ [')'])

/-- The characters of the written form. `nfn-relay/src/computation/term:38–56`. -/
def chars : Term → List Char
  | var name => name.toList
  | abs param body => '\\' :: (param.toList ++ '.' :: chars body)
  | app function argument =>
    (if function.isAbstraction then inParentheses (chars function) else chars function) ++
      ' ' :: (if argument.isVariable then chars argument else inParentheses (chars argument))

/-- The written form. `nfn-relay/src/computation/term:38–56`. -/
def toString (term : Term) : String := String.ofList term.chars

/-- A term is shown as it is read. -/
instance : ToString Term := ⟨toString⟩

/-- The variables of a term that are bound neither in it nor by `bound`, each once, in the order in which they
are met after those already found. `nfn-relay/src/computation/machine:338–355`. -/
def freeVariablesFrom : Term → List String → List String → List String
  | var name, bound, found =>
    if name ∈ bound ∨ name ∈ found then found else found ++ [name]
  | app function argument, bound, found =>
    argument.freeVariablesFrom bound (function.freeVariablesFrom bound found)
  | abs param body, bound, found => body.freeVariablesFrom (param :: bound) found

/-- The levels of a term: one for a variable, one more than its deepest part otherwise. -/
def depth : Term → Nat
  | var _ => 1
  | app function argument => max function.depth argument.depth + 1
  | abs _ body => body.depth + 1

/-- How many levels a term may have that is read or shown. `nfn-relay/src/computation/term:58–59`. -/
def maxDepth : Nat := 512

/-- Whether a name without a binding stands for data elsewhere in the network.
`nfn-relay/src/computation/term:33–36`. -/
def isExternal (name : String) : Bool := name.toList.head? == some '/'

end Term

end NamedFunctions
