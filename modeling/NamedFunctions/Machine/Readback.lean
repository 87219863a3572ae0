import NamedFunctions.Machine.Environment

/-!
# Reading back

The term that a closure stands for, with the meanings of its variables put in their place. In a
first pass each binder takes a placeholder of its own, the parameter and a running number with a
hash sign between them, so that nothing that is put under it is captured. A second pass gives the
binders their parameters back, with as many primes as keep them apart from the free variables below.
-/

namespace NamedFunctions.Readback

/-- The binders around a place, the innermost first: parameter and placeholder. -/
abbrev Scope := List (String × String)

/-- What stands at a place once variables are followed as far as they lead to other variables.
`nfn-relay/src/computation/machine:273–303`. -/
inductive Shape where
  | variable (name : String)
  | application (function argument : Term) (env : Env) (scope : Scope)
  | abstraction (param : String) (body : Term) (env : Env) (scope : Scope)

/-- What a name stands for in an environment. `nfn-relay/src/computation/machine:278–291`. -/
def resolve : Env → String → Shape
  | .empty, x => .variable x
  | .bind name term env rest, x =>
    if name = x then
      match term with
      | .var y => resolve env y
      | .app function argument => .application function argument env []
      | .abs param body => .abstraction param body env []
    else resolve rest x

/-- What stands at a place: a variable bound around it has its placeholder, another one what its name stands
for. `nfn-relay/src/computation/machine:273–303`. -/
def shape (env : Env) (scope : Scope) : Term → Shape
  | .var x =>
    match scope.lookup x with
    | some placeholder => .variable placeholder
    | none => resolve env x
  | .app function argument => .application function argument env scope
  | .abs param body => .abstraction param body env scope

/-- The placeholder of a binder. `nfn-relay/src/computation/machine:297`. -/
def placeholder (param : String) (number : Nat) : String := param ++ "#" ++ toString number

/-- The first pass: the term with placeholders and the next running number, or `none` if it has more than the
given number of levels. `nfn-relay/src/computation/machine:261–304`. -/
def close : Nat → Term → Env → Scope → Nat → Option (Term × Nat)
  | 0, _, _, _, _ => none
  | levels + 1, term, env, scope, next =>
    match shape env scope term with
    | .variable name => some (.var name, next)
    | .application function argument env scope =>
      (close levels function env scope next).bind fun (f, next) =>
        (close levels argument env scope next).map fun (a, next) => (.app f a, next)
    | .abstraction param body env scope =>
      let unique := placeholder param next
      (close levels body env ((param, unique) :: scope) (next + 1)).map fun (b, next) =>
        (.abs unique b, next)

/-- The name that is shown for a placeholder or a free variable.
`nfn-relay/src/computation/machine:329–336`. -/
def shownName (names : Scope) (name : String) : String := (names.lookup name).getD name

/-- What a placeholder starts with: all before its first hash sign.
`nfn-relay/src/computation/machine:315`. -/
def baseName (placeholder : String) : String :=
  String.ofList (placeholder.toList.takeWhile (· != '#'))

/-- A name with so many primes behind it. `nfn-relay/src/computation/machine:316–319`. -/
def primed (name : String) (n : Nat) : String := name ++ String.ofList (List.replicate n '\'')

/-- The name, with as few primes as keep it apart from those taken.
`nfn-relay/src/computation/machine:315–319`. -/
def freshName (base : String) (taken : List String) : String :=
  (((List.range (taken.length + 1)).map (primed base)).find? fun name => name ∉ taken).getD base

/-- The second pass: the term with the names that are shown, given those of the binders around.
`nfn-relay/src/computation/machine:306–327`. -/
def rename (names : Scope) : Term → Term
  | .var name => .var (shownName names name)
  | .app function argument => .app (rename names function) (rename names argument)
  | .abs unique body =>
    let taken := (body.freeVariablesFrom [unique] []).map (shownName names)
    let name := freshName (baseName unique) taken
    .abs name (rename ((unique, name) :: names) body)

end NamedFunctions.Readback

namespace NamedFunctions

/-- The term that a closure stands for, or `none` if it has too many levels.
`nfn-relay/src/computation/machine:253–259`. -/
def Closure.readback (closure : Closure) : Option Term :=
  (Readback.close Term.maxDepth closure.term closure.env [] 0).map fun (term, _) =>
    Readback.rename [] term

end NamedFunctions
