import NamedFunctions.Term

/-!
# Environments

A binding gives a name the meaning of a term in an environment of its own. Extending an environment
leaves those that were built from it as they are.
-/

namespace NamedFunctions

/-- Bindings of names, the latest first. `nfn-relay/src/computation/machine:28–38`. -/
inductive Env where
  | empty
  | bind (name : String) (term : Term) (env : Env) (rest : Env)
deriving Repr

/-- A term in the environment that gives its variables their meaning.
`nfn-relay/src/computation/machine:21–26`. -/
structure Closure where
  term : Term
  env : Env
deriving Repr

namespace Env

/-- There is an empty environment. -/
instance : Inhabited Env := ⟨empty⟩

/-- The environment in which a name means a closure and all else is as before.
`nfn-relay/src/computation/machine:41–47`. -/
def extend (env : Env) (name : String) (value : Closure) : Env :=
  .bind name value.term value.env env

/-- The meaning of a name. `nfn-relay/src/computation/machine:49–58`. -/
def lookup : Env → String → Option Closure
  | empty, _ => none
  | bind name term env rest, x => if name = x then some ⟨term, env⟩ else rest.lookup x

/-- Whether an environment binds nothing. `nfn-relay/src/computation/machine:60–62`. -/
def isEmpty : Env → Bool
  | empty => true
  | bind .. => false

/-- The latest binding of a name counts. -/
theorem lookup_extend (env : Env) (name x : String) (value : Closure) :
    (env.extend name value).lookup x = if name = x then some value else env.lookup x := rfl

end Env

end NamedFunctions
