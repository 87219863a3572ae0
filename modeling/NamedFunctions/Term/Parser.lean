import NamedFunctions.Term.Token

/-!
# Reading terms

Terms that stand side by side are applied from left to right, and the body of a binder goes on as
far as the parentheses around it allow. The reader keeps what is open as a list of frames, the
innermost first. Neither the term nor the frames may have more than `maxDepth` levels.
-/

namespace NamedFunctions.Term

/-- A term with the number of its levels. `nfn-relay/src/computation/term:126`. -/
structure Measured where
  term : Term
  levels : Nat

/-- What has been opened and not closed, with the terms applied so far in front of it.
`nfn-relay/src/computation/term:150–186`. -/
inductive Frame where
  | group (before : Option Measured)
  | binder (param : String) (before : Option Measured)

/-- A term with a number of levels, unless these are too many. `nfn-relay/src/computation/term:90–96`. -/
def measured (term : Term) (levels : Nat) : Except ParseError Measured :=
  if levels > maxDepth then .error .tooDeep else .ok ⟨term, levels⟩

/-- A term behind those applied so far. `nfn-relay/src/computation/term:136–142`. -/
def applyTo (before : Option Measured) (next : Measured) : Except ParseError Measured :=
  match before with
  | none => .ok next
  | some f => measured (.app f.term next.term) (max f.levels next.levels + 1)

/-- Close the innermost binders around a term, up to the next parenthesis that is open.
`nfn-relay/src/computation/term:183–186`. -/
def closeBinders : List Frame → Measured → Except ParseError (List Frame × Measured)
  | .binder param before :: frames, body =>
    match measured (.abs param body.term) (body.levels + 1) with
    | .error error => .error error
    | .ok abstraction =>
      match applyTo before abstraction with
      | .error error => .error error
      | .ok term => closeBinders frames term
  | frames, term => .ok (frames, term)

/-- Read the remaining tokens, given what is open and the terms applied so far.
`nfn-relay/src/computation/term:127–186`. -/
def parseTokens (frames : List Frame) (before : Option Measured) :
    Tokens → Except ParseError Term
  | .fault error => .error error
  | .done offset =>
    match before with
    | none => .error (.missingTerm offset)
    | some term =>
      match closeBinders frames term with
      | .error error => .error error
      | .ok ([], term) => .ok term.term
      | .ok (_ :: _, _) => .error .unclosed
  | .token .opening _ rest =>
    if frames.length + 2 > maxDepth then .error .tooDeep
    else parseTokens (.group before :: frames) none rest
  | .token (.binder param) _ rest =>
    if frames.length + 2 > maxDepth then .error .tooDeep
    else parseTokens (.binder param before :: frames) none rest
  | .token (.word name) _ rest =>
    match applyTo before ⟨.var name, 1⟩ with
    | .error error => .error error
    | .ok term => parseTokens frames (some term) rest
  | .token .closing offset rest =>
    match before with
    | none => .error (.missingTerm offset)
    | some term =>
      match closeBinders frames term with
      | .error error => .error error
      | .ok (.group before :: frames, term) =>
        match applyTo before term with
        | .error error => .error error
        | .ok term => parseTokens frames (some term) rest
      | .ok (_, _) => .error (.unexpected ")" offset)

/-- The term that a text spells. `nfn-relay/src/computation/term:61–82`. -/
def parse (text : String) : Except ParseError Term := parseTokens [] none (scan 0 text.toList)

end NamedFunctions.Term
