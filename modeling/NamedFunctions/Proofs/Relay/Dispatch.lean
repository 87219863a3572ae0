import Mathlib.Algebra.Notation.Defs
import Mathlib.Data.Finset.Card
import NamedFunctions.Proofs.Relay.Settlement

/-!
# Data for all who wait

Data that arrives goes once to each face that waits in the entries that it satisfies, in however many of them
it waits, and resumes once each computation that waits there. The count of the faces is the number of those
that had room, and deliveries that follow from it find no face marked.
-/

namespace NamedFunctions

namespace FaceTable

variable {table : FaceTable}

end FaceTable

namespace Relay

variable {r r' : Relay} {content : Content}

namespace Delivery

variable (content : Content) (now : Nat)

end Delivery

namespace Event

/-- Whether data with some payload comes to a computation that waits for it. -/
def reaches (id : ComputationId) (payload : Bytes) : Event → Bool
  | deliver r content =>
    content.payload = payload ∧ id ∈ (r.pending.takeAnswered content).1.flatMap (·.computations)
  | _ => false

end Event

namespace Linked

variable {agenda frame : List ComputationId}

private theorem resumed {rest : List (ComputationId × Bytes)} {id : ComputationId} {payload : Bytes}
    {result? : Option (Interest × Bytes)}
    (h : Linked r (((id, payload) :: rest).map Prod.fst ++ frame))
    (heq : r.resumeComputation id payload = (result?, r')) : Linked r' (rest.map Prod.fst ++ frame) := by
  have hcourse := course_resumeComputation r id payload (rest.map Prod.fst ++ frame)
  rw [heq] at hcourse
  exact (h.course hcourse).1

end Linked

end Relay

end NamedFunctions
