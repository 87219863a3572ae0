import NamedFunctions.Name.Matching
import NamedFunctions.Packet

/-!
# Which data answers which Interest

Data answers an Interest if its name agrees with the one asked for and the selectors accept it. Two
Interests ask the same if their names are exactly the same and so are their selectors.
-/

namespace NamedFunctions

namespace Selectors

/-- Whether data may answer a request for a name of `length` components; `stale` tells that the data is no
longer fresh. `nfn-relay/src/matcher:50–69`. -/
def accept (selectors : Selectors) (length : Nat) (content : Content) (stale : Bool) : Bool :=
  let suffix := UInt32.ofNat (content.name.length - length)
  selectors.minSuffix.all (· ≤ suffix) &&
    selectors.maxSuffix.all (suffix ≤ ·) &&
    (selectors.publisher.isNone || selectors.publisher == content.publisher) &&
    content.name.components[length]?.all (fun next => !selectors.exclude.contains next) &&
    !(stale && selectors.mustBeFresh)

end Selectors

namespace Interest

/-- Whether two Interests ask for the same data in the same way. `nfn-relay/src/matcher:37–40`. -/
def asksSame (a b : Interest) : Bool :=
  a.name.agrees .exact b.name && a.selectors == b.selectors

/-- Whether data answers an Interest; `stale` tells that the data is no longer fresh.
`nfn-relay/src/matcher:42–48`. -/
def satisfiedBy (interest : Interest) (content : Content) (stale : Bool) : Bool :=
  interest.name.agrees .request content.name &&
    interest.selectors.accept interest.name.length content stale

end Interest

end NamedFunctions
