import NamedFunctions.Duration
import NamedFunctions.Name

/-!
# Packets

An Interest asks for data by name, with selectors that narrow what may answer it. A Content is named
data with the details of its publisher. Which selectors and details there are depends on the suite.
-/

namespace NamedFunctions

/-- Selectors of the suite ccnb. `nfn-core/src/packets:8–15`. -/
structure CcnbSelectors where
  minSuffix : Option UInt32 := none
  maxSuffix : Option UInt32 := none
  answerOriginKind : Option UInt32 := none
  publisherDigest : Option Bytes := none
deriving DecidableEq, Repr, Inhabited

/-- Selectors of the suite ccnx2014. `nfn-core/src/packets:17–21`. -/
structure CcnxSelectors where
  keyId : Option Bytes := none
deriving DecidableEq, Repr, Inhabited

/-- Selectors of the suite ndn2013. `nfn-core/src/packets:23–31`. -/
structure NdnSelectors where
  minSuffix : Option UInt32 := none
  maxSuffix : Option UInt32 := none
  mustBeFresh : Bool := false
  exclude : List Bytes := []
  publisherLocator : Option Bytes := none
deriving DecidableEq, Repr, Inhabited

/-- What narrows the data that may answer an Interest. `nfn-core/src/packets:33–41`. -/
inductive Selectors where
  | plain
  | ccnb (selectors : CcnbSelectors)
  | ccnx2014 (selectors : CcnxSelectors)
  | ndn2013 (selectors : NdnSelectors)
deriving DecidableEq, Repr, Inhabited

namespace Selectors

/-- The selectors of a suite that narrow nothing. `nfn-core/src/packets:44–52`. -/
def ofSuite : Suite → Selectors
  | .ccnb => .ccnb {}
  | .ccnx2014 => .ccnx2014 {}
  | .ndn2013 => .ndn2013 {}
  | .iot2014 | .localRpc => .plain

/-- The least number of components that the name of the data has beyond the one asked for.
`nfn-core/src/packets:54–60`. -/
def minSuffix : Selectors → Option UInt32
  | ccnb s => s.minSuffix
  | ndn2013 s => s.minSuffix
  | _ => none

/-- The greatest number of components that the name of the data has beyond the one asked for.
`nfn-core/src/packets:62–68`. -/
def maxSuffix : Selectors → Option UInt32
  | ccnb s => s.maxSuffix
  | ndn2013 s => s.maxSuffix
  | _ => none

/-- Whether stale data is refused. `nfn-core/src/packets:70–72`. -/
def mustBeFresh : Selectors → Bool
  | ndn2013 s => s.mustBeFresh
  | _ => false

/-- The components that may not come next in the name of the data. `nfn-core/src/packets:74–79`. -/
def exclude : Selectors → List Bytes
  | ndn2013 s => s.exclude
  | _ => []

/-- The publisher that the data must have. `nfn-core/src/packets:81–89`. -/
def publisher : Selectors → Option Bytes
  | plain => none
  | ccnb s => s.publisherDigest
  | ccnx2014 s => s.keyId
  | ndn2013 s => s.publisherLocator

end Selectors

/-- What data tells of its publisher. `nfn-core/src/packets:92–100`. -/
inductive PublisherDetails where
  | plain
  | ccnb (publisherDigest : Option Bytes)
  | ccnx2014 (keyId : Option Bytes)
  | ndn2013 (publisherLocator : Option Bytes)
deriving DecidableEq, Repr, Inhabited

namespace PublisherDetails

/-- The details of a suite that tell nothing. `nfn-core/src/packets:164–177`. -/
def ofSuite : Suite → PublisherDetails
  | .ccnb => .ccnb none
  | .ccnx2014 => .ccnx2014 none
  | .ndn2013 => .ndn2013 none
  | .iot2014 | .localRpc => .plain

/-- The publisher, if it is told. `nfn-core/src/packets:103–110`. -/
def publisher : PublisherDetails → Option Bytes
  | plain => none
  | ccnb p => p
  | ccnx2014 p => p
  | ndn2013 p => p

end PublisherDetails

/-- A request for named data. `nfn-core/src/packets:113–120`. -/
structure Interest where
  name : Name
  selectors : Selectors
  nonce : Option UInt32 := none
  lifetime : Option Duration := none
deriving DecidableEq, Repr

/-- The Interest in a name with nothing that narrows it. `nfn-core/src/packets:123–131`. -/
def Interest.ofName (name : Name) : Interest := { name, selectors := .ofSuite name.suite }

/-- The Interest with a nonce: its own, or the given one if it has none. `nfn-core/src/packets:148–151`. -/
def Interest.withNonce (interest : Interest) (fresh : UInt32) : Interest :=
  { interest with nonce := some (interest.nonce.getD fresh) }

/-- Named data. `nfn-core/src/packets:154–161`. -/
structure Content where
  name : Name
  payload : Bytes
  details : PublisherDetails
  /-- How long the data counts as fresh. -/
  freshness : Option Duration := none
deriving DecidableEq, Repr

namespace Content

/-- The data under a name, without more about it. `nfn-core/src/packets:164–177`. -/
def ofPayload (name : Name) (payload : Bytes) : Content :=
  { name, payload, details := .ofSuite name.suite }

/-- The publisher of the data, if it is told. `nfn-core/src/packets:189–191`. -/
def publisher (content : Content) : Option Bytes := content.details.publisher

end Content

/-- What relays exchange. `nfn-core/src/packets:194–199`. -/
inductive Packet where
  | interest (interest : Interest)
  | content (content : Content)
deriving DecidableEq, Repr

namespace Packet

/-- The name in a packet. `nfn-core/src/packets:202–207`. -/
def name : Packet → Name
  | interest i => i.name
  | content c => c.name

/-- Whether a packet is an Interest. `nfn-core/src/packets:209–211`. -/
def isInterest : Packet → Bool
  | interest _ => true
  | content _ => false

end Packet

end NamedFunctions
