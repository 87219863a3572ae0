import NamedFunctions.Packet
import NamedFunctions.Tlv.Element

/-!
# Packets on the wire

The packet format of the suite ndn2013: an Interest or a Content is one element that holds others.
The writer puts each part once and in a fixed order; the reader takes them in any order, skips those
it does not know, lets the last of several count and ignores what follows the outer element.
-/

namespace NamedFunctions

/-- Why a packet cannot be read or written. `nfn-core/src/codec:41–51`. -/
inductive WireError where
  /-- The data is not made of elements. -/
  | malformed (error : Tlv.Error)
  /-- The outer element is no packet. -/
  | notAPacket (type : UInt64)
  /-- There is no wire format for the suite. -/
  | unsupportedSuite (suite : Suite)
  /-- The name in the packet is of another suite than the wire format. -/
  | wrongSuite (found expected : Suite)
deriving DecidableEq, Repr

/-- The text of an error about the wire. `nfn-core/src/codec:43–50`. -/
def WireError.message : WireError → String
  | malformed error => "malformed TLV: " ++ error.message
  | notAPacket type =>
    "packet type " ++ Text.hexNumeral type.toNat ++ " is neither Interest nor Content"
  | unsupportedSuite suite => "no codec for suite " ++ suite.toString
  | wrongSuite found expected =>
    "name belongs to suite " ++ found.toString ++ ", codec handles " ++ expected.toString

namespace Ndn

/-- The type of an Interest. `nfn-core/src/codec:16`. -/
def interestType : UInt64 := 0x05

/-- The type of a Content. `nfn-core/src/codec:17`. -/
def dataType : UInt64 := 0x06

/-- The type of a name. `nfn-core/src/codec:18`. -/
def nameType : UInt64 := 0x07

/-- The type of a component of a name. `nfn-core/src/codec:19`. -/
def componentType : UInt64 := 0x08

/-- The type of the selectors of an Interest. `nfn-core/src/codec:20`. -/
def selectorsType : UInt64 := 0x09

/-- The type of a nonce. `nfn-core/src/codec:21`. -/
def nonceType : UInt64 := 0x0A

/-- The type of the lifetime of an Interest. `nfn-core/src/codec:22`. -/
def lifetimeType : UInt64 := 0x0C

/-- The type of the least number of further components. `nfn-core/src/codec:23`. -/
def minSuffixType : UInt64 := 0x0D

/-- The type of the greatest number of further components. `nfn-core/src/codec:24`. -/
def maxSuffixType : UInt64 := 0x0E

/-- The type of the digest that names a publisher. `nfn-core/src/codec:25`. -/
def publisherLocatorType : UInt64 := 0x0F

/-- The type of the components that are excluded. `nfn-core/src/codec:26`. -/
def excludeType : UInt64 := 0x10

/-- The type of the wish for fresh data. `nfn-core/src/codec:27`. -/
def mustBeFreshType : UInt64 := 0x12

/-- The type of what is said of a Content. `nfn-core/src/codec:28`. -/
def metaInfoType : UInt64 := 0x14

/-- The type of a payload. `nfn-core/src/codec:29`. -/
def contentType : UInt64 := 0x15

/-- The type of what is said of a signature. `nfn-core/src/codec:30`. -/
def signatureInfoType : UInt64 := 0x16

/-- The type of a signature. `nfn-core/src/codec:31`. -/
def signatureValueType : UInt64 := 0x17

/-- The type of a period of freshness. `nfn-core/src/codec:32`. -/
def freshnessType : UInt64 := 0x19

/-- The type of the kind of a signature. `nfn-core/src/codec:33`. -/
def signatureTypeType : UInt64 := 0x1B

/-- The type of what a key is found by. `nfn-core/src/codec:34`. -/
def keyLocatorType : UInt64 := 0x1C

/-- The type of the digest of a key. `nfn-core/src/codec:35`. -/
def keyDigestType : UInt64 := 0x1D

/-- The type of a component that numbers a chunk. `nfn-core/src/codec:36`. -/
def segmentType : UInt64 := 0x32

/-- The element that holds other elements. -/
def node (type : UInt64) (elements : List Tlv.Element) : Tlv.Element := ⟨type, Tlv.encodeAll elements⟩

/-- A name: its components and, last, the number of its chunk. `nfn-core/src/codec:94–104`. -/
def nameElement (name : Name) : Tlv.Element :=
  node nameType
    (name.components.map (Tlv.Element.mk componentType) ++
      name.chunk.toList.map fun chunk => .ofInteger segmentType chunk.toUInt64)

/-- A publisher, as the digest of its key in an element of the given type.
`nfn-core/src/codec:128–131,286–289`. -/
def publisherElement (type : UInt64) (publisher : Bytes) : Tlv.Element :=
  node type [⟨keyDigestType, publisher⟩]

/-- The elements of the selectors that narrow something. `nfn-core/src/codec:119–148`. -/
def selectorElements (s : Selectors) : List Tlv.Element :=
  (s.minSuffix.toList.map fun n => .ofInteger minSuffixType n.toUInt64) ++
  (s.maxSuffix.toList.map fun n => .ofInteger maxSuffixType n.toUInt64) ++
  (s.publisher.toList.map (publisherElement publisherLocatorType)) ++
  (if s.exclude.isEmpty then []
    else [node excludeType (s.exclude.map (Tlv.Element.mk componentType))]) ++
  (if s.mustBeFresh then [⟨mustBeFreshType, []⟩] else [])

/-- The whole milliseconds of a span, as many as 64 bits hold. `nfn-core/src/codec:270–272,279–282`. -/
def millisecondsElement (type : UInt64) (d : Duration) : Tlv.Element :=
  .ofInteger type (UInt64.ofNat d.milliseconds)

/-- An Interest as an element. `nfn-core/src/codec:261–274`. -/
def interestElement (i : Interest) : Tlv.Element :=
  let selectors := selectorElements i.selectors
  node interestType
    (nameElement i.name ::
      ((if selectors.isEmpty then [] else [node selectorsType selectors]) ++
        (i.nonce.toList.map fun n => ⟨nonceType, BigEndian.ofNat 4 n.toNat⟩) ++
        i.lifetime.toList.map (millisecondsElement lifetimeType)))

/-- A Content as an element; the signature is empty. `nfn-core/src/codec:276–294`. -/
def contentElement (c : Content) : Tlv.Element :=
  node dataType
    (nameElement c.name ::
      ((c.freshness.toList.map fun d => node metaInfoType [millisecondsElement freshnessType d]) ++
        [⟨contentType, c.payload⟩,
          node signatureInfoType
            (.ofInteger signatureTypeType 0 ::
              c.publisher.toList.map (publisherElement keyLocatorType)),
          ⟨signatureValueType, []⟩]))

/-- A packet as an element. `nfn-core/src/codec:63–68`. -/
def packetElement : Packet → Tlv.Element
  | .interest i => interestElement i
  | .content c => contentElement c

/-- The octets of a packet, whose name has to be of the suite. `nfn-core/src/codec:63–68,84–92`. -/
def encode (packet : Packet) : Except WireError Bytes :=
  if packet.name.suite = .ndn2013 then .ok (packetElement packet).encode
  else .error (.wrongSuite packet.name.suite .ndn2013)

/-- What elements say, or the error that the data is malformed. `nfn-core/src/codec:43–44`. -/
def wellFormed {α : Type} : Except Tlv.Error α → Except WireError α
  | .ok a => .ok a
  | .error error => .error (.malformed error)

/-- The elements that some data consists of. -/
def elements (data : Bytes) : Except WireError (List Tlv.Element) := wellFormed (Tlv.decodeAll data)

/-- The value of the element at the start of some data. `nfn-core/src/codec:161–162,227–228`. -/
def innerValue (data : Bytes) : Except WireError Bytes :=
  wellFormed ((Tlv.Element.decode data).map fun (inner, _) => inner.value)

/-- Add an element to a name: a chunk, or a component of whatever type. `nfn-core/src/codec:109–113`. -/
def addComponent (name : Name) (e : Tlv.Element) : Except WireError Name :=
  if e.type = segmentType then
    (wellFormed e.integer32).map fun chunk => { name with chunk := some chunk }
  else .ok (name.append e.value)

/-- The name that a value holds. `nfn-core/src/codec:106–117`. -/
def readName (value : Bytes) : Except WireError Name := do
  let name ← (← elements value).foldlM addComponent { suite := .ndn2013 }
  return name.classify

/-- Add an element to the selectors. `nfn-core/src/codec:153–173`. -/
def addSelector (s : NdnSelectors) (e : Tlv.Element) : Except WireError NdnSelectors :=
  if e.type = minSuffixType then
    (wellFormed e.integer32).map fun n => { s with minSuffix := some n }
  else if e.type = maxSuffixType then
    (wellFormed e.integer32).map fun n => { s with maxSuffix := some n }
  else if e.type = publisherLocatorType then
    (innerValue e.value).map fun publisher => { s with publisherLocator := some publisher }
  else if e.type = excludeType then
    (elements e.value).map fun excluded =>
      { s with exclude := (excluded.filter (·.type == componentType)).map (·.value) }
  else if e.type = mustBeFreshType then .ok { s with mustBeFresh := true }
  else .ok s

/-- The selectors that a value holds. `nfn-core/src/codec:150–176`. -/
def readSelectors (value : Bytes) : Except WireError NdnSelectors := do
  (← elements value).foldlM addSelector {}

/-- What has been read of an Interest. `nfn-core/src/codec:179–182`. -/
structure InterestParts where
  name : Option Name := none
  selectors : NdnSelectors := {}
  nonce : Option UInt32 := none
  lifetime : Option Duration := none

/-- Add an element to an Interest. A nonce that is not of four octets is skipped.
`nfn-core/src/codec:185–197`. -/
def addInterestPart (p : InterestParts) (e : Tlv.Element) : Except WireError InterestParts :=
  if e.type = nameType then (readName e.value).map fun name => { p with name := some name }
  else if e.type = selectorsType then
    (readSelectors e.value).map fun selectors => { p with selectors }
  else if e.type = nonceType then
    if e.value.length = 4 then
      .ok { p with nonce := some (UInt32.ofNat (BigEndian.toNat e.value)) }
    else .ok p
  else if e.type = lifetimeType then
    (wellFormed e.integer).map fun n => { p with lifetime := some (.ofMilliseconds n.toNat) }
  else .ok p

/-- The Interest that a value holds. `nfn-core/src/codec:178–205`. -/
def readInterest (value : Bytes) : Except WireError Interest := do
  let p ← (← elements value).foldlM addInterestPart {}
  match p.name with
  | none => throw (.malformed (.missing nameType))
  | some name =>
    return { name, selectors := .ndn2013 p.selectors, nonce := p.nonce, lifetime := p.lifetime }

/-- What has been read of a Content. `nfn-core/src/codec:208–211`. -/
structure ContentParts where
  name : Option Name := none
  payload : Bytes := []
  freshness : Option Duration := none
  publisher : Option Bytes := none

/-- Add an element of the meta information. `nfn-core/src/codec:216–222`. -/
def addMetaInfo (p : ContentParts) (e : Tlv.Element) : Except WireError ContentParts :=
  if e.type = freshnessType then
    (wellFormed e.integer).map fun n => { p with freshness := some (.ofMilliseconds n.toNat) }
  else .ok p

/-- Add an element of the signature information. `nfn-core/src/codec:224–231`. -/
def addSignatureInfo (p : ContentParts) (e : Tlv.Element) : Except WireError ContentParts :=
  if e.type = keyLocatorType then
    (innerValue e.value).map fun publisher => { p with publisher := some publisher }
  else .ok p

/-- Add an element to a Content. `nfn-core/src/codec:214–233`. -/
def addContentPart (p : ContentParts) (e : Tlv.Element) : Except WireError ContentParts :=
  if e.type = nameType then (readName e.value).map fun name => { p with name := some name }
  else if e.type = metaInfoType then do (← elements e.value).foldlM addMetaInfo p
  else if e.type = contentType then .ok { p with payload := e.value }
  else if e.type = signatureInfoType then do (← elements e.value).foldlM addSignatureInfo p
  else .ok p

/-- The Content that a value holds. `nfn-core/src/codec:207–241`. -/
def readContent (value : Bytes) : Except WireError Content := do
  let p ← (← elements value).foldlM addContentPart {}
  match p.name with
  | none => throw (.malformed (.missing nameType))
  | some name =>
    return { name, payload := p.payload, details := .ndn2013 p.publisher, freshness := p.freshness }

/-- The packet at the start of some data. `nfn-core/src/codec:249–259`. -/
def decode (data : Bytes) : Except WireError Packet := do
  let (outer, _) ← wellFormed (Tlv.Element.decode data)
  if outer.type = interestType then return .interest (← readInterest outer.value)
  else if outer.type = dataType then return .content (← readContent outer.value)
  else throw (.notAPacket outer.type)

/-- Whether some data looks like a packet by its outer type alone. `nfn-core/src/codec:297–300`. -/
def looksLikePacket (data : Bytes) : Bool :=
  match Tlv.peekType data with
  | .ok type => type == interestType || type == dataType
  | .error _ => false

end Ndn

/-- A way to write packets as octets. `nfn-core/src/codec:53–69`. -/
inductive WireFormat where
  /-- The format of the suite ndn2013. -/
  | ndn
deriving DecidableEq, Repr

namespace WireFormat

/-- The suite that a format belongs to. `nfn-core/src/codec:245–247`. -/
def suite : WireFormat → Suite
  | ndn => .ndn2013

/-- The octets of a packet. `nfn-core/src/codec:63–68`. -/
def encode : WireFormat → Packet → Except WireError Bytes
  | ndn => Ndn.encode

/-- The packet at the start of some data. `nfn-core/src/codec:57`. -/
def decode : WireFormat → Bytes → Except WireError Packet
  | ndn => Ndn.decode

/-- The format of a suite. `nfn-core/src/codec:71–77`. -/
def ofSuite : Suite → Except WireError WireFormat
  | .ndn2013 => .ok ndn
  | suite => .error (.unsupportedSuite suite)

end WireFormat

end NamedFunctions
