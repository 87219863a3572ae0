import NamedFunctions.Document
import NamedFunctions.Packet

/-!
# Packets as documents
-/

namespace NamedFunctions

open Document

/-- A suite is spelled by its name. `nfn-core/src/name:11–25`. -/
instance : DocumentForm Suite where
  toDocument suite := text suite.toString
  ofDocument? dialect d := (word? dialect d).bind Suite.ofString?

/-- Flags of a name are a record. `nfn-core/src/name:60–69`. -/
instance : DocumentForm NameFlags where
  toDocument flags :=
    record [("expression", toDocument flags.expression), ("thunk", toDocument flags.thunk),
      ("computed", toDocument flags.computed)]
  ofDocument? := readRecord do
    return {
      expression := ← field "expression", thunk := ← field "thunk", computed := ← field "computed" }

/-- A name is a record with its components as lists of octets. `nfn-core/src/name:71–79`. -/
instance : DocumentForm Name where
  toDocument name :=
    record [("components", toDocument name.components), ("suite", toDocument name.suite),
      ("chunk", toDocument name.chunk), ("nfn", toDocument name.flags)]
  ofDocument? := readRecord do
    return {
      components := ← field "components", suite := ← field "suite", chunk := ← field? "chunk",
      flags := ← field "nfn" }

/-- Selectors of CCNB are a record. `nfn-core/src/packets:8–15`. -/
instance : DocumentForm CcnbSelectors where
  toDocument s :=
    record [("min_suffix_components", toDocument s.minSuffix),
      ("max_suffix_components", toDocument s.maxSuffix),
      ("answer_origin_kind", toDocument s.answerOriginKind),
      ("publisher_digest", toDocument s.publisherDigest)]
  ofDocument? := readRecord do
    return {
      minSuffix := ← field? "min_suffix_components", maxSuffix := ← field? "max_suffix_components",
      answerOriginKind := ← field? "answer_origin_kind",
      publisherDigest := ← field? "publisher_digest" }

/-- Selectors of CCNx are a record without fields. `nfn-core/src/packets:17–21`. -/
instance : DocumentForm CcnxSelectors where
  toDocument s := record [("key_id", toDocument s.keyId)]
  ofDocument? := readRecord do return { keyId := ← field? "key_id" }

/-- Selectors of NDN are a record. `nfn-core/src/packets:23–31`. -/
instance : DocumentForm NdnSelectors where
  toDocument s :=
    record [("min_suffix_components", toDocument s.minSuffix),
      ("max_suffix_components", toDocument s.maxSuffix),
      ("must_be_fresh", toDocument s.mustBeFresh), ("exclude", toDocument s.exclude),
      ("publisher_locator", toDocument s.publisherLocator)]
  ofDocument? := readRecord do
    return {
      minSuffix := ← field? "min_suffix_components", maxSuffix := ← field? "max_suffix_components",
      mustBeFresh := ← field "must_be_fresh", exclude := ← field "exclude",
      publisherLocator := ← field? "publisher_locator" }

/-- Selectors are those of a suite under its name, or plain. `nfn-core/src/packets:33–41`. -/
instance : DocumentForm Selectors where
  toDocument
    | .plain => text "Plain"
    | .ccnb s => ofChoice "Ccnb" s
    | .ccnx2014 s => ofChoice "CcnTlv" s
    | .ndn2013 s => ofChoice "NdnTlv" s
  ofDocument? dialect d :=
    match choice? d with
    | some ("Plain", content) => if content.all dialect.isBlank then some .plain else none
    | some ("Ccnb", some d) => (ofDocument? dialect d).map .ccnb
    | some ("CcnTlv", some d) => (ofDocument? dialect d).map .ccnx2014
    | some ("NdnTlv", some d) => (ofDocument? dialect d).map .ndn2013
    | _ => none

/-- The publisher in a record with named fields. -/
private def publisherField? (key : String) (dialect : Dialect) : Document → Option (Option Bytes)
  | record fields => readRecord (field? key) dialect (record fields)
  | _ => none

/-- Details of a publisher are those of a suite under its name, or plain. `nfn-core/src/packets:92–100`. -/
instance : DocumentForm PublisherDetails where
  toDocument
    | .plain => text "Plain"
    | .ccnb p => record [("Ccnb", record [("publisher_digest", toDocument p)])]
    | .ccnx2014 p => record [("CcnTlv", record [("key_id", toDocument p)])]
    | .ndn2013 p => record [("NdnTlv", record [("publisher_locator", toDocument p)])]
  ofDocument? dialect d :=
    match choice? d with
    | some ("Plain", content) => if content.all dialect.isBlank then some .plain else none
    | some ("Ccnb", some d) => (publisherField? "publisher_digest" dialect d).map .ccnb
    | some ("CcnTlv", some d) => (publisherField? "key_id" dialect d).map .ccnx2014
    | some ("NdnTlv", some d) => (publisherField? "publisher_locator" dialect d).map .ndn2013
    | _ => none

/-- Whole seconds, of which there are fewer than 2⁶⁴, and nanoseconds. -/
instance : DocumentForm Duration where
  toDocument d := record [("secs", toDocument d.seconds), ("nanos", toDocument d.subsecond)]
  ofDocument? dialect d := do
    let (seconds, nanoseconds) ← readRecord
      (return ((← field "secs" : Nat), (← field "nanos" : UInt32).toNat)) dialect d
    let duration : Duration := ⟨seconds * 1000000000 + nanoseconds⟩
    guard (d.hasOnly ["secs", "nanos"] && duration.seconds < UInt64.size)
    return duration

/-- An Interest is a record. `nfn-core/src/packets:113–120`. -/
instance : DocumentForm Interest where
  toDocument i :=
    record [("prefix", toDocument i.name), ("selectors", toDocument i.selectors),
      ("nonce", toDocument i.nonce), ("lifetime", toDocument i.lifetime)]
  ofDocument? := readRecord do
    return {
      name := ← field "prefix", selectors := ← field "selectors", nonce := ← field? "nonce",
      lifetime := ← field? "lifetime" }

/-- A Content is a record. `nfn-core/src/packets:154–161`. -/
instance : DocumentForm Content where
  toDocument c :=
    record [("name", toDocument c.name), ("payload", toDocument c.payload),
      ("details", toDocument c.details), ("freshness", toDocument c.freshness)]
  ofDocument? := readRecord do
    return {
      name := ← field "name", payload := ← field "payload", details := ← field "details",
      freshness := ← field? "freshness" }

/-- A packet is an Interest or a Content under the name of its kind. `nfn-core/src/packets:194–199`. -/
instance : DocumentForm Packet where
  toDocument
    | .interest i => ofChoice "Interest" i
    | .content c => ofChoice "Content" c
  ofDocument? dialect d :=
    match choice? d with
    | some ("Interest", some d) => (ofDocument? dialect d).map .interest
    | some ("Content", some d) => (ofDocument? dialect d).map .content
    | _ => none

end NamedFunctions
