import NamedFunctions.Packet.Wire
import NamedFunctions.Proofs.Tlv.Element

/-!
# Packets that are read back

The reader is a fold over elements in any order, so what the writer puts in one order is read part by
part: each part of a packet is read back by the step that knows its type, and leaves the other parts as
they are. A packet of the format is read back without the mark of computed results, for which the format
has no place.
-/

namespace NamedFunctions

namespace Name

/-- A name with the flags that its components determine. -/
def Classified (name : Name) : Prop := name.classify = name

/-- A name without the mark that its data is the result of a computation. -/
def unmarked (name : Name) : Name := { name with flags := { name.flags with computed := false } }

/-- Classifying a name leaves its suite. -/
@[simp] theorem suite_classify (name : Name) : name.classify.suite = name.suite := by
  unfold classify
  split <;> rfl

/-- Classifying a name leaves its components. -/
@[simp] theorem components_classify (name : Name) :
    name.classify.components = name.components := by
  unfold classify
  split <;> rfl

/-- Classifying a name leaves its mark. -/
@[simp] theorem computed_classify (name : Name) :
    name.classify.flags.computed = name.flags.computed := by
  unfold classify
  split <;> rfl

/-- A name is classified once that is done. -/
theorem classified_classify (name : Name) : name.classify.Classified := by
  unfold Classified
  cases h : name.components.reverse with
  | nil => simp [classify, h]
  | cons last before => simp [classify, h]

/-- A name without the mark stays. -/
theorem unmarked_eq {name : Name} (h : name.flags.computed = false) : name.unmarked = name := by
  rw [unmarked, ← h]

/-- A classified name is determined by its components, its suite and its chunk, up to the mark. -/
theorem Classified.classify_eq {name : Name} (h : name.Classified) :
    Name.classify ⟨name.components, name.suite, name.chunk, {}⟩ = name.unmarked := by
  have hunmarked : Name.classify ⟨name.components, name.suite, name.chunk, {}⟩ =
      name.classify.unmarked := by
    cases h : name.components.reverse with
    | nil => simp [classify, unmarked, h]
    | cons last before => simp [classify, unmarked, h]
  rw [hunmarked, h]

end Name

/-- A span of whole milliseconds, as many as 64 bits hold. -/
def Duration.Whole (d : Duration) : Prop := ∃ n : UInt64, d = .ofMilliseconds n.toNat

/-- An Interest that the format ndn2013 can carry. -/
structure Interest.Encodable (i : Interest) : Prop where
  suite : i.name.suite = .ndn2013
  classified : i.name.Classified
  selectors : ∃ s, i.selectors = .ndn2013 s
  lifetime : ∀ d ∈ i.lifetime, d.Whole

/-- A Content that the format ndn2013 can carry. -/
structure Content.Encodable (c : Content) : Prop where
  suite : c.name.suite = .ndn2013
  classified : c.name.Classified
  details : ∃ publisher, c.details = .ndn2013 publisher
  freshness : ∀ d ∈ c.freshness, d.Whole

namespace Packet

/-- A packet that the format ndn2013 can carry, up to the mark of computed results. -/
def Encodable : Packet → Prop
  | interest i => i.Encodable
  | content c => c.Encodable

/-- A packet without the mark of computed results. -/
def unmarked : Packet → Packet
  | interest i => .interest { i with name := i.name.unmarked }
  | content c => .content { c with name := c.name.unmarked }

/-- A packet that the format ndn2013 can carry as it is. -/
def Canonical (packet : Packet) : Prop :=
  packet.Encodable ∧ packet.name.flags.computed = false

private theorem Encodable.suite_name {packet : Packet} (h : packet.Encodable) :
    packet.name.suite = .ndn2013 := by
  cases packet with
  | interest i => exact Interest.Encodable.suite h
  | content c => exact Content.Encodable.suite h

/-- A packet whose name has no mark stays. -/
theorem unmarked_eq {packet : Packet} (h : packet.name.flags.computed = false) :
    packet.unmarked = packet := by
  cases packet with
  | interest i =>
    have hname : i.name.unmarked = i.name := Name.unmarked_eq h
    rw [unmarked, hname]
  | content c =>
    have hname : c.name.unmarked = c.name := Name.unmarked_eq h
    rw [unmarked, hname]

end Packet

namespace Ndn

private theorem ok_bind {α β : Type} (a : α) (f : α → Except WireError β) :
    (Except.ok a >>= f : Except WireError β) = f a := rfl

section Sequences

variable {σ α : Type} {f : σ → Tlv.Element → Except WireError σ}

/-- Parts that are read one after the other. -/
theorem foldlM_append_ok {first second : List Tlv.Element} {a b c : σ}
    (h₁ : first.foldlM f a = .ok b) (h₂ : second.foldlM f b = .ok c) :
    (first ++ second).foldlM f a = .ok c := by
  rw [List.foldlM_append, h₁]
  exact h₂

/-- An element, and then the others. -/
theorem foldlM_cons_ok {e : Tlv.Element} {elements : List Tlv.Element} {a b c : σ}
    (h₁ : f a e = .ok b) (h₂ : elements.foldlM f b = .ok c) :
    (e :: elements).foldlM f a = .ok c := by
  rw [List.foldlM_cons, h₁]
  exact h₂

/-- A part that need not be there: if it is, its element sets what was unset. -/
theorem foldlM_toList (part : Option α → σ) {element : α → Tlv.Element} {o : Option α}
    (h : ∀ a ∈ o, f (part none) (element a) = .ok (part (some a))) :
    (o.toList.map element).foldlM f (part none) = .ok (part o) := by
  cases o with
  | none => rfl
  | some a => exact foldlM_cons_ok (h a rfl) rfl

end Sequences

/-- A node has the type that it is given. -/
@[simp] theorem type_node (type : UInt64) (es : List Tlv.Element) : (node type es).type = type := rfl

/-- The element of a publisher has the type that it is given. -/
@[simp] theorem type_publisherElement (type : UInt64) (publisher : Bytes) :
    (publisherElement type publisher).type = type := rfl

private theorem fits_of_mem {type : UInt64} {es : List Tlv.Element} (h : (node type es).Fits)
    {e : Tlv.Element} (he : e ∈ es) : e.Fits :=
  Nat.lt_trans (Tlv.length_value_lt_of_mem he) h

/-- The elements in an element are read back. -/
theorem elements_node {type : UInt64} {es : List Tlv.Element} (h : (node type es).Fits) :
    elements (node type es).value = .ok es := by
  rw [elements, node, Tlv.decodeAll_encodeAll fun e he => fits_of_mem h he]
  rfl

/-- The value of the only element in an element is read back. -/
theorem innerValue_publisherElement {type : UInt64} {publisher : Bytes}
    (h : (publisherElement type publisher).Fits) :
    innerValue (publisherElement type publisher).value = .ok publisher := by
  have hinner : Tlv.Element.Fits ⟨keyDigestType, publisher⟩ := fits_of_mem h List.mem_cons_self
  have hvalue : (publisherElement type publisher).value =
      Tlv.Element.encode ⟨keyDigestType, publisher⟩ ++ [] := rfl
  rw [hvalue, innerValue, Tlv.Element.decode_encode_append hinner]
  rfl

private theorem foldlM_addComponent (components : List Bytes) (name : Name) :
    (components.map (Tlv.Element.mk componentType)).foldlM addComponent name =
      .ok { name with components := name.components ++ components } := by
  induction components generalizing name with
  | nil =>
    rw [List.append_nil]
    rfl
  | cons c components ih =>
    have hstep : addComponent name ⟨componentType, c⟩ = .ok (name.append c) := rfl
    apply foldlM_cons_ok hstep
    rw [ih (name.append c), Name.append, List.append_assoc]
    rfl

/-- A name is read back with the flags that its components determine. -/
theorem readName_nameElement {name : Name} (h : (nameElement name).Fits)
    (hsuite : name.suite = .ndn2013) (hclassified : name.Classified) :
    readName (nameElement name).value = .ok name.unmarked := by
  have hread : (name.components.map (Tlv.Element.mk componentType) ++
      name.chunk.toList.map fun chunk =>
        Tlv.Element.ofInteger segmentType chunk.toUInt64).foldlM addComponent
          { suite := .ndn2013 } = .ok ⟨name.components, .ndn2013, name.chunk, {}⟩ := by
    apply foldlM_append_ok (foldlM_addComponent _ _)
    apply foldlM_toList fun chunk => Name.mk name.components .ndn2013 chunk {}
    intro chunk _
    simp [addComponent, wellFormed, Except.map]
  rw [readName, nameElement, elements_node h]
  rw [ok_bind, hread, ok_bind, ← hclassified.classify_eq, hsuite]
  rfl

private theorem filter_component (excluded : List Bytes) :
    ((excluded.map (Tlv.Element.mk componentType)).filter (·.type == componentType)).map
      (·.value) = excluded := by
  induction excluded with
  | nil => rfl
  | cons c excluded ih =>
    rw [List.map_cons, List.filter_cons_of_pos (by simp), List.map_cons, ih]

section AddSelector

variable (s : NdnSelectors)

private theorem addSelector_minSuffix (n : UInt32) :
    addSelector s (.ofInteger minSuffixType n.toUInt64) = .ok { s with minSuffix := some n } := by
  simp [addSelector, wellFormed, Except.map]

private theorem addSelector_maxSuffix (n : UInt32) :
    addSelector s (.ofInteger maxSuffixType n.toUInt64) = .ok { s with maxSuffix := some n } := by
  simp [addSelector, wellFormed, Except.map, minSuffixType, maxSuffixType]

private theorem addSelector_publisher {publisher : Bytes}
    (h : (publisherElement publisherLocatorType publisher).Fits) :
    addSelector s (publisherElement publisherLocatorType publisher) =
      .ok { s with publisherLocator := some publisher } := by
  rw [addSelector, type_publisherElement, if_neg (by decide), if_neg (by decide), if_pos rfl,
    innerValue_publisherElement h]
  rfl

private theorem addSelector_exclude {excluded : List Bytes}
    (h : (node excludeType (excluded.map (Tlv.Element.mk componentType))).Fits) :
    addSelector s (node excludeType (excluded.map (Tlv.Element.mk componentType))) =
      .ok { s with exclude := excluded } := by
  rw [addSelector, type_node, if_neg (by decide), if_neg (by decide), if_neg (by decide), if_pos rfl,
    elements_node h, Except.map, filter_component]

private theorem addSelector_mustBeFresh (value : Bytes) :
    addSelector s ⟨mustBeFreshType, value⟩ = .ok { s with mustBeFresh := true } := rfl

end AddSelector

/-- Each selector is read back, the empty list of exclusions and byte strings without octets too. -/
theorem foldlM_addSelector {s : NdnSelectors}
    (h : ∀ e ∈ selectorElements (.ndn2013 s), e.Fits) :
    (selectorElements (.ndn2013 s)).foldlM addSelector {} = .ok s := by
  have hminSuffix : (s.minSuffix.toList.map fun n =>
      Tlv.Element.ofInteger minSuffixType n.toUInt64).foldlM addSelector {} =
      .ok { minSuffix := s.minSuffix } := by
    apply foldlM_toList fun minSuffix => ({ minSuffix } : NdnSelectors)
    intro n _
    exact addSelector_minSuffix _ n
  have hmaxSuffix : (s.maxSuffix.toList.map fun n =>
      Tlv.Element.ofInteger maxSuffixType n.toUInt64).foldlM addSelector
        { minSuffix := s.minSuffix } =
      .ok { minSuffix := s.minSuffix, maxSuffix := s.maxSuffix } := by
    apply foldlM_toList fun maxSuffix => ({ minSuffix := s.minSuffix, maxSuffix } : NdnSelectors)
    intro n _
    exact addSelector_maxSuffix _ n
  have hpublisher : (s.publisherLocator.toList.map
      (publisherElement publisherLocatorType)).foldlM addSelector
        { minSuffix := s.minSuffix, maxSuffix := s.maxSuffix } =
      .ok { s with exclude := [], mustBeFresh := false } := by
    apply foldlM_toList fun publisherLocator =>
      ({ minSuffix := s.minSuffix, maxSuffix := s.maxSuffix, publisherLocator } : NdnSelectors)
    intro publisher hpublisher
    apply addSelector_publisher
    apply h
    simp [selectorElements, Selectors.publisher, Option.mem_def.mp hpublisher]
  have hexclude : (if s.exclude.isEmpty then []
      else [node excludeType (s.exclude.map (Tlv.Element.mk componentType))]).foldlM addSelector
        { s with exclude := [], mustBeFresh := false } = .ok { s with mustBeFresh := false } := by
    cases hs : s.exclude with
    | nil => rfl
    | cons first excluded =>
      apply foldlM_cons_ok _ rfl
      apply addSelector_exclude
      apply h
      simp [selectorElements, Selectors.exclude, hs]
  have hmustBeFresh : (if s.mustBeFresh then [Tlv.Element.mk mustBeFreshType []] else []).foldlM
      addSelector { s with mustBeFresh := false } = .ok s := by
    cases hs : s.mustBeFresh with
    | false => exact congrArg Except.ok (by rw [← hs])
    | true =>
      apply foldlM_cons_ok (addSelector_mustBeFresh _ _)
      rw [← hs]
      rfl
  exact foldlM_append_ok (foldlM_append_ok (foldlM_append_ok
    (foldlM_append_ok hminSuffix hmaxSuffix) hpublisher) hexclude) hmustBeFresh

private theorem readSelectors_node {type : UInt64} {s : NdnSelectors}
    (h : (node type (selectorElements (.ndn2013 s))).Fits) :
    readSelectors (node type (selectorElements (.ndn2013 s))).value = .ok s := by
  rw [readSelectors, elements_node h]
  exact foldlM_addSelector fun e he => fits_of_mem h he

/-- Whole milliseconds are read back. -/
@[simp] theorem integer_millisecondsElement (type n : UInt64) :
    (millisecondsElement type (.ofMilliseconds n.toNat)).integer = .ok n := by
  rw [millisecondsElement, Duration.milliseconds_ofMilliseconds, Tlv.Element.integer_ofInteger,
    UInt64.ofNat_toNat]

/-- The element of a duration has the type that it is given. -/
@[simp] theorem type_millisecondsElement (type : UInt64) (d : Duration) :
    (millisecondsElement type d).type = type := rfl

/-- A nonce is read back. -/
theorem toNat_nonce (n : UInt32) :
    UInt32.ofNat (BigEndian.toNat (BigEndian.ofNat 4 n.toNat)) = n := by
  rw [BigEndian.toNat_ofNat n.toNat_lt, UInt32.ofNat_toNat]

/-- An Interest is read back, without the mark of computed results in its name. -/
theorem readInterest_interestElement {i : Interest} (h : (interestElement i).Fits)
    (hi : i.Encodable) :
    readInterest (interestElement i).value = .ok { i with name := i.name.unmarked } := by
  obtain ⟨s, hs⟩ := hi.selectors
  have hname : addInterestPart {} (nameElement i.name) = .ok { name := some i.name.unmarked } := by
    have hfits : (nameElement i.name).Fits := fits_of_mem h List.mem_cons_self
    rw [addInterestPart, nameElement, type_node, if_pos rfl, ← nameElement,
      readName_nameElement hfits hi.suite hi.classified]
    rfl
  have hselectors : (if (selectorElements i.selectors).isEmpty then []
      else [node selectorsType (selectorElements i.selectors)]).foldlM addInterestPart
        { name := some i.name.unmarked } =
      .ok { name := some i.name.unmarked, selectors := s } := by
    rw [hs]
    cases hes : selectorElements (.ndn2013 s) with
    | nil =>
      have hread : (selectorElements (.ndn2013 s)).foldlM addSelector {} = .ok s :=
        foldlM_addSelector (by simp [hes])
      rw [hes] at hread
      have hdefault : {} = s := Except.ok.inj hread
      rw [← hdefault]
      rfl
    | cons first others =>
      have hfits : (node selectorsType (selectorElements (.ndn2013 s))).Fits :=
        fits_of_mem h (by simp [hs, hes])
      apply foldlM_cons_ok _ rfl
      rw [← hes, addInterestPart, type_node, if_neg (by decide), if_pos rfl,
        readSelectors_node hfits]
      rfl
  have hnonce : (i.nonce.toList.map fun n =>
      Tlv.Element.mk nonceType (BigEndian.ofNat 4 n.toNat)).foldlM addInterestPart
        { name := some i.name.unmarked, selectors := s } =
      .ok { name := some i.name.unmarked, selectors := s, nonce := i.nonce } := by
    apply foldlM_toList fun nonce =>
      ({ name := some i.name.unmarked, selectors := s, nonce } : InterestParts)
    intro n _
    simp [addInterestPart, nonceType, nameType, selectorsType, toNat_nonce]
  have hlifetime : (i.lifetime.toList.map (millisecondsElement lifetimeType)).foldlM addInterestPart
        { name := some i.name.unmarked, selectors := s, nonce := i.nonce } =
      .ok ⟨some i.name.unmarked, s, i.nonce, i.lifetime⟩ := by
    apply foldlM_toList (InterestParts.mk (some i.name.unmarked) s i.nonce)
    intro d hd
    obtain ⟨n, rfl⟩ := hi.lifetime d hd
    rw [addInterestPart, type_millisecondsElement, if_neg (by decide), if_neg (by decide),
      if_neg (by decide), if_pos rfl, integer_millisecondsElement]
    rfl
  have hread := foldlM_cons_ok hname
    (foldlM_append_ok (foldlM_append_ok hselectors hnonce) hlifetime)
  rw [readInterest, interestElement, elements_node h]
  rw [ok_bind, hread, ok_bind, ← hs]
  rfl

/-- A Content is read back, without the mark of computed results in its name. -/
theorem readContent_contentElement {c : Content} (h : (contentElement c).Fits)
    (hc : c.Encodable) :
    readContent (contentElement c).value = .ok { c with name := c.name.unmarked } := by
  obtain ⟨publisher, hpublisher⟩ := hc.details
  have hname : addContentPart {} (nameElement c.name) = .ok { name := some c.name.unmarked } := by
    have hfits : (nameElement c.name).Fits := fits_of_mem h List.mem_cons_self
    rw [addContentPart, nameElement, type_node, if_pos rfl, ← nameElement,
      readName_nameElement hfits hc.suite hc.classified]
    rfl
  have hmetaInfo : (c.freshness.toList.map fun d =>
      node metaInfoType [millisecondsElement freshnessType d]).foldlM addContentPart
        { name := some c.name.unmarked } =
      .ok { name := some c.name.unmarked, freshness := c.freshness } := by
    apply foldlM_toList fun freshness =>
      ({ name := some c.name.unmarked, freshness } : ContentParts)
    intro d hd
    have hfits : (node metaInfoType [millisecondsElement freshnessType d]).Fits :=
      fits_of_mem h (by simp [Option.mem_def.mp hd])
    obtain ⟨n, rfl⟩ := hc.freshness d hd
    rw [addContentPart, type_node, if_neg (by decide), if_pos rfl, elements_node hfits, ok_bind]
    apply foldlM_cons_ok _ rfl
    rw [addMetaInfo, type_millisecondsElement, if_pos rfl, integer_millisecondsElement]
    rfl
  have hsignature : addContentPart
      { name := some c.name.unmarked, payload := c.payload, freshness := c.freshness }
      (node signatureInfoType (.ofInteger signatureTypeType 0 ::
        c.publisher.toList.map (publisherElement keyLocatorType))) =
      .ok ⟨some c.name.unmarked, c.payload, c.freshness, c.publisher⟩ := by
    have hfits : (node signatureInfoType (.ofInteger signatureTypeType 0 ::
        c.publisher.toList.map (publisherElement keyLocatorType))).Fits :=
      fits_of_mem h (by simp)
    rw [addContentPart, type_node, if_neg (by decide), if_neg (by decide), if_neg (by decide),
      if_pos rfl, elements_node hfits, ok_bind]
    apply foldlM_cons_ok (b := ⟨some c.name.unmarked, c.payload, c.freshness, none⟩) rfl
    apply foldlM_toList (ContentParts.mk (some c.name.unmarked) c.payload c.freshness)
    intro key hkey
    have hfits : (publisherElement keyLocatorType key).Fits :=
      fits_of_mem hfits (by simp [Option.mem_def.mp hkey])
    rw [addSignatureInfo, type_publisherElement, if_pos rfl, innerValue_publisherElement hfits]
    rfl
  have hlast : [Tlv.Element.mk signatureValueType []].foldlM addContentPart
      ⟨some c.name.unmarked, c.payload, c.freshness, c.publisher⟩ =
      .ok ⟨some c.name.unmarked, c.payload, c.freshness, c.publisher⟩ := rfl
  have hread := foldlM_cons_ok hname (foldlM_append_ok hmetaInfo
    (foldlM_cons_ok (e := ⟨contentType, c.payload⟩) rfl (foldlM_cons_ok hsignature hlast)))
  rw [readContent, contentElement, elements_node h]
  rw [ok_bind, hread, ok_bind, Content.publisher, hpublisher]
  rfl

/-- A packet that the format can carry is read back in front of any data, without the mark of computed
results in its name. -/
theorem decode_encode_append {packet : Packet} (h : (packetElement packet).Fits)
    (hpacket : packet.Encodable) (rest : Bytes) :
    decode ((packetElement packet).encode ++ rest) = .ok packet.unmarked := by
  rw [decode, Tlv.Element.decode_encode_append h, wellFormed, ok_bind]
  cases packet with
  | interest i =>
    have htype : (packetElement (.interest i)).type = interestType := rfl
    have hread : readInterest (packetElement (.interest i)).value = _ :=
      readInterest_interestElement h hpacket
    simp only [htype, if_pos, hread]
    rfl
  | content c =>
    have htype : (packetElement (.content c)).type = dataType := rfl
    have hne : dataType ≠ interestType := by decide
    have hread : readContent (packetElement (.content c)).value = _ :=
      readContent_contentElement h hpacket
    simp only [htype, if_neg hne, if_pos, hread]
    rfl

/-- Whether memory can hold a byte string: its length is a signed number of 64 bits. -/
def InMemory (data : Bytes) : Prop := 2 * data.length < UInt64.size

instance (data : Bytes) : Decidable (InMemory data) :=
  inferInstanceAs (Decidable (2 * data.length < UInt64.size))

/-- If memory can hold an element, then the length in it is written in full. -/
theorem fits_of_inMemory {e : Tlv.Element} (h : InMemory e.encode) : e.Fits := by
  have hlength := e.length_value_lt
  rw [InMemory, Tlv.Element.length_encode] at h
  rw [Tlv.Element.Fits]
  omega

/-- A packet that the format can carry is written. -/
theorem encode_eq_ok {packet : Packet} (h : packet.Encodable) :
    encode packet = .ok (packetElement packet).encode := by
  rw [encode, if_pos h.suite_name]

end Ndn

end NamedFunctions
