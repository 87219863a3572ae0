import NamedFunctions.Proofs.Packet.Wire

/-!
# Packets that have been read

Whatever octets a packet is read from, it is one that the format can carry as it is, and it takes hardly
more octets to write it than were read: only what the writer adds of its own is bounded by a constant. So
what is read can be written, and is read back the same.
-/

namespace NamedFunctions.Ndn

private theorem bind_eq_ok {α β : Type} {x : Except WireError α} {f : α → Except WireError β} {b : β}
    (h : x >>= f = .ok b) : ∃ a, x = .ok a ∧ f a = .ok b := by
  cases x with
  | error error => cases h
  | ok a => exact ⟨a, rfl, h⟩

private theorem map_eq_ok {α β : Type} {x : Except WireError α} {f : α → β} {b : β}
    (h : x.map f = .ok b) : ∃ a, x = .ok a ∧ f a = b := by
  cases x with
  | error error => cases h
  | ok a => exact ⟨a, rfl, Except.ok.inj h⟩

private theorem eq_ok_of_wellFormed {α : Type} {x : Except Tlv.Error α} {a : α} (h : wellFormed x = .ok a) :
    x = .ok a := by
  cases x with
  | error error => cases h
  | ok b => exact congrArg Except.ok (Except.ok.inj h)

section Sequences

variable {σ : Type} {f : σ → Tlv.Element → Except WireError σ}

/-- What holds at the start and is kept by each element holds after all of them. -/
theorem foldlM_induction {motive : σ → Prop}
    (h : ∀ a e b, motive a → f a e = .ok b → motive b) {es : List Tlv.Element} {a b : σ}
    (ha : motive a) (hread : es.foldlM f a = .ok b) : motive b := by
  induction es generalizing a with
  | nil =>
    cases hread
    exact ha
  | cons e es ih =>
    rw [List.foldlM_cons] at hread
    obtain ⟨c, hc, hrest⟩ := bind_eq_ok hread
    exact ih (h a e c ha hc) hrest

/-- If each element adds no more than its own octets, then all of them add no more than theirs. -/
theorem octets_of_foldlM (octets : σ → Nat)
    (h : ∀ a e b, f a e = .ok b → octets b ≤ octets a + e.encodedLength)
    {es : List Tlv.Element} {a b : σ} (hread : es.foldlM f a = .ok b) :
    octets b ≤ octets a + (Tlv.encodeAll es).length := by
  induction es generalizing a with
  | nil =>
    cases hread
    simp
  | cons e es ih =>
    rw [List.foldlM_cons] at hread
    obtain ⟨c, hc, hrest⟩ := bind_eq_ok hread
    have := h a e c hc
    have := ih hrest
    rw [Tlv.length_encodeAll_cons]
    omega

end Sequences

private theorem length_of_elements {data : Bytes} {es : List Tlv.Element} (h : elements data = .ok es) :
    (Tlv.encodeAll es).length ≤ data.length :=
  Tlv.length_of_decodeAll (eq_ok_of_wellFormed h)

private theorem length_of_innerValue {data value : Bytes} (h : innerValue data = .ok value) :
    value.length ≤ data.length := by
  have hdecode := eq_ok_of_wellFormed h
  cases hd : Tlv.Element.decode data with
  | error error =>
    rw [hd] at hdecode
    cases hdecode
  | ok result =>
    obtain ⟨inner, rest⟩ := result
    rw [hd] at hdecode
    cases hdecode
    have := (Tlv.Element.length_of_decode hd).2
    have := inner.length_value_lt
    dsimp only
    omega

/-- How many octets components take as elements. -/
def componentOctets (components : List Bytes) : Nat :=
  (Tlv.encodeAll (components.map (Tlv.Element.mk componentType))).length

/-- No components take no octets. -/
@[simp] theorem componentOctets_nil : componentOctets [] = 0 := rfl

private theorem componentOctets_cons (c : Bytes) (components : List Bytes) :
    componentOctets (c :: components) =
      (Tlv.Element.mk componentType c).encodedLength + componentOctets components := by
  rw [componentOctets, List.map_cons, Tlv.length_encodeAll_cons, ← componentOctets]

private theorem componentOctets_append (first second : List Bytes) :
    componentOctets (first ++ second) = componentOctets first + componentOctets second := by
  rw [componentOctets, List.map_append, Tlv.length_encodeAll_append, ← componentOctets,
    ← componentOctets]

/-- An element of whatever type takes no more octets as a component. -/
theorem encodedLength_component_le (e : Tlv.Element) :
    (Tlv.Element.mk componentType e.value).encodedLength ≤ e.encodedLength := by
  have htype : Tlv.numberLength componentType = 1 := by decide
  have := Tlv.numberLength_pos e.type
  rw [Tlv.Element.encodedLength, Tlv.Element.encodedLength]
  dsimp only
  omega

private theorem octets_addComponent {name name' : Name} {e : Tlv.Element}
    (h : addComponent name e = .ok name') :
    componentOctets name'.components ≤ componentOctets name.components + e.encodedLength := by
  unfold addComponent at h
  split at h
  · obtain ⟨chunk, _, rfl⟩ := map_eq_ok h
    exact Nat.le_add_right _ _
  · cases h
    have := encodedLength_component_le e
    rw [Name.append, componentOctets_append, componentOctets_cons, componentOctets_nil]
    omega

/-- A name that is read is of the suite, has the flags that its components determine and no mark. -/
theorem of_readName {value : Bytes} {name : Name} (h : readName value = .ok name) :
    name.suite = .ndn2013 ∧ name.Classified ∧ name.flags.computed = false := by
  obtain ⟨es, _, h⟩ := bind_eq_ok h
  obtain ⟨unclassified, hread, h⟩ := bind_eq_ok h
  cases h
  have hkept : unclassified.suite = .ndn2013 ∧ unclassified.flags.computed = false := by
    refine foldlM_induction (motive := fun name : Name =>
      name.suite = .ndn2013 ∧ name.flags.computed = false) ?_ ⟨rfl, rfl⟩ hread
    intro a e b ha hb
    unfold addComponent at hb
    split at hb
    · obtain ⟨chunk, _, rfl⟩ := map_eq_ok hb
      exact ha
    · cases hb
      exact ha
  simp [Name.classified_classify, hkept]

private theorem octets_of_readName {value : Bytes} {name : Name} (h : readName value = .ok name) :
    componentOctets name.components ≤ value.length := by
  obtain ⟨es, hes, h⟩ := bind_eq_ok h
  obtain ⟨unclassified, hread, h⟩ := bind_eq_ok h
  cases h
  have hoctets := octets_of_foldlM (componentOctets ·.components)
    (fun _ _ _ => octets_addComponent) hread
  have hlength := length_of_elements hes
  simp only [Name.components_classify, componentOctets_nil] at hoctets ⊢
  omega

/-- The octets in what a publisher is told by. -/
def publisherOctets (publisher : Option Bytes) : Nat := (publisher.getD []).length

/-- The octets in selectors that do not have a bound of their own. -/
def selectorOctets (s : NdnSelectors) : Nat :=
  publisherOctets s.publisherLocator + componentOctets s.exclude

private theorem octets_filter_component (es : List Tlv.Element) :
    componentOctets ((es.filter (·.type == componentType)).map (·.value)) ≤
      (Tlv.encodeAll es).length := by
  induction es with
  | nil => simp
  | cons e es ih =>
    rw [Tlv.length_encodeAll_cons]
    rw [List.filter_cons]
    split
    · have := encodedLength_component_le e
      rw [List.map_cons, componentOctets_cons]
      omega
    · omega

private theorem octets_addSelector {s s' : NdnSelectors} {e : Tlv.Element}
    (h : addSelector s e = .ok s') : selectorOctets s' ≤ selectorOctets s + e.encodedLength := by
  have hvalue := e.length_value_lt
  unfold addSelector at h
  unfold selectorOctets publisherOctets
  split at h
  · obtain ⟨n, _, rfl⟩ := map_eq_ok h
    exact Nat.le_add_right _ _
  split at h
  · obtain ⟨n, _, rfl⟩ := map_eq_ok h
    exact Nat.le_add_right _ _
  split at h
  · obtain ⟨publisher, hpublisher, rfl⟩ := map_eq_ok h
    have := length_of_innerValue hpublisher
    simp only [Option.getD_some]
    omega
  split at h
  · obtain ⟨es, hes, rfl⟩ := map_eq_ok h
    have := length_of_elements hes
    have := octets_filter_component es
    dsimp only
    omega
  split at h
  · cases h
    exact Nat.le_add_right _ _
  · cases h
    exact Nat.le_add_right _ _

private theorem octets_of_readSelectors {value : Bytes} {s : NdnSelectors}
    (h : readSelectors value = .ok s) : selectorOctets s ≤ value.length := by
  obtain ⟨es, hes, hread⟩ := bind_eq_ok h
  have hoctets := octets_of_foldlM selectorOctets (fun _ _ _ => octets_addSelector) hread
  have hnone : selectorOctets {} = 0 := rfl
  have := length_of_elements hes
  omega

/-- The octets in what has been read of an Interest that do not have a bound of their own. -/
def InterestParts.octets (p : InterestParts) : Nat :=
  (p.name.elim 0 fun name => componentOctets name.components) + selectorOctets p.selectors

private theorem octets_addInterestPart {p p' : InterestParts} {e : Tlv.Element}
    (h : addInterestPart p e = .ok p') : p'.octets ≤ p.octets + e.encodedLength := by
  have hvalue := e.length_value_lt
  unfold addInterestPart at h
  unfold InterestParts.octets
  split at h
  · obtain ⟨name, hname, rfl⟩ := map_eq_ok h
    have := octets_of_readName hname
    simp only [Option.elim_some]
    omega
  split at h
  · obtain ⟨s, hs, rfl⟩ := map_eq_ok h
    have := octets_of_readSelectors hs
    dsimp only
    omega
  split at h
  · split at h
    · cases h
      exact Nat.le_add_right _ _
    · cases h
      exact Nat.le_add_right _ _
  split at h
  · obtain ⟨n, _, rfl⟩ := map_eq_ok h
    exact Nat.le_add_right _ _
  · cases h
    exact Nat.le_add_right _ _

/-- The name and the lifetime that have been read are such as the format can carry. -/
structure InterestParts.Canonical (p : InterestParts) : Prop where
  name : ∀ name ∈ p.name, name.suite = .ndn2013 ∧ name.Classified ∧ name.flags.computed = false
  lifetime : ∀ d ∈ p.lifetime, d.Whole

private theorem canonical_addInterestPart {p p' : InterestParts} {e : Tlv.Element} (hp : p.Canonical)
    (h : addInterestPart p e = .ok p') : p'.Canonical := by
  unfold addInterestPart at h
  split at h
  · obtain ⟨name, hname, rfl⟩ := map_eq_ok h
    exact ⟨by simpa using of_readName hname, hp.lifetime⟩
  split at h
  · obtain ⟨s, _, rfl⟩ := map_eq_ok h
    exact ⟨hp.name, hp.lifetime⟩
  split at h
  · split at h
    · cases h
      exact ⟨hp.name, hp.lifetime⟩
    · cases h
      exact hp
  split at h
  · obtain ⟨n, _, rfl⟩ := map_eq_ok h
    exact ⟨hp.name, by simpa using ⟨n, rfl⟩⟩
  · cases h
    exact hp

/-- An Interest that is read is one that the format can carry, of no more octets than were read. -/
theorem of_readInterest {value : Bytes} {i : Interest} (h : readInterest value = .ok i) :
    Packet.Canonical (.interest i) ∧ ∃ s, i.selectors = .ndn2013 s ∧
      componentOctets i.name.components + selectorOctets s ≤ value.length := by
  obtain ⟨es, hes, h⟩ := bind_eq_ok h
  obtain ⟨p, hread, h⟩ := bind_eq_ok h
  have hp : p.Canonical := foldlM_induction (fun _ _ _ => canonical_addInterestPart)
    ⟨by simp, by simp⟩ hread
  have hoctets := octets_of_foldlM InterestParts.octets (fun _ _ _ => octets_addInterestPart) hread
  have hlength := length_of_elements hes
  have hnone : InterestParts.octets {} = 0 := rfl
  cases hname : p.name with
  | none =>
    rw [hname] at h
    cases h
  | some name =>
    rw [hname] at h
    cases h
    obtain ⟨hsuite, hclassified, hplain⟩ := hp.name name hname
    refine ⟨⟨⟨hsuite, hclassified, ⟨_, rfl⟩, hp.lifetime⟩, hplain⟩, _, rfl, ?_⟩
    rw [InterestParts.octets, hname, Option.elim_some] at hoctets
    dsimp only
    omega

/-- The octets in what has been read of a Content that do not have a bound of their own. -/
def ContentParts.octets (p : ContentParts) : Nat :=
  (p.name.elim 0 fun name => componentOctets name.components) + p.payload.length +
    publisherOctets p.publisher

private theorem octets_addMetaInfo {p p' : ContentParts} {e : Tlv.Element}
    (h : addMetaInfo p e = .ok p') : p'.octets ≤ p.octets + e.encodedLength := by
  unfold addMetaInfo at h
  split at h
  · obtain ⟨n, _, rfl⟩ := map_eq_ok h
    exact Nat.le_add_right _ _
  · cases h
    exact Nat.le_add_right _ _

private theorem octets_addSignatureInfo {p p' : ContentParts} {e : Tlv.Element}
    (h : addSignatureInfo p e = .ok p') : p'.octets ≤ p.octets + e.encodedLength := by
  have hvalue := e.length_value_lt
  unfold addSignatureInfo at h
  split at h
  · obtain ⟨publisher, hpublisher, rfl⟩ := map_eq_ok h
    have := length_of_innerValue hpublisher
    simp only [ContentParts.octets, publisherOctets, Option.getD_some]
    omega
  · cases h
    exact Nat.le_add_right _ _

private theorem octets_addContentPart {p p' : ContentParts} {e : Tlv.Element}
    (h : addContentPart p e = .ok p') : p'.octets ≤ p.octets + e.encodedLength := by
  have hvalue := e.length_value_lt
  unfold addContentPart at h
  split at h
  · obtain ⟨name, hname, rfl⟩ := map_eq_ok h
    have := octets_of_readName hname
    simp only [ContentParts.octets, Option.elim_some]
    omega
  split at h
  · obtain ⟨es, hes, hread⟩ := bind_eq_ok h
    have := octets_of_foldlM ContentParts.octets (fun _ _ _ => octets_addMetaInfo) hread
    have := length_of_elements hes
    omega
  split at h
  · cases h
    simp only [ContentParts.octets]
    omega
  split at h
  · obtain ⟨es, hes, hread⟩ := bind_eq_ok h
    have := octets_of_foldlM ContentParts.octets (fun _ _ _ => octets_addSignatureInfo) hread
    have := length_of_elements hes
    omega
  · cases h
    exact Nat.le_add_right _ _

/-- The name and the freshness that have been read are such as the format can carry. -/
structure ContentParts.Canonical (p : ContentParts) : Prop where
  name : ∀ name ∈ p.name, name.suite = .ndn2013 ∧ name.Classified ∧ name.flags.computed = false
  freshness : ∀ d ∈ p.freshness, d.Whole

private theorem canonical_addMetaInfo {p p' : ContentParts} {e : Tlv.Element} (hp : p.Canonical)
    (h : addMetaInfo p e = .ok p') : p'.Canonical := by
  unfold addMetaInfo at h
  split at h
  · obtain ⟨n, _, rfl⟩ := map_eq_ok h
    exact ⟨hp.name, by simpa using ⟨n, rfl⟩⟩
  · cases h
    exact hp

private theorem canonical_addSignatureInfo {p p' : ContentParts} {e : Tlv.Element} (hp : p.Canonical)
    (h : addSignatureInfo p e = .ok p') : p'.Canonical := by
  unfold addSignatureInfo at h
  split at h
  · obtain ⟨publisher, _, rfl⟩ := map_eq_ok h
    exact ⟨hp.name, hp.freshness⟩
  · cases h
    exact hp

private theorem canonical_addContentPart {p p' : ContentParts} {e : Tlv.Element} (hp : p.Canonical)
    (h : addContentPart p e = .ok p') : p'.Canonical := by
  unfold addContentPart at h
  split at h
  · obtain ⟨name, hname, rfl⟩ := map_eq_ok h
    exact ⟨by simpa using of_readName hname, hp.freshness⟩
  split at h
  · obtain ⟨es, _, hread⟩ := bind_eq_ok h
    exact foldlM_induction (fun _ _ _ => canonical_addMetaInfo) hp hread
  split at h
  · cases h
    exact ⟨hp.name, hp.freshness⟩
  split at h
  · obtain ⟨es, _, hread⟩ := bind_eq_ok h
    exact foldlM_induction (fun _ _ _ => canonical_addSignatureInfo) hp hread
  · cases h
    exact hp

/-- A Content that is read is one that the format can carry, of no more octets than were read. -/
theorem of_readContent {value : Bytes} {c : Content} (h : readContent value = .ok c) :
    Packet.Canonical (.content c) ∧
      componentOctets c.name.components + c.payload.length + publisherOctets c.publisher ≤
        value.length := by
  obtain ⟨es, hes, h⟩ := bind_eq_ok h
  obtain ⟨p, hread, h⟩ := bind_eq_ok h
  have hp : p.Canonical := foldlM_induction (fun _ _ _ => canonical_addContentPart)
    ⟨by simp, by simp⟩ hread
  have hoctets := octets_of_foldlM ContentParts.octets (fun _ _ _ => octets_addContentPart) hread
  have hlength := length_of_elements hes
  have hnone : ContentParts.octets {} = 0 := rfl
  cases hname : p.name with
  | none =>
    rw [hname] at h
    cases h
  | some name =>
    rw [hname] at h
    cases h
    obtain ⟨hsuite, hclassified, hplain⟩ := hp.name name hname
    refine ⟨⟨⟨hsuite, hclassified, ⟨_, rfl⟩, hp.freshness⟩, hplain⟩, ?_⟩
    rw [ContentParts.octets, hname, Option.elim_some] at hoctets
    dsimp only [Content.publisher, PublisherDetails.publisher]
    omega

private theorem length_toList_le {α : Type} {element : α → Tlv.Element} {bound : Nat} {o : Option α}
    (h : ∀ a ∈ o, (element a).encodedLength ≤ bound) :
    (Tlv.encodeAll (o.toList.map element)).length ≤ bound := by
  cases o with
  | none => simp
  | some a => simpa using h a rfl

private theorem encodedLength_node_le (type : UInt64) (es : List Tlv.Element) :
    (node type es).encodedLength ≤ (Tlv.encodeAll es).length + 18 :=
  Tlv.Element.encodedLength_le _

private theorem encodedLength_nameElement_le (name : Name) :
    (nameElement name).encodedLength ≤ componentOctets name.components + 44 := by
  have hnode := encodedLength_node_le nameType
    (name.components.map (Tlv.Element.mk componentType) ++
      name.chunk.toList.map fun chunk => .ofInteger segmentType chunk.toUInt64)
  have hchunk : (Tlv.encodeAll (name.chunk.toList.map fun chunk =>
      .ofInteger segmentType chunk.toUInt64)).length ≤ 26 :=
    length_toList_le fun _ _ => Tlv.Element.length_ofInteger_le _ _
  rw [Tlv.length_encodeAll_append, ← componentOctets] at hnode
  rw [nameElement]
  omega

private theorem length_publisher_le (type : UInt64) (publisher : Option Bytes) :
    (Tlv.encodeAll (publisher.toList.map (publisherElement type))).length ≤
      publisherOctets publisher + 36 := by
  apply length_toList_le
  intro key hkey
  have hnode := encodedLength_node_le type [⟨keyDigestType, key⟩]
  have hinner := Tlv.Element.encodedLength_le ⟨keyDigestType, key⟩
  rw [Tlv.length_encodeAll_cons, Tlv.length_encodeAll_nil] at hnode
  rw [Option.mem_def.mp hkey, publisherOctets, Option.getD_some, publisherElement]
  dsimp only at hinner
  omega

private theorem length_selectorElements_le (s : NdnSelectors) :
    (Tlv.encodeAll (selectorElements (.ndn2013 s))).length ≤ selectorOctets s + 124 := by
  have hminSuffix : (Tlv.encodeAll (s.minSuffix.toList.map fun n =>
      .ofInteger minSuffixType n.toUInt64)).length ≤ 26 :=
    length_toList_le fun _ _ => Tlv.Element.length_ofInteger_le _ _
  have hmaxSuffix : (Tlv.encodeAll (s.maxSuffix.toList.map fun n =>
      .ofInteger maxSuffixType n.toUInt64)).length ≤ 26 :=
    length_toList_le fun _ _ => Tlv.Element.length_ofInteger_le _ _
  have hpublisher := length_publisher_le publisherLocatorType s.publisherLocator
  have hexclude : (Tlv.encodeAll (if s.exclude.isEmpty then []
      else [node excludeType (s.exclude.map (Tlv.Element.mk componentType))])).length ≤
      componentOctets s.exclude + 18 := by
    have hnode := encodedLength_node_le excludeType (s.exclude.map (Tlv.Element.mk componentType))
    split
    · simp
    · rw [Tlv.length_encodeAll_cons, Tlv.length_encodeAll_nil, componentOctets]
      omega
  have hmustBeFresh : (Tlv.encodeAll (if s.mustBeFresh then
      [Tlv.Element.mk mustBeFreshType []] else [])).length ≤ 18 := by
    have helement := Tlv.Element.encodedLength_le ⟨mustBeFreshType, []⟩
    split
    · rwa [Tlv.length_encodeAll_cons, Tlv.length_encodeAll_nil]
    · simp
  have helements : selectorElements (.ndn2013 s) =
      (s.minSuffix.toList.map fun n => .ofInteger minSuffixType n.toUInt64) ++
      (s.maxSuffix.toList.map fun n => .ofInteger maxSuffixType n.toUInt64) ++
      (s.publisherLocator.toList.map (publisherElement publisherLocatorType)) ++
      (if s.exclude.isEmpty then []
        else [node excludeType (s.exclude.map (Tlv.Element.mk componentType))]) ++
      (if s.mustBeFresh then [⟨mustBeFreshType, []⟩] else []) := rfl
  rw [helements, selectorOctets]
  simp only [Tlv.length_encodeAll_append]
  omega

private theorem length_interestElement_le {i : Interest} {s : NdnSelectors}
    (hs : i.selectors = .ndn2013 s) :
    (interestElement i).value.length ≤
      componentOctets i.name.components + selectorOctets s + 256 := by
  have hname := encodedLength_nameElement_le i.name
  have hselectors : (Tlv.encodeAll (if (selectorElements i.selectors).isEmpty then []
      else [node selectorsType (selectorElements i.selectors)])).length ≤
      selectorOctets s + 142 := by
    have hnode := encodedLength_node_le selectorsType (selectorElements i.selectors)
    have hlength := length_selectorElements_le s
    rw [← hs] at hlength
    split
    · simp
    · rw [Tlv.length_encodeAll_cons, Tlv.length_encodeAll_nil]
      omega
  have hnonce : (Tlv.encodeAll (i.nonce.toList.map fun n =>
      Tlv.Element.mk nonceType (BigEndian.ofNat 4 n.toNat))).length ≤ 22 := by
    apply length_toList_le
    intro n _
    have helement := Tlv.Element.encodedLength_le ⟨nonceType, BigEndian.ofNat 4 n.toNat⟩
    simpa using helement
  have hlifetime : (Tlv.encodeAll
      (i.lifetime.toList.map (millisecondsElement lifetimeType))).length ≤ 26 :=
    length_toList_le fun _ _ => Tlv.Element.length_ofInteger_le _ _
  rw [interestElement, node]
  simp only [Tlv.length_encodeAll_cons, Tlv.length_encodeAll_append]
  omega

private theorem length_contentElement_le (c : Content) :
    (contentElement c).value.length ≤
      componentOctets c.name.components + c.payload.length + publisherOctets c.publisher + 256 := by
  have hname := encodedLength_nameElement_le c.name
  have hmetaInfo : (Tlv.encodeAll (c.freshness.toList.map fun d =>
      node metaInfoType [millisecondsElement freshnessType d])).length ≤ 44 := by
    apply length_toList_le
    intro d _
    have hnode := encodedLength_node_le metaInfoType [millisecondsElement freshnessType d]
    have hinner : (millisecondsElement freshnessType d).encodedLength ≤ 26 :=
      Tlv.Element.length_ofInteger_le _ _
    rw [Tlv.length_encodeAll_cons, Tlv.length_encodeAll_nil] at hnode
    omega
  have hpayload := Tlv.Element.encodedLength_le ⟨contentType, c.payload⟩
  have hsignature : (node signatureInfoType (.ofInteger signatureTypeType 0 ::
      c.publisher.toList.map (publisherElement keyLocatorType))).encodedLength ≤
      publisherOctets c.publisher + 80 := by
    have hnode := encodedLength_node_le signatureInfoType (.ofInteger signatureTypeType 0 ::
      c.publisher.toList.map (publisherElement keyLocatorType))
    have hinner := Tlv.Element.length_ofInteger_le signatureTypeType 0
    have hpublisher := length_publisher_le keyLocatorType c.publisher
    rw [Tlv.length_encodeAll_cons] at hnode
    omega
  have hlast := Tlv.Element.encodedLength_le ⟨signatureValueType, []⟩
  rw [contentElement, node]
  simp only [Tlv.length_encodeAll_cons, Tlv.length_encodeAll_append,
    Tlv.length_encodeAll_nil] at hpayload hlast ⊢
  rw [List.length_nil] at hlast
  omega

/-- What is decoded is canonical, and not much longer than the octets. -/
theorem of_decode {data : Bytes} {packet : Packet} (h : decode data = .ok packet) :
    packet.Canonical ∧ (packetElement packet).value.length ≤ data.length + 256 := by
  obtain ⟨⟨outer, rest⟩, houter, h⟩ := bind_eq_ok h
  have hlength := (Tlv.Element.length_of_decode (eq_ok_of_wellFormed houter)).2
  have hvalue := outer.length_value_lt
  dsimp only at h
  split at h
  · obtain ⟨i, hi, h⟩ := bind_eq_ok h
    cases h
    obtain ⟨hcanonical, s, hs, hoctets⟩ := of_readInterest hi
    have hle := length_interestElement_le hs
    exact ⟨hcanonical, by rw [packetElement]; omega⟩
  split at h
  · obtain ⟨c, hc, h⟩ := bind_eq_ok h
    cases h
    obtain ⟨hcanonical, hoctets⟩ := of_readContent hc
    have hle := length_contentElement_le c
    exact ⟨hcanonical, by rw [packetElement]; omega⟩
  · cases h

/-- The format loses nothing. A packet that it can carry as it is is always written, and what memory can
hold of it is read back in front of any data. And each packet that is read, from whatever octets, is one
that the format can carry as it is: what memory can hold is read, written and read again as the same
packet. -/
theorem decode_encode :
    (∀ (packet : Packet) (rest : Bytes), packet.Canonical →
      ∃ data, encode packet = .ok data ∧ (InMemory data → decode (data ++ rest) = .ok packet)) ∧
    ∀ (data : Bytes) (packet : Packet), decode data = .ok packet →
      packet.Canonical ∧
        (InMemory data → ∃ data', encode packet = .ok data' ∧ decode data' = .ok packet) := by
  have hread {packet : Packet} (hpacket : packet.Canonical) (hfits : (packetElement packet).Fits)
      (rest : Bytes) : decode ((packetElement packet).encode ++ rest) = .ok packet := by
    rw [decode_encode_append hfits hpacket.1, Packet.unmarked_eq hpacket.2]
  constructor
  · intro packet rest hpacket
    refine ⟨_, encode_eq_ok hpacket.1, fun hmemory => ?_⟩
    exact hread hpacket (fits_of_inMemory hmemory) rest
  · intro data packet h
    obtain ⟨hpacket, hlength⟩ := of_decode h
    refine ⟨hpacket, fun hmemory => ⟨_, encode_eq_ok hpacket.1, ?_⟩⟩
    -- What was read is in memory, and what is written of it is hardly longer.
    have hfits : (packetElement packet).Fits := by
      have hsize : UInt64.size = 18446744073709551616 := rfl
      rw [InMemory, hsize] at hmemory
      rw [Tlv.Element.Fits, hsize]
      omega
    have hagain := hread hpacket hfits []
    rwa [List.append_nil] at hagain

/-- A request for the placeholder of a result, with an exclusion and a publisher that have no octets. -/
def thunkRequest : Packet :=
  .interest {
    name := Name.classify ⟨[[0x78], Name.thunkMarker, Name.expressionMarker], .ndn2013, some 7, {}⟩
    selectors := .ndn2013 ⟨none, some 2, true, [[], [0x61]], some []⟩
    nonce := some 0
    lifetime := some (.ofMilliseconds 4000) }

/-- A request for a thunk is decoded as it was encoded, with an octet behind it. -/
theorem decode_encode_thunkRequest :
    ∃ data, encode thunkRequest = .ok data ∧ decode (data ++ [0xFF]) = .ok thunkRequest ∧
      ∃ data', encode thunkRequest = .ok data' ∧ decode data' = .ok thunkRequest := by
  have hcanonical : thunkRequest.Canonical := by
    refine ⟨⟨rfl, rfl, ⟨_, rfl⟩, ?_⟩, rfl⟩
    simpa using ⟨4000, rfl⟩
  obtain ⟨data, hdata, hread⟩ := decode_encode.1 thunkRequest [0xFF] hcanonical
  have hoctets : data = (packetElement thunkRequest).encode := (Except.ok.inj hdata).symm
  have hdecode := hread (by rw [hoctets]; decide)
  have hmemory : InMemory (data ++ [0xFF]) := by
    rw [hoctets]
    decide
  exact ⟨data, hdata, hdecode, (decode_encode.2 _ _ hdecode).2 hmemory⟩

end NamedFunctions.Ndn
