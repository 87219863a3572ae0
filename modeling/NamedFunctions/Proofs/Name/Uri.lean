import NamedFunctions.Name.Uri

/-!
# Names and their URIs

The URI of a name is read back as the name, whatever octets its components have, as long as none of them is
empty. A reader that skips empty parts comes to such names only, so all URIs of a name have the same
normal form. What is refused is a percent sign without two hexadecimal digits behind it.
-/

namespace NamedFunctions

namespace Uri

/-- Whether a character is a hexadecimal digit. -/
def IsHexDigit (c : Char) : Prop :=
  ('0' ≤ c ∧ c ≤ '9') ∨ ('a' ≤ c ∧ c ≤ 'f') ∨ ('A' ≤ c ∧ c ≤ 'F')

private theorem isHexDigit_iff {c : Char} : IsHexDigit c ↔ ∃ value, hexValue? c = some value := by
  unfold IsHexDigit hexValue? Text.digitValue?
  split
  · next h => simp [h]
  · next hdecimal =>
    split
    · next h => simp [h]
    · next hlower =>
      split
      · next h => simp [h]
      · next hupper => simp [hdecimal, hlower, hupper]

private theorem hexValue?_hexDigit : ∀ n < 16, hexValue? (hexDigit n) = some (UInt8.ofNat n) := by
  decide

/-- The digits of an octet are its upper and its lower half. -/
theorem octet_of_halves (b : UInt8) :
    UInt8.ofNat (b.toNat / 16) * 16 + UInt8.ofNat (b.toNat % 16) = b := by
  apply UInt8.toNat_inj.mp
  have hb := b.toNat_lt
  simp only [UInt8.toNat_add, UInt8.toNat_mul, UInt8.toNat_ofNat']
  have hsixteen : UInt8.toNat 16 = 16 := rfl
  rw [hsixteen]
  omega

/-- A character that starts no escape stands for its own octets. -/
theorem unescape_cons {c : Char} (h : c ≠ '%') (rest : List Char) :
    unescape (c :: rest) = (unescape rest).map (String.utf8EncodeChar c ++ ·) := by
  rw [unescape, if_neg h]
  rintro _ _ _ rfl
  exact absurd rfl h

private theorem unescape_digits {high low : Char} {h l : UInt8} (hhigh : hexValue? high = some h)
    (hlow : hexValue? low = some l) (rest : List Char) :
    unescape ('%' :: high :: low :: rest) = (unescape rest).map ((h * 16 + l) :: ·) := by
  simp only [unescape, hhigh, hlow]

private theorem utf8EncodeChar_of_lt : ∀ n < 128, isPlain (UInt8.ofNat n) = true →
    Char.ofNat n ≠ '%' ∧ Char.ofNat n ≠ '/' ∧
      String.utf8EncodeChar (Char.ofNat n) = [UInt8.ofNat n] := by
  decide

/-- A visible character of ASCII is one octet. -/
theorem utf8EncodeChar_of_isPlain {b : UInt8} (h : isPlain b = true) :
    Char.ofNat b.toNat ≠ '%' ∧ Char.ofNat b.toNat ≠ '/' ∧
      String.utf8EncodeChar (Char.ofNat b.toNat) = [b] := by
  have hlt : b.toNat < 128 := by
    simp only [isPlain, Bool.and_eq_true, decide_eq_true_eq, UInt8.le_iff_toNat_le] at h
    have hmax : UInt8.toNat 0x7E = 126 := rfl
    omega
  have hchar := utf8EncodeChar_of_lt b.toNat hlt
  rw [UInt8.ofNat_toNat] at hchar
  exact hchar h

/-- An octet that was written is the first one that is read. -/
theorem unescape_escapeByte_append (b : UInt8) (rest : List Char) :
    unescape (escapeByte b ++ rest) = (unescape rest).map (b :: ·) := by
  unfold escapeByte
  split
  · next hplain =>
    obtain ⟨hpercent, -, hoctet⟩ := utf8EncodeChar_of_isPlain hplain
    rw [List.singleton_append, unescape_cons hpercent, hoctet]
    rfl
  · have hb := b.toNat_lt
    have hhigh := hexValue?_hexDigit (b.toNat / 16) (by omega)
    have hlow := hexValue?_hexDigit (b.toNat % 16) (by omega)
    have hread := unescape_digits hhigh hlow rest
    rw [octet_of_halves] at hread
    exact hread

/-- A component is read back from what was written for it. -/
theorem unescape_escape (component : Bytes) : unescape (escape component) = some component := by
  induction component with
  | nil => rfl
  | cons b component ih =>
    rw [escape, List.flatMap_cons, unescape_escapeByte_append, ← escape, ih]
    rfl

private theorem escapeByte_ne_nil (b : UInt8) : escapeByte b ≠ [] := by
  unfold escapeByte
  split <;> simp

private theorem escape_ne_nil {component : Bytes} (h : component ≠ []) : escape component ≠ [] := by
  cases component with
  | nil => exact absurd rfl h
  | cons b component => simp [escape, escapeByte_ne_nil]

private theorem hexDigit_ne_slash : ∀ n < 16, hexDigit n ≠ '/' := by
  decide

/-- A slash is never written for an octet. -/
theorem slash_not_mem_escape (component : Bytes) : '/' ∉ escape component := by
  rw [escape, List.mem_flatMap]
  rintro ⟨b, -, hmem⟩
  unfold escapeByte at hmem
  split at hmem
  · next hplain =>
    obtain ⟨-, hslash, -⟩ := utf8EncodeChar_of_isPlain hplain
    exact hslash (List.mem_singleton.mp hmem).symm
  · have hb := b.toNat_lt
    have hhigh := hexDigit_ne_slash (b.toNat / 16) (by omega)
    have hlow := hexDigit_ne_slash (b.toNat % 16) (by omega)
    simp [hhigh.symm, hlow.symm] at hmem

/-- Whether a text starts with two hexadecimal digits. -/
def StartsWithDigits (text : List Char) : Prop :=
  ∃ high low rest, text = high :: low :: rest ∧ IsHexDigit high ∧ IsHexDigit low

/-- Whether a percent sign in a text is not followed by two hexadecimal digits. -/
def HasBadEscape (text : List Char) : Prop :=
  ∃ before after, text = before ++ '%' :: after ∧ ¬ StartsWithDigits after

private theorem not_hasBadEscape_nil : ¬ HasBadEscape [] := by
  rintro ⟨before, after, htext, -⟩
  simp at htext

private theorem hasBadEscape_cons {c : Char} {text : List Char} :
    HasBadEscape (c :: text) ↔ (c = '%' ∧ ¬ StartsWithDigits text) ∨ HasBadEscape text := by
  constructor
  · rintro ⟨before, after, htext, hbad⟩
    cases before with
    | nil =>
      cases htext
      exact .inl ⟨rfl, hbad⟩
    | cons _ before =>
      cases htext
      exact .inr ⟨before, after, rfl, hbad⟩
  · rintro (⟨rfl, hbad⟩ | ⟨before, after, rfl, hbad⟩)
    · exact ⟨[], text, rfl, hbad⟩
    · exact ⟨c :: before, after, rfl, hbad⟩

private theorem IsHexDigit.ne_percent {c : Char} (h : IsHexDigit c) : c ≠ '%' := by
  rintro rfl
  revert h
  unfold IsHexDigit
  decide

/-- A text cannot be read exactly if it has a percent sign without its digits: those behind an escape that
can be read are no percent signs, so the reader comes to each of these. -/
theorem unescape_eq_none_iff {text : List Char} : unescape text = none ↔ HasBadEscape text := by
  fun_induction unescape text with
  | case1 => simp [not_hasBadEscape_nil]
  | case2 high low rest h l hlow hhigh ih =>
    have hhighDigit : IsHexDigit high := isHexDigit_iff.mpr ⟨h, hhigh⟩
    have hlowDigit : IsHexDigit low := isHexDigit_iff.mpr ⟨l, hlow⟩
    have hstarts : StartsWithDigits (high :: low :: rest) :=
      ⟨high, low, rest, rfl, hhighDigit, hlowDigit⟩
    simp [hasBadEscape_cons, hstarts, hhighDigit.ne_percent, hlowDigit.ne_percent, ih]
  | case3 high low rest hnone =>
    have hbad : ¬ StartsWithDigits (high :: low :: rest) := by
      rintro ⟨_, _, _, heq, hhigh, hlow⟩
      cases heq
      obtain ⟨h, hhigh⟩ := isHexDigit_iff.mp hhigh
      obtain ⟨l, hlow⟩ := isHexDigit_iff.mp hlow
      exact hnone h l hhigh hlow
    simp [hasBadEscape_cons, hbad]
  | case4 rest hshort =>
    have hbad : ¬ StartsWithDigits rest := by
      rintro ⟨high, low, rest', heq, -, -⟩
      exact hshort high low rest' rfl heq
    simp [hasBadEscape_cons, hbad]
  | case5 c rest _ hne ih => simp [hasBadEscape_cons, hne, ih]

/-- A part that is not empty spells a component that is not empty. -/
theorem ne_nil_of_unescape {part : List Char} {component : Bytes}
    (h : unescape part = some component) (hpart : part ≠ []) : component ≠ [] := by
  rintro rfl
  revert h
  fun_cases unescape part with
  | case1 => exact absurd rfl hpart
  | case2 => simp
  | case3 => simp
  | case4 => simp
  | case5 => simp [String.utf8EncodeChar_ne_nil]

private theorem segments_eq_splitOn (text : List Char) : segments text = text.splitOn '/' := by
  induction text with
  | nil => rfl
  | cons c rest ih =>
    rw [segments, ih, List.splitOn_cons_eq_if_modifyHead]
    cases hsplit : rest.splitOn '/' with
    | nil => exact absurd hsplit (List.splitOn_ne_nil _ _)
    | cons part parts => simp

private theorem append_flatMap_escape (first : List Char) (components : List Bytes) :
    first ++ components.flatMap (fun c => '/' :: escape c) =
      ['/'].intercalate (first :: components.map escape) := by
  induction components generalizing first with
  | nil => simp
  | cons c components ih => simp [List.intercalate_cons_cons, ih]

/-- The parts of a written name are nothing, and what was written for each component. -/
theorem segments_flatMap_escape (components : List Bytes) :
    segments (components.flatMap fun c => '/' :: escape c) = [] :: components.map escape := by
  have hjoined := append_flatMap_escape [] components
  rw [List.nil_append] at hjoined
  rw [segments_eq_splitOn, hjoined]
  apply List.splitOn_intercalate '/' _ (List.cons_ne_nil _ _)
  intro part hpart
  rcases List.mem_cons.mp hpart with rfl | hpart
  · exact List.not_mem_nil
  · obtain ⟨c, -, rfl⟩ := List.mem_map.mp hpart
    exact slash_not_mem_escape c

/-- The component that a part spells, or the error that it cannot be read. -/
private def readPart (part : List Char) : Except NameError Bytes :=
  match unescape part with
  | some component => .ok component
  | none => .error (.invalidEscape (String.ofList part))

private theorem components_eq (text : List Char) :
    components text = ((segments text).filter fun part => !part.isEmpty).mapM readPart := rfl

private theorem mapM_readPart_cons_of_some {part : List Char} {component : Bytes}
    (h : unescape part = some component) (parts : List (List Char)) :
    (part :: parts).mapM readPart = (parts.mapM readPart).map (component :: ·) := by
  rw [List.mapM_cons, readPart, h]
  cases parts.mapM readPart <;> rfl

private theorem mapM_readPart_cons_of_none {part : List Char} (h : unescape part = none)
    (parts : List (List Char)) :
    (part :: parts).mapM readPart = .error (.invalidEscape (String.ofList part)) := by
  rw [List.mapM_cons, readPart, h]
  rfl

/-- Parts are read if each spells a component. -/
private theorem mapM_readPart_eq_ok_iff {parts : List (List Char)} {read : List Bytes} :
    parts.mapM readPart = .ok read ↔ parts.map unescape = read.map some := by
  induction parts generalizing read with
  | nil =>
    rw [List.mapM_nil, List.map_nil, eq_comm (a := []), List.map_eq_nil_iff]
    exact ⟨fun h => (Except.ok.inj h).symm, fun h => congrArg Except.ok h.symm⟩
  | cons part parts ih =>
    cases hpart : unescape part with
    | none =>
      rw [mapM_readPart_cons_of_none hpart, List.map_cons, hpart]
      cases read <;> simp
    | some component =>
      rw [mapM_readPart_cons_of_some hpart, List.map_cons, hpart]
      cases read with
      | nil => cases parts.mapM readPart <;> simp [Except.map]
      | cons first read =>
        rw [List.map_cons, List.cons.injEq, ← ih]
        cases parts.mapM readPart <;> simp [Except.map]

/-- They are not read if one of them does not, and the first of these is the error. -/
private theorem mapM_readPart_eq_error_iff {parts : List (List Char)} {error : NameError} :
    parts.mapM readPart = .error error ↔
      ∃ before part after, parts = before ++ part :: after ∧
        (∀ other ∈ before, unescape other ≠ none) ∧ unescape part = none ∧
        error = .invalidEscape (String.ofList part) := by
  induction parts with
  | nil =>
    rw [List.mapM_nil]
    constructor
    · intro h
      cases h
    · rintro ⟨before, part, after, hparts, -⟩
      simp at hparts
  | cons first parts ih =>
    cases hfirst : unescape first with
    | none =>
      rw [mapM_readPart_cons_of_none hfirst]
      constructor
      · intro h
        cases h
        exact ⟨[], first, parts, rfl, by simp, hfirst, rfl⟩
      · rintro ⟨before, part, after, hparts, hbefore, -, rfl⟩
        cases before with
        | nil =>
          cases hparts
          rfl
        | cons other before =>
          cases hparts
          exact absurd hfirst (hbefore first List.mem_cons_self)
    | some component =>
      rw [mapM_readPart_cons_of_some hfirst]
      have hmap : (parts.mapM readPart).map (component :: ·) = .error error ↔
          parts.mapM readPart = .error error := by
        cases parts.mapM readPart <;> simp [Except.map]
      rw [hmap, ih]
      constructor
      · rintro ⟨before, part, after, rfl, hbefore, hpart, herror⟩
        refine ⟨first :: before, part, after, rfl, ?_, hpart, herror⟩
        exact List.forall_mem_cons.mpr ⟨by simp [hfirst], hbefore⟩
      · rintro ⟨before, part, after, hparts, hbefore, hpart, herror⟩
        cases before with
        | nil =>
          cases hparts
          rw [hfirst] at hpart
          cases hpart
        | cons other before =>
          cases hparts
          exact ⟨before, part, after, rfl, fun x hx => hbefore x (List.mem_cons_of_mem _ hx), hpart,
            herror⟩

private theorem components_eq_ok_iff {text : List Char} {read : List Bytes} :
    components text = .ok read ↔
      ((text.splitOn '/').filter fun part => !part.isEmpty).map unescape = read.map some := by
  rw [components_eq, segments_eq_splitOn]
  exact mapM_readPart_eq_ok_iff

/-- The error is the first part with a percent sign that starts no escape. -/
theorem components_eq_error_iff {text : List Char} {error : NameError} :
    components text = .error error ↔
      ∃ before part after,
        ((text.splitOn '/').filter fun part => !part.isEmpty) = before ++ part :: after ∧
        (∀ other ∈ before, ¬ HasBadEscape other) ∧ HasBadEscape part ∧
        error = .invalidEscape (String.ofList part) := by
  rw [components_eq, segments_eq_splitOn, mapM_readPart_eq_error_iff]
  simp only [ne_eq, unescape_eq_none_iff]

/-- No component that is read is empty. -/
theorem ne_nil_of_components {text : List Char} {read : List Bytes} (h : components text = .ok read) :
    ∀ component ∈ read, component ≠ [] := by
  intro component hmem
  have hsome : some component ∈ read.map some := List.mem_map_of_mem hmem
  rw [← components_eq_ok_iff.mp h] at hsome
  obtain ⟨part, hpart, hread⟩ := List.mem_map.mp hsome
  have hne : part ≠ [] := by simpa using (List.mem_filter.mp hpart).2
  exact ne_nil_of_unescape hread hne

/-- Components that are not empty are read back from what was written for them. -/
theorem components_flatMap_escape {components : List Bytes} (h : ∀ c ∈ components, c ≠ []) :
    Uri.components (components.flatMap fun c => '/' :: escape c) = .ok components := by
  have hparts : ((components.map escape).filter fun part => !part.isEmpty) =
      components.map escape := by
    apply List.filter_eq_self.mpr
    intro part hpart
    obtain ⟨c, hc, rfl⟩ := List.mem_map.mp hpart
    simpa using escape_ne_nil (h c hc)
  rw [components_eq_ok_iff, ← segments_eq_splitOn, segments_flatMap_escape,
    List.filter_cons_of_neg (by simp), hparts, List.map_map]
  exact List.map_congr_left fun c _ => unescape_escape c

end Uri

namespace Name

variable {uri : String} {suite : Suite} {components : List Bytes} {name : Name}

private theorem components_ofComponents (components : List Bytes) (suite : Suite) :
    (ofComponents components suite).components = components := by
  unfold ofComponents classify
  split <;> rfl

private theorem ofUri_eq_ok_iff : ofUri uri suite = .ok name ↔
    ∃ components, Uri.components uri.toList = .ok components ∧
      name = ofComponents components suite := by
  unfold ofUri
  cases Uri.components uri.toList <;> simp [Except.map, eq_comm]

private theorem ofUri_eq_error_iff {error : NameError} : ofUri uri suite = .error error ↔
    Uri.components uri.toList = .error error := by
  unfold ofUri
  cases Uri.components uri.toList <;> simp [Except.map]

/-- What is read from the URI of a name is its components, none of which may be empty. -/
theorem components_toUri (h : ∀ c ∈ name.components, c ≠ []) :
    Uri.components name.toUri.toList = .ok name.components := by
  unfold toUri
  split
  · next hroot =>
    rw [hroot]
    rfl
  · next _ =>
    rw [String.toList_ofList]
    exact Uri.components_flatMap_escape h

private theorem ofUri_toUri (h : ∀ c ∈ components, c ≠ []) :
    ofUri (ofComponents components suite).toUri suite = .ok (ofComponents components suite) := by
  rw [← components_ofComponents components suite] at h
  have hread := components_toUri h
  rw [components_ofComponents] at hread
  exact ofUri_eq_ok_iff.mpr ⟨components, hread, rfl⟩

/-- A name whose components are not empty is read back from its URI, with its flags, so that no two such
names have the same URI. Whatever text is read as a name, the URI of this name is read as the same name. A
text is refused exactly if one of its parts between slashes has a percent sign that is not followed by two
hexadecimal digits. -/
theorem uri_roundTrip (suite : Suite) :
    (∀ components : List Bytes, (∀ c ∈ components, c ≠ []) →
      ofUri (ofComponents components suite).toUri suite = .ok (ofComponents components suite)) ∧
    (∀ components others : List Bytes, (∀ c ∈ components, c ≠ []) → (∀ c ∈ others, c ≠ []) →
      (ofComponents components suite).toUri = (ofComponents others suite).toUri →
      components = others) ∧
    (∀ uri name, ofUri uri suite = .ok name → ofUri name.toUri suite = .ok name) ∧
    ∀ uri : String, (∃ error, ofUri uri suite = .error error) ↔
      ∃ part ∈ uri.toList.splitOn '/', part ≠ [] ∧ Uri.HasBadEscape part := by
  refine ⟨fun components h => ofUri_toUri h, fun components others h hothers hsame => ?_,
    fun uri name hname => ?_, fun uri => ⟨?_, ?_⟩⟩
  · have hread : ofUri (ofComponents components suite).toUri suite = .ok _ := ofUri_toUri h
    rw [hsame, ofUri_toUri hothers] at hread
    rw [← components_ofComponents components suite, ← Except.ok.inj hread, components_ofComponents]
  · obtain ⟨components, hread, rfl⟩ := ofUri_eq_ok_iff.mp hname
    exact ofUri_toUri (Uri.ne_nil_of_components hread)
  · rintro ⟨error, herror⟩
    rw [ofUri_eq_error_iff, Uri.components_eq_error_iff] at herror
    obtain ⟨before, part, after, hparts, -, hbad, -⟩ := herror
    have hpart : part ∈ (uri.toList.splitOn '/').filter fun part => !part.isEmpty := by
      rw [hparts]
      exact List.mem_append_right _ List.mem_cons_self
    obtain ⟨hmem, hne⟩ := List.mem_filter.mp hpart
    exact ⟨part, hmem, by simpa using hne, hbad⟩
  · rintro ⟨part, hmem, hne, hbad⟩
    cases hname : ofUri uri suite with
    | error error => exact ⟨error, rfl⟩
    | ok name =>
      -- All parts would have been read, this one too.
      obtain ⟨components, hread, -⟩ := ofUri_eq_ok_iff.mp hname
      have hpart : part ∈ (uri.toList.splitOn '/').filter fun part => !part.isEmpty :=
        List.mem_filter.mpr ⟨hmem, by simpa using hne⟩
      have hspelled := List.mem_map_of_mem (f := Uri.unescape) hpart
      rw [Uri.components_eq_ok_iff.mp hread, Uri.unescape_eq_none_iff.mpr hbad] at hspelled
      simp at hspelled

/-- Slashes, percent signs and octets that are no text come back. -/
theorem uri_roundTrip_escaped :
    let components : List Bytes := [[0x2F, 0x25], [0xFF, 0x61], expressionMarker]
    (∀ c ∈ components, c ≠ []) ∧ (ofComponents components).toUri = "/%2F%25/%FFa/NFN" ∧
      ofUri "/%2F%25/%FFa/NFN" = .ok (ofComponents components) := by
  intro components
  have hcomponents : ∀ c ∈ components, c ≠ [] := by decide
  have huri : (ofComponents components).toUri = "/%2F%25/%FFa/NFN" := by decide
  have hread := (uri_roundTrip default).1 components hcomponents
  rw [huri] at hread
  exact ⟨hcomponents, huri, hread⟩

end Name

end NamedFunctions
