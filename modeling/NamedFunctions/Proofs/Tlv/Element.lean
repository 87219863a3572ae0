import NamedFunctions.Tlv.Element

/-!
# Elements that are read back

An element whose length can be written is read back in front of any data, a sequence of such elements is
read back as a whole, and so is the number in an element. Conversely elements take no more octets than the
data that they were read from, in whatever widths their types and lengths stood there.
-/

namespace NamedFunctions.Tlv

-- Powers are those of natural numbers, as in what is used of byte strings.
attribute [local instance (high)] instPowNat

private theorem numberWidth_le {n : UInt64} {width : Nat} (hn : n.toNat < 256 ^ width)
    (hwidth : width = 2 ∨ width = 4 ∨ width = 8) : numberWidth n ≤ width := by
  unfold numberWidth
  simp only [UInt64.lt_iff_toNat_lt]
  rcases hwidth with rfl | rfl | rfl
  · have h : n.toNat < 0x10000 := hn
    split
    · omega
    · simp [h]
  · have h : n.toNat < 0x100000000 := hn
    split
    · omega
    · split
      · omega
      · simp [h]
  · split
    · omega
    · split
      · omega
      · split <;> omega

private theorem length_of_readFixed {width : Nat} {data rest : Bytes} {n : UInt64}
    (h : readFixed width data = some (n, rest)) (hwidth : width = 2 ∨ width = 4 ∨ width = 8) :
    numberWidth n + rest.length ≤ data.length := by
  unfold readFixed at h
  split at h
  · next hle =>
    cases h
    have hlt := BigEndian.toNat_lt (data.take width)
    rw [List.length_take, Nat.min_eq_left hle] at hlt
    have hmod : (UInt64.ofNat (BigEndian.toNat (data.take width))).toNat < 256 ^ width := by
      rw [UInt64.toNat_ofNat']
      exact Nat.lt_of_le_of_lt (Nat.mod_le _ _) hlt
    have hn := numberWidth_le hmod hwidth
    rw [List.length_drop]
    omega
  · cases h

/-- A number that is read takes no more octets when it is written. -/
theorem numberLength_le_of_readNumber {data rest : Bytes} {n : UInt64}
    (h : readNumber data = some (n, rest)) : numberLength n + rest.length ≤ data.length := by
  cases data with
  | nil => cases h
  | cons b tail =>
    rw [numberLength, List.length_cons]
    rw [readNumber] at h
    split at h
    · have := length_of_readFixed h (by simp)
      omega
    split at h
    · have := length_of_readFixed h (by simp)
      omega
    split at h
    · have := length_of_readFixed h (by simp)
      omega
    · next h₁ h₂ h₃ =>
      cases h
      have hb := b.toNat_lt
      have hsmall : b.toNat < 253 := by
        simp only [← UInt8.toNat_inj] at h₁ h₂ h₃
        simp at h₁ h₂ h₃
        omega
      have hwidth : numberWidth b.toUInt64 = 0 := by
        rw [numberWidth, if_pos]
        simpa [UInt64.lt_iff_toNat_lt] using hsmall
      omega

/-- A number takes an octet at least. -/
theorem numberLength_pos (n : UInt64) : 0 < numberLength n := by
  rw [numberLength]
  omega

private theorem numberLength_le (n : UInt64) : numberLength n ≤ 9 := by
  have hn : n.toNat < 256 ^ 8 := n.toNat_lt
  have := numberWidth_le hn (by simp)
  rw [numberLength]
  omega

namespace Element

/-- Whether the length of the value is a number of 64 bits, as that of each byte string in memory is. -/
def Fits (e : Element) : Prop := e.value.length < UInt64.size

instance (e : Element) : Decidable e.Fits :=
  inferInstanceAs (Decidable (e.value.length < UInt64.size))

/-- Its type and its length take no more than eighteen octets. -/
theorem encodedLength_le (e : Element) : e.encodedLength ≤ e.value.length + 18 := by
  have := numberLength_le e.type
  have := numberLength_le (UInt64.ofNat e.value.length)
  rw [encodedLength]
  omega

/-- An element is longer than its value. -/
theorem length_value_lt (e : Element) : e.value.length < e.encodedLength := by
  have := numberLength_pos e.type
  rw [encodedLength]
  omega

/-- An element is read back in front of any data. -/
theorem decode_encode_append {e : Element} (h : e.Fits) (rest : Bytes) :
    decode (e.encode ++ rest) = .ok (e, rest) := by
  have hlength : (UInt64.ofNat e.value.length).toNat = e.value.length :=
    UInt64.toNat_ofNat_of_lt h
  have hle : e.value.length ≤ (e.value ++ rest).length := by
    rw [List.length_append]
    omega
  rw [encode, List.append_assoc, List.append_assoc, decode, read_write]
  dsimp only
  rw [read_write]
  dsimp only
  rw [hlength, if_pos hle, List.take_left, List.drop_left]

/-- An element that is read can be written, in no more octets than it was read from. -/
theorem length_of_decode {data rest : Bytes} {e : Element} (h : decode data = .ok (e, rest)) :
    e.Fits ∧ e.encodedLength + rest.length ≤ data.length := by
  unfold decode at h
  split at h
  · cases h
  next type afterType htype =>
    split at h
    · cases h
    next length afterLength hlength =>
      split at h
      · next hle =>
        cases h
        have htaken : (afterLength.take length.toNat).length = length.toNat := by
          rw [List.length_take, Nat.min_eq_left hle]
        have h₁ := numberLength_le_of_readNumber htype
        have h₂ := numberLength_le_of_readNumber hlength
        constructor
        · rw [Fits, htaken]
          exact length.toNat_lt
        · rw [encodedLength, List.length_drop]
          dsimp only
          rw [htaken, UInt64.ofNat_toNat]
          omega
      · cases h

/-- The element of a number has the type that it is given. -/
@[simp] theorem type_ofInteger (type n : UInt64) : (ofInteger type n).type = type := rfl

/-- A number takes 1, 2, 4 or 8 octets, enough of them. -/
theorem length_integerBytes (n : UInt64) :
    ((integerBytes n).length = 1 ∨ (integerBytes n).length = 2 ∨ (integerBytes n).length = 4 ∨
      (integerBytes n).length = 8) ∧ BigEndian.toNat (integerBytes n) = n.toNat := by
  have hn := n.toNat_lt
  unfold integerBytes
  simp only [UInt64.lt_iff_toNat_lt]
  split
  · next h => exact ⟨by simp, BigEndian.toNat_ofNat h⟩
  · split
    · next h => exact ⟨by simp, BigEndian.toNat_ofNat h⟩
    · split
      · next h => exact ⟨by simp, BigEndian.toNat_ofNat h⟩
      · exact ⟨by simp, BigEndian.toNat_ofNat hn⟩

/-- The number that an element carries is read back. -/
@[simp] theorem integer_ofInteger (type n : UInt64) : (ofInteger type n).integer = .ok n := by
  obtain ⟨hlength, hn⟩ := length_integerBytes n
  rw [integer, ofInteger]
  dsimp only
  rw [if_pos hlength, hn, UInt64.ofNat_toNat]

/-- A number of 32 bits is read back. -/
@[simp] theorem integer32_ofInteger (type : UInt64) (n : UInt32) :
    (ofInteger type n.toUInt64).integer32 = .ok n := by
  have hn : n.toUInt64 < 0x100000000 := by
    have := n.toNat_lt
    simpa [UInt64.lt_iff_toNat_lt] using this
  rw [integer32, integer_ofInteger]
  dsimp only
  rw [if_pos hn, UInt32.toUInt32_toUInt64]

/-- The element of a number takes no more than 26 octets. -/
theorem length_ofInteger_le (type n : UInt64) : (ofInteger type n).encodedLength ≤ 26 := by
  have hlength := (length_integerBytes n).1
  have hle := (ofInteger type n).encodedLength_le
  have hvalue : (ofInteger type n).value.length = (integerBytes n).length := rfl
  omega

end Element

private theorem encodeAll_cons (e : Element) (elements : List Element) :
    encodeAll (e :: elements) = e.encode ++ encodeAll elements := rfl

private theorem encodeAll_append (first second : List Element) :
    encodeAll (first ++ second) = encodeAll first ++ encodeAll second := List.flatMap_append

/-- No elements take no octets. -/
@[simp] theorem length_encodeAll_nil : (encodeAll []).length = 0 := rfl

/-- The octets of elements are those of the first and of the others. -/
@[simp] theorem length_encodeAll_cons (e : Element) (elements : List Element) :
    (encodeAll (e :: elements)).length = e.encodedLength + (encodeAll elements).length := by
  rw [encodeAll_cons, List.length_append, Element.length_encode]

/-- The octets of elements are those of one part and of the other. -/
@[simp] theorem length_encodeAll_append (first second : List Element) :
    (encodeAll (first ++ second)).length =
      (encodeAll first).length + (encodeAll second).length := by
  rw [encodeAll_append, List.length_append]

/-- Elements in a sequence that can be written can be written themselves. -/
theorem length_value_lt_of_mem {e : Element} {elements : List Element} (he : e ∈ elements) :
    e.value.length < (encodeAll elements).length := by
  induction elements with
  | nil => cases he
  | cons first elements ih =>
    have := first.length_value_lt
    rw [length_encodeAll_cons]
    rcases List.mem_cons.mp he with rfl | he
    · omega
    · have := ih he
      omega

/-- Elements are decoded one after the other. -/
theorem decodeAll_of_decode {data rest : Bytes} {e : Element}
    (h : Element.decode data = .ok (e, rest)) :
    decodeAll data = (decodeAll rest).map (e :: ·) := by
  cases data with
  | nil => cases h
  | cons b bytes =>
    rw [decodeAll]
    split
    · next heq =>
      rw [h] at heq
      cases heq
    · next heq =>
      rw [h] at heq
      cases heq
      cases decodeAll rest <;> rfl

/-- An element that cannot be decoded is an error of all. -/
theorem decodeAll_of_error {data : Bytes} {error : Error} (hdata : data ≠ [])
    (h : Element.decode data = .error error) : decodeAll data = .error error := by
  cases data with
  | nil => exact absurd rfl hdata
  | cons b bytes =>
    rw [decodeAll]
    split
    · next heq =>
      rw [h] at heq
      cases heq
      rfl
    · next heq =>
      rw [h] at heq
      cases heq

/-- A sequence of elements is read back. -/
theorem decodeAll_encodeAll {elements : List Element} (h : ∀ e ∈ elements, e.Fits) :
    decodeAll (encodeAll elements) = .ok elements := by
  induction elements with
  | nil => rw [encodeAll, List.flatMap_nil, decodeAll]
  | cons e elements ih =>
    have hrest := ih fun e he => h e (List.mem_cons_of_mem _ he)
    rw [encodeAll_cons,
      decodeAll_of_decode (Element.decode_encode_append (h e List.mem_cons_self) _), hrest]
    rfl

/-- What is read as a sequence can be written. -/
theorem fits_of_decodeAll {data : Bytes} {elements : List Element} (h : decodeAll data = .ok elements) :
    ∀ e ∈ elements, e.Fits := by
  fun_induction decodeAll data generalizing elements with
  | case1 =>
    cases h
    intro e he
    cases he
  | case2 => cases h
  | case3 => cases h
  | case4 b bytes e rest hdecode _ elements hrest ih =>
    cases h
    exact List.forall_mem_cons.mpr ⟨(Element.length_of_decode hdecode).1, ih hrest⟩

/-- What is read as a sequence takes no more octets when it is written. -/
theorem length_of_decodeAll {data : Bytes} {elements : List Element}
    (h : decodeAll data = .ok elements) : (encodeAll elements).length ≤ data.length := by
  fun_induction decodeAll data generalizing elements with
  | case1 =>
    cases h
    exact Nat.le_refl _
  | case2 => cases h
  | case3 => cases h
  | case4 b bytes e rest hdecode _ elements hrest ih =>
    cases h
    have hhead := (Element.length_of_decode hdecode).2
    have htail := ih hrest
    rw [length_encodeAll_cons]
    omega

end NamedFunctions.Tlv
