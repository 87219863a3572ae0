import NamedFunctions.Bytes

/-!
# Numbers of TLV elements

A number below 253 is one octet; a greater one is a mark and 2, 4 or 8 octets, big-endian. The
writer takes the shortest form, the reader takes any. `read_write` says that they agree.
-/

namespace NamedFunctions.Tlv

/-- The octets after the mark of a number, by its size. `nfn-core/src/tlv:89–99`. -/
def numberWidth (n : UInt64) : Nat :=
  if n < 253 then 0 else if n < 0x10000 then 2 else if n < 0x100000000 then 4 else 8

/-- The octets of a number. `nfn-core/src/tlv:101–115`. -/
def writeNumber (n : UInt64) : Bytes :=
  match numberWidth n with
  | 2 => 0xFD :: BigEndian.ofNat 2 n.toNat
  | 4 => 0xFE :: BigEndian.ofNat 4 n.toNat
  | 8 => 0xFF :: BigEndian.ofNat 8 n.toNat
  | _ => [n.toUInt8]

/-- How many octets a number takes. `nfn-core/src/tlv:89–99`. -/
def numberLength (n : UInt64) : Nat := 1 + numberWidth n

/-- A number of `width` octets and what follows it, if there are so many. `nfn-core/src/tlv:125–127`. -/
def readFixed (width : Nat) (data : Bytes) : Option (UInt64 × Bytes) :=
  if width ≤ data.length then
    some (UInt64.ofNat (BigEndian.toNat (data.take width)), data.drop width)
  else none

/-- The number at the start of some data and what follows it; `none` if the data ends before.
`nfn-core/src/tlv:117–128`. -/
def readNumber : Bytes → Option (UInt64 × Bytes)
  | [] => none
  | b :: rest =>
    if b = 0xFD then readFixed 2 rest
    else if b = 0xFE then readFixed 4 rest
    else if b = 0xFF then readFixed 8 rest
    else some (b.toUInt64, rest)

/-- A number takes as many octets as `numberLength` says. -/
@[simp] theorem length_writeNumber (n : UInt64) : (writeNumber n).length = numberLength n := by
  unfold writeNumber numberLength numberWidth
  by_cases h₁ : n < 253
  · simp [h₁]
  · by_cases h₂ : n < 0x10000
    · simp [h₁, h₂]
    · by_cases h₃ : n < 0x100000000
      · simp [h₁, h₂, h₃]
      · simp [h₁, h₂, h₃]

-- The power is that of natural numbers, as in what is used of byte strings.
attribute [local instance (high)] instPowNat in
/-- A number of fixed width is read back in front of any data. -/
theorem readFixed_append {width : Nat} {n : UInt64} (h : n.toNat < 256 ^ width) (rest : Bytes) :
    readFixed width (BigEndian.ofNat width n.toNat ++ rest) = some (n, rest) := by
  have hw : (BigEndian.ofNat width n.toNat).length = width := BigEndian.length_ofNat _ _
  have hle : width ≤ (BigEndian.ofNat width n.toNat ++ rest).length := by
    rw [List.length_append]
    omega
  have ht : (BigEndian.ofNat width n.toNat ++ rest).take width = BigEndian.ofNat width n.toNat := by
    rw [List.take_append_of_le_length (by omega), List.take_of_length_le (by omega)]
  have hd : (BigEndian.ofNat width n.toNat ++ rest).drop width = rest := by
    rw [List.drop_append_of_le_length (by omega), List.drop_of_length_le (by omega), List.nil_append]
  rw [readFixed, if_pos hle, ht, hd, BigEndian.toNat_ofNat h, UInt64.ofNat_toNat]

/-- A number that was written is read back in front of any data. -/
theorem read_write (n : UInt64) (rest : Bytes) :
    readNumber (writeNumber n ++ rest) = some (n, rest) := by
  by_cases h₁ : n < 253
  · have hn : n.toNat < 253 := by simpa [UInt64.lt_iff_toNat_lt] using h₁
    have hw : writeNumber n = [n.toUInt8] := by simp [writeNumber, numberWidth, h₁]
    have h8 : n.toUInt8.toNat = n.toNat := by
      rw [UInt64.toNat_toUInt8]
      omega
    have hne : ∀ m : UInt8, 253 ≤ m.toNat → n.toUInt8 ≠ m := by
      intro m hm he
      rw [← he, h8] at hm
      omega
    rw [hw, List.singleton_append, readNumber, if_neg (hne 0xFD (by decide)),
      if_neg (hne 0xFE (by decide)), if_neg (hne 0xFF (by decide))]
    have : n.toUInt8.toUInt64 = n := by
      apply UInt64.toNat_inj.mp
      rw [UInt8.toNat_toUInt64, h8]
    rw [this]
  · by_cases h₂ : n < 0x10000
    · have hw : writeNumber n = 0xFD :: BigEndian.ofNat 2 n.toNat := by
        simp [writeNumber, numberWidth, h₁, h₂]
      have hn : n.toNat < 256 ^ 2 := by simpa [UInt64.lt_iff_toNat_lt] using h₂
      rw [hw, List.cons_append, readNumber, if_pos rfl, readFixed_append hn]
    · by_cases h₃ : n < 0x100000000
      · have hw : writeNumber n = 0xFE :: BigEndian.ofNat 4 n.toNat := by
          simp [writeNumber, numberWidth, h₁, h₂, h₃]
        have hn : n.toNat < 256 ^ 4 := by simpa [UInt64.lt_iff_toNat_lt] using h₃
        rw [hw, List.cons_append, readNumber, if_neg (by decide), if_pos rfl,
          readFixed_append hn]
      · have hw : writeNumber n = 0xFF :: BigEndian.ofNat 8 n.toNat := by
          simp [writeNumber, numberWidth, h₁, h₂, h₃]
        have hn : n.toNat < 256 ^ 8 := n.toNat_lt
        rw [hw, List.cons_append, readNumber, if_neg (by decide), if_neg (by decide),
          if_pos rfl, readFixed_append hn]

/-- What is left after a number is shorter than the data. -/
theorem length_lt_of_readNumber {data rest : Bytes} {n : UInt64}
    (h : readNumber data = some (n, rest)) : rest.length < data.length := by
  have fixed {width : Nat} {tail : Bytes} (h : readFixed width tail = some (n, rest)) :
      rest.length ≤ tail.length := by
    unfold readFixed at h
    split at h
    · cases h
      rw [List.length_drop]
      omega
    · cases h
  cases data with
  | nil => cases h
  | cons b tail =>
    rw [List.length_cons]
    rw [readNumber] at h
    split at h
    · have := fixed h
      omega
    split at h
    · have := fixed h
      omega
    split at h
    · have := fixed h
      omega
    · cases h
      omega

end NamedFunctions.Tlv
