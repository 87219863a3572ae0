import NamedFunctions.Text.Numeral
import NamedFunctions.Tlv.Number

/-!
# TLV elements

An element is a type, the length of its value and the value. Elements stand one after the other; a
reader that takes one is left with what follows it, so a sequence is read until nothing is left.
-/

namespace NamedFunctions.Tlv

/-- A type and a value. `nfn-core/src/tlv:3–14`. -/
structure Element where
  type : UInt64
  value : Bytes
deriving DecidableEq, Repr

/-- Why data is not made of elements, or an element is not what it has to be. `nfn-core/src/tlv:16–29`. -/
inductive Error where
  /-- The data ends inside an element. -/
  | tooShort
  /-- An element of this type is required and is not there. -/
  | missing (type : UInt64)
  /-- A value of so many octets is no number, or its number is too great. -/
  | invalidInteger (length : Nat)
deriving DecidableEq, Repr

/-- The text of an error. `nfn-core/src/tlv:19–28`. -/
def Error.message : Error → String
  | tooShort => "buffer too short"
  | missing type => "missing TLV element: " ++ Text.hexNumeral type.toNat
  | invalidInteger length => "non-negative integer of invalid width " ++ toString length

namespace Element

/-- The octets of an element. `nfn-core/src/tlv:45–57`. -/
def encode (e : Element) : Bytes :=
  writeNumber e.type ++ writeNumber (UInt64.ofNat e.value.length) ++ e.value

/-- How many octets an element takes. `nfn-core/src/tlv:41–43`. -/
def encodedLength (e : Element) : Nat :=
  numberLength e.type + numberLength (UInt64.ofNat e.value.length) + e.value.length

/-- The octets of a number as a value: 1, 2, 4 or 8 of them, as few as hold it. `nfn-core/src/tlv:130–140`. -/
def integerBytes (n : UInt64) : Bytes :=
  if n < 0x100 then BigEndian.ofNat 1 n.toNat
  else if n < 0x10000 then BigEndian.ofNat 2 n.toNat
  else if n < 0x100000000 then BigEndian.ofNat 4 n.toNat
  else BigEndian.ofNat 8 n.toNat

/-- The element that carries a number. `nfn-core/src/tlv:36–39`. -/
def ofInteger (type n : UInt64) : Element := ⟨type, integerBytes n⟩

/-- The number that an element carries. `nfn-core/src/tlv:73–76,142–147`. -/
def integer (e : Element) : Except Error UInt64 :=
  let length := e.value.length
  if length = 1 ∨ length = 2 ∨ length = 4 ∨ length = 8 then
    .ok (UInt64.ofNat (BigEndian.toNat e.value))
  else .error (.invalidInteger length)

/-- The number of at most 32 bits that an element carries. `nfn-core/src/tlv:78–81`. -/
def integer32 (e : Element) : Except Error UInt32 :=
  match e.integer with
  | .error error => .error error
  | .ok n => if n < 0x100000000 then .ok n.toUInt32 else .error (.invalidInteger e.value.length)

/-- The element at the start of some data and what follows it. `nfn-core/src/tlv:59–71`. -/
def decode (data : Bytes) : Except Error (Element × Bytes) :=
  match readNumber data with
  | none => .error .tooShort
  | some (type, afterType) =>
    match readNumber afterType with
    | none => .error .tooShort
    | some (length, afterLength) =>
      if length.toNat ≤ afterLength.length then
        .ok (⟨type, afterLength.take length.toNat⟩, afterLength.drop length.toNat)
      else .error .tooShort

/-- An element takes as many octets as `encodedLength` says. -/
@[simp] theorem length_encode (e : Element) : e.encode.length = e.encodedLength := by
  rw [encode, List.length_append, List.length_append, length_writeNumber, length_writeNumber,
    encodedLength]

/-- What is left after an element is shorter than the data. -/
theorem length_lt_of_decode {data rest : Bytes} {e : Element} (h : decode data = .ok (e, rest)) :
    rest.length < data.length := by
  unfold decode at h
  split at h
  · cases h
  next type afterType h₁ =>
    split at h
    · cases h
    next length afterLength h₂ =>
      split at h
      · cases h
        have := length_lt_of_readNumber h₁
        have := length_lt_of_readNumber h₂
        rw [List.length_drop]
        omega
      · cases h

end Element

/-- The type of the element at the start of some data, whether or not all of it is there.
`nfn-core/src/tlv:84–87`. -/
def peekType (data : Bytes) : Except Error UInt64 :=
  match readNumber data with
  | none => .error .tooShort
  | some (type, _) => .ok type

/-- The octets of elements, one after the other. `nfn-core/src/tlv:149–157`. -/
def encodeAll (elements : List Element) : Bytes := elements.flatMap Element.encode

/-- The elements that some data consists of. `nfn-core/src/tlv:159–169`. -/
def decodeAll (data : Bytes) : Except Error (List Element) :=
  match data with
  | [] => .ok []
  | b :: bytes =>
    match h : Element.decode (b :: bytes) with
    | .error error => .error error
    | .ok (e, rest) =>
      have : rest.length < (b :: bytes).length := Element.length_lt_of_decode h
      match decodeAll rest with
      | .error error => .error error
      | .ok elements => .ok (e :: elements)
termination_by data.length
decreasing_by exact this

end NamedFunctions.Tlv
