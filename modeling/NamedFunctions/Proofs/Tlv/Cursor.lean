import NamedFunctions.Proofs.Tlv.Element

/-!
# Reading in machine words

A reader that keeps its place in the data counts octets in words of 64 bits. It adds the octets of a type, of
a length and of a value, whose length the data itself claims, and moves on by what the elements took. Here
that reader is written with every sum and every range checked: `Stop.overflow` is what a sum that wraps around,
or a range that is not in the data, comes to.

It reads what `Element.decode` and `decodeAll` read, and never overflows (`Word.exists_taken` and
`Word.decode_eq_error_iff`). Each element takes at least two octets, so its loop ends after half as many
rounds as there are octets, and one more if the data is refused (`Cursor.runs_start_iff`).
-/

namespace NamedFunctions.Tlv

/-- Why reading in machine words stops. -/
inductive Stop where
  /-- The data is refused. -/
  | refused (error : Error)
  /-- A sum is no word, or a range is not in the data. -/
  | overflow
deriving DecidableEq, Repr

namespace Word

/-- The sum of two words, if it is a word. -/
def add (m n : UInt64) : Except Stop UInt64 :=
  if m.toNat + n.toNat < UInt64.size then .ok (m + n) else .error .overflow

/-- The octets from `start` up to `stop`, which have to be there. -/
def slice (data : Bytes) (start stop : UInt64) : Except Stop Bytes :=
  if start.toNat ≤ stop.toNat ∧ stop.toNat ≤ data.length then
    .ok ((data.drop start.toNat).take (stop.toNat - start.toNat))
  else .error .overflow

/-- The octets from `start` on, which has to be in the data. -/
def suffix (data : Bytes) (start : UInt64) : Except Stop Bytes :=
  if start.toNat ≤ data.length then .ok (data.drop start.toNat) else .error .overflow

/-- A word moved to the left by an octet, which is put in. -/
def push (n : UInt64) (b : UInt8) : UInt64 := (n <<< 8) ||| b.toUInt64

/-- The number that octets spell, put together in one word. -/
def spell (data : Bytes) : UInt64 := data.foldl push 0

/-- How many octets follow the first octet of a number. -/
def width (first : UInt8) : UInt64 :=
  if first = 0xFD then 2 else if first = 0xFE then 4 else if first = 0xFF then 8 else 0

/-- The number at the start of some data and how many octets it takes. -/
def readNumber (data : Bytes) : Except Stop (UInt64 × UInt64) :=
  match data with
  | [] => .error (.refused .tooShort)
  | first :: rest =>
    if width first = 0 then .ok (first.toUInt64, 1)
    else
      match add 1 (width first) with
      | .error stop => .error stop
      | .ok taken =>
        if taken.toNat ≤ data.length then .ok (spell (rest.take (width first).toNat), taken)
        else .error (.refused .tooShort)

/-- The element whose value stands from `start` on, and where it ends. The length is what the data claims:
that this sum is no word means that there is too little data. -/
def readValue (data : Bytes) (type start length : UInt64) : Except Stop (Element × UInt64) :=
  match add start length with
  | .error _ => .error (.refused .tooShort)
  | .ok stop =>
    if data.length < stop.toNat then .error (.refused .tooShort)
    else do
      let value ← slice data start stop
      return (⟨type, value⟩, stop)

/-- The element at the start of some data and how many octets it takes. -/
def decode (data : Bytes) : Except Stop (Element × UInt64) := do
  let (type, typeLength) ← readNumber data
  let afterType ← suffix data typeLength
  let (length, lengthLength) ← readNumber afterType
  let start ← add typeLength lengthLength
  readValue data type start length

end Word

/-- Where a reader stands in some data, and the elements before. -/
structure Cursor where
  offset : UInt64
  elements : List Element

namespace Cursor

/-- Before the first element. -/
def start : Cursor := ⟨0, []⟩

/-- The cursor after one more element. -/
def next (data : Bytes) (c : Cursor) : Except Stop Cursor := do
  let rest ← Word.suffix data c.offset
  let (e, taken) ← Word.decode rest
  let offset ← Word.add c.offset taken
  return ⟨offset, c.elements ++ [e]⟩

/-- The loop over the elements ends with `result` after so many rounds. Nothing bounds their number. -/
inductive Runs (data : Bytes) : Cursor → Nat → Except Stop (List Element) → Prop where
  | finish {c : Cursor} (h : ¬ c.offset.toNat < data.length) : Runs data c 0 (.ok c.elements)
  | stop {c : Cursor} {stop : Stop} (h : c.offset.toNat < data.length) (hnext : c.next data = .error stop) :
      Runs data c 1 (.error stop)
  | round {c later : Cursor} {rounds : Nat} {result : Except Stop (List Element)}
      (h : c.offset.toNat < data.length) (hnext : c.next data = .ok later)
      (hlater : Runs data later rounds result) : Runs data c (rounds + 1) result

end Cursor

namespace Word

private theorem add_of_lt {m n : UInt64} (h : m.toNat + n.toNat < UInt64.size) : add m n = .ok (m + n) :=
    if_pos h

private theorem toNat_add_of_lt {m n : UInt64} (h : m.toNat + n.toNat < UInt64.size) :
    (m + n).toNat = m.toNat + n.toNat := by
  rw [UInt64.toNat_add]
  exact Nat.mod_eq_of_lt h

private theorem suffix_of_le {data : Bytes} {start : UInt64} (h : start.toNat ≤ data.length) :
    suffix data start = .ok (data.drop start.toNat) := if_pos h

/-- To put in an octet is arithmetic modulo the words. -/
theorem toNat_push (n : UInt64) (b : UInt8) :
    (push n b).toNat = (n.toNat * 256 + b.toNat) % UInt64.size := by
  have hb : b.toNat < 256 := b.toNat_lt
  have hsize : UInt64.size = 72057594037927936 * 256 := rfl
  have hshift : (n <<< 8).toNat = 256 * (n.toNat % 72057594037927936) := by
    rw [UInt64.toNat_shiftLeft, Nat.shiftLeft_eq]
    refine Eq.trans ?_ (Nat.mul_comm _ _)
    exact Nat.mul_mod_mul_right 256 n.toNat 72057594037927936
  have hor : 256 * (n.toNat % 72057594037927936) + b.toNat =
      256 * (n.toNat % 72057594037927936) ||| b.toNat := Nat.two_pow_add_eq_or_of_lt (i := 8) hb _
  rw [push, UInt64.toNat_or, hshift, UInt8.toNat_toUInt64, ← hor, hsize]
  omega

private theorem toNat_foldl_push (data : Bytes) {word : UInt64} {n : Nat} (h : word.toNat = n % UInt64.size) :
    (data.foldl push word).toNat = data.foldl (fun n b => n * 256 + b.toNat) n % UInt64.size := by
  induction data generalizing word n with
  | nil => exact h
  | cons b data ih =>
    have hsize : UInt64.size = 72057594037927936 * 256 := rfl
    rw [List.foldl_cons, List.foldl_cons]
    apply ih
    rw [toNat_push, h, hsize]
    omega

/-- What octets spell in one word is the number that they spell, modulo the words. -/
theorem spell_eq (data : Bytes) : spell data = UInt64.ofNat (BigEndian.toNat data) := by
  apply UInt64.toNat_inj.mp
  have hzero : (0 : UInt64).toNat = 0 % UInt64.size := rfl
  rw [UInt64.toNat_ofNat']
  exact toNat_foldl_push data hzero

private theorem toNat_width_le (first : UInt8) : (width first).toNat ≤ 8 := by
  unfold width
  split
  · decide
  split
  · decide
  split <;> decide

private theorem one_add_width_lt (first : UInt8) :
    (1 : UInt64).toNat + (width first).toNat < UInt64.size :=
  Nat.lt_of_le_of_lt (Nat.add_le_add_left (toNat_width_le first) _) (by decide)

private theorem toNat_one_add_width (first : UInt8) :
    (1 + width first).toNat = (width first).toNat + 1 := by
  rw [toNat_add_of_lt (one_add_width_lt first), Nat.add_comm]
  rfl

/-- A number is its first octet, or as many octets behind it as that one says. -/
theorem readNumber_cons (first : UInt8) (rest : Bytes) :
    Tlv.readNumber (first :: rest) =
      if width first = 0 then some (first.toUInt64, rest) else readFixed (width first).toNat rest := by
  rw [Tlv.readNumber, width]
  split
  · rfl
  split
  · rfl
  split <;> rfl

/-- Where the data ends inside a number, it is refused. -/
theorem readNumber_of_none {data : Bytes} (h : Tlv.readNumber data = none) :
    readNumber data = .error (.refused .tooShort) := by
  cases data with
  | nil => rfl
  | cons first rest =>
    rw [readNumber_cons] at h
    split at h
    · cases h
    next hmark =>
      unfold readFixed at h
      split at h
      · cases h
      next hshort =>
        have htaken : ¬ (1 + width first).toNat ≤ (first :: rest).length := by
          rw [toNat_one_add_width, List.length_cons]
          omega
        rw [readNumber, if_neg hmark, add_of_lt (one_add_width_lt first)]
        exact if_neg htaken

/-- A number that is read takes at most 9 octets, which are there. -/
theorem readNumber_of_some {data rest : Bytes} {n : UInt64} (h : Tlv.readNumber data = some (n, rest)) :
    ∃ taken, readNumber data = .ok (n, taken) ∧ 0 < taken.toNat ∧ taken.toNat ≤ 9 ∧
      taken.toNat ≤ data.length ∧ rest = data.drop taken.toNat := by
  cases data with
  | nil => cases h
  | cons first tail =>
    rw [readNumber_cons] at h
    split at h
    · next hplain =>
      cases h
      exact ⟨1, if_pos hplain, by decide, by decide, Nat.succ_pos _, rfl⟩
    next hmark =>
      unfold readFixed at h
      split at h
      · next hle =>
        cases h
        have hwidth := toNat_width_le first
        have htaken : (1 + width first).toNat ≤ (first :: tail).length := by
          rw [toNat_one_add_width, List.length_cons]
          omega
        refine ⟨1 + width first, ?_, ?_, ?_, htaken, ?_⟩
        · rw [readNumber, if_neg hmark, add_of_lt (one_add_width_lt first), ← spell_eq]
          exact if_pos htaken
        · rw [toNat_one_add_width]
          omega
        · rw [toNat_one_add_width]
          omega
        · rw [toNat_one_add_width, List.drop_succ_cons]
      · cases h

private theorem readValue_of_le {data : Bytes} {type start length : UInt64}
    (hdata : data.length < UInt64.size) (h : start.toNat + length.toNat ≤ data.length) :
    readValue data type start length =
      .ok (⟨type, (data.drop start.toNat).take length.toNat⟩, start + length) := by
  have hfit : start.toNat + length.toNat < UInt64.size := Nat.lt_of_le_of_lt h hdata
  have hstop := toNat_add_of_lt hfit
  have hrange : start.toNat ≤ (start + length).toNat ∧ (start + length).toNat ≤ data.length := by
    rw [hstop]
    omega
  rw [readValue, add_of_lt hfit]
  dsimp only
  rw [if_neg (Nat.not_lt_of_le hrange.2), slice, if_pos hrange, hstop, Nat.add_sub_cancel_left]
  rfl

private theorem readValue_of_lt {data : Bytes} {type start length : UInt64}
    (h : data.length < start.toNat + length.toNat) :
    readValue data type start length = .error (.refused .tooShort) := by
  unfold readValue add
  split
  · rfl
  next stop hstop =>
    split at hstop
    · next hfit =>
      cases hstop
      rw [toNat_add_of_lt hfit]
      exact if_pos h
    · cases hstop

/-- What is left to do once the type and the length are read, which take at most 18 octets. -/
theorem decode_of_header {data afterType afterLength : Bytes} {type length : UInt64}
    (htype : Tlv.readNumber data = some (type, afterType))
    (hlength : Tlv.readNumber afterType = some (length, afterLength)) :
    ∃ start, decode data = readValue data type start length ∧ 2 ≤ start.toNat ∧
      start.toNat ≤ data.length ∧ afterLength = data.drop start.toNat := by
  obtain ⟨typeLength, hread, hpos, hle, hin, rfl⟩ := readNumber_of_some htype
  obtain ⟨lengthLength, hread', hpos', hle', hin', rfl⟩ := readNumber_of_some hlength
  have hfit : typeLength.toNat + lengthLength.toNat < UInt64.size :=
    Nat.lt_of_le_of_lt (Nat.add_le_add hle hle') (by decide)
  rw [List.length_drop] at hin'
  refine ⟨typeLength + lengthLength, ?_, ?_, ?_, ?_⟩
  · rw [decode, hread]
    change (suffix data typeLength >>= _) = _
    rw [suffix_of_le hin]
    change (readNumber (data.drop typeLength.toNat) >>= _) = _
    rw [hread']
    change (add typeLength lengthLength >>= _) = _
    rw [add_of_lt hfit]
    rfl
  · rw [toNat_add_of_lt hfit]
    omega
  · rw [toNat_add_of_lt hfit]
    omega
  · rw [toNat_add_of_lt hfit, List.drop_drop]

/-- What is refused is refused in words as well. -/
theorem decode_of_error {data : Bytes} {error : Error} (h : Element.decode data = .error error) :
    decode data = .error (.refused error) := by
  unfold Element.decode at h
  split at h
  · next htype =>
    cases h
    rw [decode, readNumber_of_none htype]
    rfl
  next type afterType htype =>
    split at h
    · next hlength =>
      cases h
      obtain ⟨typeLength, hread, -, -, hin, rfl⟩ := readNumber_of_some htype
      rw [decode, hread]
      change (suffix data typeLength >>= _) = _
      rw [suffix_of_le hin]
      change (readNumber (data.drop typeLength.toNat) >>= _) = _
      rw [readNumber_of_none hlength]
      rfl
    next length afterLength hlength =>
      split at h
      · cases h
      next hshort =>
        cases h
        obtain ⟨start, hdecode, -, hin, rfl⟩ := decode_of_header htype hlength
        rw [List.length_drop] at hshort
        rw [hdecode]
        exact readValue_of_lt (by omega)

/-- An element that is read has its value in the data, behind a type and a length. -/
theorem exists_readValue {data rest : Bytes} {e : Element} (h : Element.decode data = .ok (e, rest)) :
    ∃ start length : UInt64, decode data = readValue data e.type start length ∧ 2 ≤ start.toNat ∧
      start.toNat + length.toNat ≤ data.length ∧
      e.value = (data.drop start.toNat).take length.toNat ∧
      rest = data.drop (start.toNat + length.toNat) := by
  unfold Element.decode at h
  split at h
  · cases h
  next type afterType htype =>
    split at h
    · cases h
    next length afterLength hlength =>
      split at h
      · next hle =>
        cases h
        obtain ⟨start, hdecode, htwo, hin, rfl⟩ := decode_of_header htype hlength
        rw [List.length_drop] at hle
        exact ⟨start, length, hdecode, htwo, by omega, rfl, List.drop_drop⟩
      · cases h

/-- An element that is read takes two octets or more, which are there. In words it is read as well, with the
number of its octets. -/
theorem exists_taken {data rest : Bytes} {e : Element} (h : Element.decode data = .ok (e, rest)) :
    ∃ taken : Nat, 2 ≤ taken ∧ taken ≤ data.length ∧ rest = data.drop taken ∧
      (data.length < UInt64.size → decode data = .ok (e, UInt64.ofNat taken)) := by
  obtain ⟨start, length, hdecode, htwo, hin, hvalue, hrest⟩ := exists_readValue h
  refine ⟨start.toNat + length.toNat, by omega, hin, hrest, fun hdata => ?_⟩
  rw [hdecode, readValue_of_le hdata hin, ← hvalue, UInt64.ofNat_add, UInt64.ofNat_toNat,
    UInt64.ofNat_toNat]

/-- Reading in words stops where the data is refused and nowhere else, so no sum wraps around and no range is
missed. -/
theorem decode_eq_error_iff {data : Bytes} (hdata : data.length < UInt64.size) (stop : Stop) :
    decode data = .error stop ↔ ∃ error, stop = .refused error ∧ Element.decode data = .error error := by
  constructor
  · intro h
    cases hdecode : Element.decode data with
    | error error =>
      rw [decode_of_error hdecode] at h
      cases h
      exact ⟨error, rfl, rfl⟩
    | ok read =>
      obtain ⟨e, rest⟩ := read
      obtain ⟨taken, -, -, -, hword⟩ := exists_taken hdecode
      rw [hword hdata] at h
      cases h
  · rintro ⟨error, rfl, h⟩
    exact decode_of_error h

end Word

namespace Cursor

/-- A loop ends in one way only. -/
theorem Runs.unique {data : Bytes} {c : Cursor} {rounds rounds' : Nat}
    {result result' : Except Stop (List Element)} (h : Runs data c rounds result)
    (h' : Runs data c rounds' result') : rounds' = rounds ∧ result' = result := by
  induction h generalizing rounds' result' with
  | finish hdone =>
    cases h' with
    | finish => exact ⟨rfl, rfl⟩
    | stop h => exact absurd h hdone
    | round h => exact absurd h hdone
  | stop h hnext =>
    cases h' with
    | finish hdone => exact absurd h hdone
    | stop _ hnext' =>
      rw [hnext] at hnext'
      cases hnext'
      exact ⟨rfl, rfl⟩
    | round _ hnext' =>
      rw [hnext] at hnext'
      cases hnext'
  | round h hnext _ ih =>
    cases h' with
    | finish hdone => exact absurd h hdone
    | stop _ hnext' =>
      rw [hnext] at hnext'
      cases hnext'
    | round _ hnext' hlater =>
      rw [hnext] at hnext'
      cases hnext'
      obtain ⟨rfl, rfl⟩ := ih hlater
      exact ⟨rfl, rfl⟩

private theorem next_of_ok {data : Bytes} {c : Cursor} {e : Element} {taken : UInt64}
    (hdata : data.length < UInt64.size) (hoffset : c.offset.toNat ≤ data.length)
    (h : Word.decode (data.drop c.offset.toNat) = .ok (e, taken))
    (htaken : c.offset.toNat + taken.toNat ≤ data.length) :
    c.next data = .ok ⟨c.offset + taken, c.elements ++ [e]⟩ := by
  rw [next, Word.suffix_of_le hoffset]
  change (Word.decode (data.drop c.offset.toNat) >>= _) = _
  rw [h]
  change (Word.add c.offset taken >>= _) = _
  rw [Word.add_of_lt (Nat.lt_of_le_of_lt htaken hdata)]
  rfl

private theorem next_of_error {data : Bytes} {c : Cursor} {stop : Stop}
    (hoffset : c.offset.toNat ≤ data.length)
    (h : Word.decode (data.drop c.offset.toNat) = .error stop) : c.next data = .error stop := by
  rw [next, Word.suffix_of_le hoffset]
  change (Word.decode (data.drop c.offset.toNat) >>= _) = _
  rw [h]
  rfl

/-- From wherever the loop stands it ends with what `decodeAll` makes of the data ahead. The number of its
rounds is at most half that of the octets ahead, and one more for what is refused. -/
theorem exists_runs {data : Bytes} (hdata : data.length < UInt64.size) (c : Cursor)
    (hoffset : c.offset.toNat ≤ data.length) :
    ∃ rounds, 2 * rounds ≤ data.length - c.offset.toNat + 2 ∧
      Runs data c rounds
        (((decodeAll (data.drop c.offset.toNat)).map (c.elements ++ ·)).mapError .refused) := by
  -- Each round leaves less of the data ahead.
  induction hahead : data.length - c.offset.toNat using Nat.strongRecOn generalizing c with
  | ind ahead ih =>
    by_cases hdone : c.offset.toNat < data.length
    · have hsize : (data.drop c.offset.toNat).length < UInt64.size := by
        rw [List.length_drop]
        omega
      cases hdecode : Element.decode (data.drop c.offset.toNat) with
      | error error =>
        have hall := decodeAll_of_error (List.ne_nil_of_length_pos (by rw [List.length_drop]; omega)) hdecode
        refine ⟨1, by omega, ?_⟩
        rw [hall]
        exact .stop hdone (next_of_error hoffset (Word.decode_of_error hdecode))
      | ok read =>
        obtain ⟨e, rest⟩ := read
        obtain ⟨taken, htwo, hle, rfl, hword⟩ := Word.exists_taken hdecode
        have htaken : (UInt64.ofNat taken).toNat = taken :=
          UInt64.toNat_ofNat_of_lt (Nat.lt_of_le_of_lt hle hsize)
        rw [List.length_drop] at hle
        have hsum : c.offset.toNat + (UInt64.ofNat taken).toNat ≤ data.length := by omega
        have hnext := next_of_ok hdata hoffset (hword hsize) hsum
        have hlater : (c.offset + UInt64.ofNat taken).toNat = c.offset.toNat + taken := by
          rw [Word.toNat_add_of_lt (Nat.lt_of_le_of_lt hsum hdata), htaken]
        obtain ⟨rounds, hrounds, hruns⟩ :=
          ih (data.length - (c.offset + UInt64.ofNat taken).toNat) (by omega)
            ⟨c.offset + UInt64.ofNat taken, c.elements ++ [e]⟩ (by rw [hlater]; omega) rfl
        refine ⟨rounds + 1, by omega, .round hdone hnext ?_⟩
        rw [decodeAll_of_decode hdecode, List.drop_drop, ← hlater]
        cases hall : decodeAll (data.drop (c.offset + UInt64.ofNat taken).toNat) with
        | error error =>
          rw [hall] at hruns
          exact hruns
        | ok elements =>
          have hsplit : c.elements ++ e :: elements = c.elements ++ [e] ++ elements := by simp
          rw [hall] at hruns
          change Runs data _ rounds (.ok (c.elements ++ e :: elements))
          rw [hsplit]
          exact hruns
    · have hnil : data.drop c.offset.toNat = [] := List.drop_of_length_le (by omega)
      refine ⟨0, by omega, ?_⟩
      rw [hnil, decodeAll]
      change Runs data c 0 (.ok (c.elements ++ []))
      rw [List.append_nil]
      exact .finish hdone

/-- The loop over all of some data ends in one way, with what `decodeAll` makes of it. -/
theorem runs_start_iff {data : Bytes} (hdata : data.length < UInt64.size) :
    ∃ rounds, 2 * rounds ≤ data.length + 2 ∧ ∀ rounds' result,
      Runs data start rounds' result ↔
        rounds' = rounds ∧ result = (decodeAll data).mapError .refused := by
  obtain ⟨rounds, hle, hruns⟩ := exists_runs hdata start (Nat.zero_le _)
  have hresult : (decodeAll data).map (start.elements ++ ·) = decodeAll data := by
    cases decodeAll data <;> rfl
  have hstart : data.drop start.offset.toNat = data := rfl
  rw [hstart, hresult] at hruns
  refine ⟨rounds, hle, fun rounds' result => ⟨hruns.unique, ?_⟩⟩
  rintro ⟨rfl, rfl⟩
  exact hruns

end Cursor

/-- Elements are read back, one in front of any data and sequences as a whole, and so is the number that an
element carries. What is read from any data takes from two octets up to all of them, also where they are
counted in words: reading stops at what is refused and at no overflow, and its loop ends. What was read in
whatever widths takes no more octets when it is written, and is read back. -/
theorem elements_readBack :
    (∀ elements : List Element, (∀ e ∈ elements, e.Fits) →
      decodeAll (encodeAll elements) = .ok elements) ∧
    (∀ (e : Element) (rest : Bytes), e.Fits →
      e.encode.length = e.encodedLength ∧
      Element.decode (e.encode ++ rest) = .ok (e, rest) ∧
      ((e.encode ++ rest).length < UInt64.size →
        Word.decode (e.encode ++ rest) = .ok (e, UInt64.ofNat e.encodedLength))) ∧
    (∀ type n : UInt64, (Element.ofInteger type n).integer = .ok n) ∧
    (∀ (data rest : Bytes) (e : Element), Element.decode data = .ok (e, rest) →
      ∃ taken : Nat, 2 ≤ taken ∧ taken ≤ data.length ∧ rest = data.drop taken ∧
        (data.length < UInt64.size → Word.decode data = .ok (e, UInt64.ofNat taken))) ∧
    (∀ data : Bytes, data.length < UInt64.size →
      (∀ stop, Word.decode data = .error stop ↔
        ∃ error, stop = .refused error ∧ Element.decode data = .error error) ∧
      ∃ rounds, 2 * rounds ≤ data.length + 2 ∧ ∀ rounds' result,
        Cursor.Runs data .start rounds' result ↔
          rounds' = rounds ∧ result = (decodeAll data).mapError .refused) ∧
    ∀ (data : Bytes) (elements : List Element), decodeAll data = .ok elements →
      (encodeAll elements).length ≤ data.length ∧ decodeAll (encodeAll elements) = .ok elements := by
  refine ⟨fun elements h => decodeAll_encodeAll h, ?_, Element.integer_ofInteger, ?_, ?_, ?_⟩
  · intro e rest he
    have hdecode := Element.decode_encode_append he rest
    refine ⟨e.length_encode, hdecode, fun hdata => ?_⟩
    obtain ⟨taken, -, hle, hrest, hword⟩ := Word.exists_taken hdecode
    -- What follows is as long as what is left behind the octets taken.
    have hlength := congrArg List.length hrest
    rw [List.length_drop, List.length_append, e.length_encode] at hlength
    rw [List.length_append, e.length_encode] at hle
    have htaken : taken = e.encodedLength := by omega
    rw [hword hdata, htaken]
  · intro data rest e
    exact Word.exists_taken
  · intro data hdata
    exact ⟨Word.decode_eq_error_iff hdata, Cursor.runs_start_iff hdata⟩
  · intro data elements h
    exact ⟨length_of_decodeAll h, decodeAll_encodeAll (fits_of_decodeAll h)⟩

/-- Types and lengths on both sides of each width are read back. A number in a greater width than it needs is
read as well and gets shorter; a length near the greatest word is refused. -/
theorem elements_readBack_widths :
    decodeAll (encodeAll [⟨252, List.replicate 252 1⟩, ⟨253, List.replicate 253 1⟩,
        ⟨0xFFFF, List.replicate 0xFFFF 1⟩, ⟨0x10000, List.replicate 0x10000 1⟩,
        ⟨0xFFFFFFFF, []⟩, ⟨0x100000000, []⟩]) =
      .ok [⟨252, List.replicate 252 1⟩, ⟨253, List.replicate 253 1⟩,
        ⟨0xFFFF, List.replicate 0xFFFF 1⟩, ⟨0x10000, List.replicate 0x10000 1⟩,
        ⟨0xFFFFFFFF, []⟩, ⟨0x100000000, []⟩] ∧
    Word.decode ([253, 1, 0, 2, 7, 8] ++ [5, 0]) = .ok (⟨256, [7, 8]⟩, 6) ∧
    (∃ elements, decodeAll [0xFD, 0, 1, 0xFE, 0, 0, 0, 1, 7] = .ok elements ∧
      (encodeAll elements).length < 9 ∧ decodeAll (encodeAll elements) = .ok elements) ∧
    Word.decode [1, 0xFF, 0xFF, 0xFF, 0xFF, 0xFF, 0xFF, 0xFF, 0xFF, 0xFF] =
      .error (.refused .tooShort) ∧
    ∃ rounds, rounds ≤ 6 ∧
      Cursor.Runs [1, 0xFF, 0xFF, 0xFF, 0xFF, 0xFF, 0xFF, 0xFF, 0xFF, 0xFF] .start rounds
        (.error (.refused .tooShort)) := by
  obtain ⟨hsequence, hone, -, -, hword, hagain⟩ := elements_readBack
  have hfits : ∀ e ∈ [⟨252, List.replicate 252 1⟩, ⟨253, List.replicate 253 1⟩,
      ⟨0xFFFF, List.replicate 0xFFFF 1⟩, ⟨0x10000, List.replicate 0x10000 1⟩,
      ⟨0xFFFFFFFF, []⟩, (⟨0x100000000, []⟩ : Element)], e.Fits := by
    simp only [List.forall_mem_cons, Element.Fits, List.length_replicate]
    decide
  have hread : Element.decode [0xFD, 0, 1, 0xFE, 0, 0, 0, 1, 7] = .ok (⟨1, [7]⟩, []) := rfl
  have hshort : decodeAll [0xFD, 0, 1, 0xFE, 0, 0, 0, 1, 7] = .ok [⟨1, [7]⟩] := by
    rw [decodeAll_of_decode hread, decodeAll]
    rfl
  obtain ⟨herror, rounds, hle, hruns⟩ :=
    hword [1, 0xFF, 0xFF, 0xFF, 0xFF, 0xFF, 0xFF, 0xFF, 0xFF, 0xFF] (by decide)
  have hrefused : Element.decode [1, 0xFF, 0xFF, 0xFF, 0xFF, 0xFF, 0xFF, 0xFF, 0xFF, 0xFF] =
      .error .tooShort := rfl
  refine ⟨hsequence _ hfits, ?_, ⟨_, hshort, by decide, (hagain _ _ hshort).2⟩, ?_, rounds, ?_, ?_⟩
  · exact (hone ⟨256, [7, 8]⟩ [5, 0] (by decide)).2.2 (by decide)
  · exact (herror _).mpr ⟨_, rfl, hrefused⟩
  · change 2 * rounds ≤ 12 at hle
    omega
  · refine (hruns _ _).mpr ⟨rfl, ?_⟩
    rw [decodeAll_of_error (by simp) hrefused]
    rfl

end NamedFunctions.Tlv
