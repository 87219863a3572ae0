import NamedFunctions.Bytes

/-!
# UTF-8

The encoding of text in octets, and its reading one octet at a time. Reading yields the characters
and, for each longest part of the input that starts a character but cannot go on, one gap. Text that
must be well formed has no gap; a lenient reader shows U+FFFD in the place of each.
-/

namespace NamedFunctions.Utf8

/-- The octets of a text. -/
def encode (text : List Char) : Bytes := text.flatMap String.utf8EncodeChar

/-- A character of which only the first octets have been read. -/
structure Partial where
  /-- How many octets are owed. -/
  owed : Nat
  /-- The least octet that may come next. -/
  low : UInt8 := 0x80
  /-- The greatest octet that may come next. -/
  high : UInt8 := 0xBF
  /-- The bits of the character read so far. -/
  bits : Nat
deriving Repr, DecidableEq

/-- What an octet means between two characters. -/
inductive Lead where
  /-- It is a whole character. -/
  | whole (c : Char)
  /-- It starts a character of several octets. -/
  | start (rest : Partial)
  /-- It starts nothing. -/
  | invalid
deriving Repr, DecidableEq

/-- The meaning of an octet between two characters. The narrowed ranges after E0, ED, F0 and F4
leave out overlong forms, surrogates and numbers beyond U+10FFFF. -/
def lead (b : UInt8) : Lead :=
  if b < 0x80 then .whole (Char.ofNat b.toNat)
  else if b < 0xC2 then .invalid
  else if b < 0xE0 then .start { owed := 1, bits := b.toNat % 32 }
  else if b = 0xE0 then .start { owed := 2, low := 0xA0, bits := 0 }
  else if b = 0xED then .start { owed := 2, high := 0x9F, bits := 13 }
  else if b < 0xF0 then .start { owed := 2, bits := b.toNat % 16 }
  else if b = 0xF0 then .start { owed := 3, low := 0x90, bits := 0 }
  else if b < 0xF4 then .start { owed := 3, bits := b.toNat % 8 }
  else if b = 0xF4 then .start { owed := 3, high := 0x8F, bits := 4 }
  else .invalid

/-- Read octets after those of a started character, if any: a character where one ends, and `none`
for each longest part that starts one and cannot go on. -/
def scan : Option Partial → Bytes → List (Option Char)
  | none, [] => []
  | some _, [] => [none]
  | none, b :: rest =>
    match lead b with
    | .whole c => some c :: scan none rest
    | .start p => scan (some p) rest
    | .invalid => none :: scan none rest
  | some p, b :: rest =>
    if p.low ≤ b ∧ b ≤ p.high then
      let bits := p.bits * 64 + b.toNat % 64
      if p.owed ≤ 1 then some (Char.ofNat bits) :: scan none rest
      else scan (some { owed := p.owed - 1, bits }) rest
    else
      match lead b with
      | .whole c => none :: some c :: scan none rest
      | .start q => none :: scan (some q) rest
      | .invalid => none :: none :: scan none rest

/-- The text that a byte string encodes, if it is well formed. `nfn-relay/src/computation/machine:240`. -/
def decode? (bytes : Bytes) : Option (List Char) := (scan none bytes).mapM id

/-- The text of a byte string, with U+FFFD for each part that is not well formed.
`nfn-core/src/name:189–193`. -/
def decodeLossy (bytes : Bytes) : List Char :=
  (scan none bytes).map fun c => c.getD '\uFFFD'

/-- A text without gaps is read the same way by both readers. -/
theorem decodeLossy_of_decode? {bytes : Bytes} {text : List Char} (h : decode? bytes = some text) :
    decodeLossy bytes = text := by
  unfold decode? at h
  unfold decodeLossy
  generalize scan none bytes = cs at h
  induction cs generalizing text with
  | nil => simpa using h
  | cons c cs ih =>
    cases c with
    | none => simp at h
    | some c =>
      simp only [List.mapM_cons, id, Option.pure_def, Option.bind_eq_bind, Option.bind_some,
        Option.bind_eq_some_iff, Option.some.injEq] at h
      obtain ⟨text', h', rfl⟩ := h
      simp [ih h']

end NamedFunctions.Utf8
