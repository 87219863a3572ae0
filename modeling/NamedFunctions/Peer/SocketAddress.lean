import NamedFunctions.Text.Numeral

/-!
# Socket addresses

An IPv4 or IPv6 address with a port, read from and shown in the usual notation: four decimal numbers
or up to eight hexadecimal groups, in brackets, of which the longest run of at least two zeros is
left out. An address that IPv6 maps to IPv4 ends in the notation of IPv4. The peers of
`nfn-relay/src/face:22–37` and the interfaces of `nfnd/src/config:26–32` have such addresses.
-/

namespace NamedFunctions

/-- Where a datagram socket is reached. -/
inductive SocketAddress where
  /-- Four octets and a port. -/
  | v4 (octets : List UInt8) (port : UInt16)
  /-- Eight groups of 16 bits, the number of a zone and a port. -/
  | v6 (groups : List UInt16) (zone : UInt32) (port : UInt16)
deriving DecidableEq, Repr

namespace SocketAddress

/-- Texts with a separator between each two. -/
private def separated (separator : String) (texts : List String) : String :=
  separator.intercalate texts

/-- Four octets in decimal, with dots between them. -/
def showOctets (octets : List UInt8) : String :=
  separated "." (octets.map fun b => toString b.toNat)

/-- Groups in hexadecimal, with colons between them. -/
def showGroups (groups : List UInt16) : String :=
  separated ":" (groups.map fun g => String.ofList (Nat.toDigits 16 g.toNat))

/-- The number of zeros at the start of a list. -/
private def leadingZeros (groups : List UInt16) : Nat := (groups.takeWhile (· == 0)).length

/-- Start and length of the first longest run of zeros. -/
def longestZeros : List UInt16 → Nat × Nat
  | [] => (0, 0)
  | g :: rest =>
    let (start, length) := longestZeros rest
    let here := leadingZeros (g :: rest)
    if here ≥ length ∧ here > 0 then (0, here) else (start + 1, length)

/-- Eight groups in the notation of IPv6. -/
def showV6 (groups : List UInt16) : String :=
  match groups with
  | [0, 0, 0, 0, 0, 0xFFFF, a, b] =>
    "::ffff:" ++ showOctets [(a / 256).toUInt8, a.toUInt8, (b / 256).toUInt8, b.toUInt8]
  | _ =>
    let (start, length) := longestZeros groups
    if length > 1 then
      showGroups (groups.take start) ++ "::" ++ showGroups (groups.drop (start + length))
    else showGroups groups

/-- An address as it is shown. -/
def toString : SocketAddress → String
  | v4 octets port => showOctets octets ++ ":" ++ ToString.toString port.toNat
  | v6 groups zone port =>
    "[" ++ showV6 groups ++ (if zone = 0 then "" else "%" ++ ToString.toString zone.toNat) ++ "]:" ++
      ToString.toString port.toNat

/-- The number below `bound` at the start of a text and what follows it. All digits that stand there
belong to it; they may not be more than `width`, if that is given. -/
def readNumber (base : Nat) (width : Option Nat) (leadingZero : Bool) (bound : Nat)
    (text : List Char) : Option (Nat × List Char) :=
  let digits := text.takeWhile (Text.isDigit base)
  let n := Text.ofDigits base digits
  if digits.isEmpty || width.any (· < digits.length) ||
      (!leadingZero && digits.head? == some '0' && digits.length > 1) || bound ≤ n then none
  else some (n, text.drop digits.length)

/-- What follows a character that has to stand at the start of a text. -/
def skipChar (c : Char) : List Char → Option (List Char)
  | d :: rest => if c = d then some rest else none
  | [] => none

/-- Four octets in the notation of IPv4 and what follows them. -/
def readOctets (text : List Char) : Option (List UInt8 × List Char) := do
  let octet := readNumber 10 (some 3) false 256
  let (a, text) ← octet text
  let (b, text) ← octet (← skipChar '.' text)
  let (c, text) ← octet (← skipChar '.' text)
  let (d, text) ← octet (← skipChar '.' text)
  return ([a, b, c, d].map UInt8.ofNat, text)

/-- Up to `limit` groups, with a colon in front of each but the first of the address, and what
follows them; the flag tells that the last two were written as IPv4, for which two must be left. -/
def readGroups : Nat → Bool → List Char → List UInt16 × Bool × List Char
  | 0, _, text => ([], false, text)
  | limit + 1, first, text =>
    let start := if first then some text else skipChar ':' text
    match if limit = 0 then none else start.bind readOctets with
    | some ([a, b, c, d], rest) =>
      ([a.toUInt16 * 256 + b.toUInt16, c.toUInt16 * 256 + d.toUInt16], true, rest)
    | _ =>
      match start.bind (readNumber 16 (some 4) true 0x10000) with
      | none => ([], false, text)
      | some (g, rest) =>
        let (groups, mapped, rest) := readGroups limit false rest
        (UInt16.ofNat g :: groups, mapped, rest)

/-- Eight groups in the notation of IPv6, where two colons stand for at least one zero group. -/
def readV6 (text : List Char) : Option (List UInt16 × List Char) :=
  let (front, mapped, rest) := readGroups 8 true text
  if front.length = 8 then some (front, rest)
  else if mapped then none
  else do
    let rest ← skipChar ':' (← skipChar ':' rest)
    let (back, _, rest) := readGroups (7 - front.length) true rest
    return (front ++ List.replicate (8 - front.length - back.length) 0 ++ back, rest)

/-- A colon and a port. -/
def readPort (text : List Char) : Option (Nat × List Char) := do
  readNumber 10 none true 0x10000 (← skipChar ':' text)

/-- An IPv4 address with a port. -/
def readSocketV4 (text : List Char) : Option (SocketAddress × List Char) := do
  let (octets, text) ← readOctets text
  let (port, text) ← readPort text
  return (v4 octets (UInt16.ofNat port), text)

/-- An IPv6 address in brackets, with a zone if there is one, and a port. -/
def readSocketV6 (text : List Char) : Option (SocketAddress × List Char) := do
  let (groups, text) ← readV6 (← skipChar '[' text)
  let (zone, text) := ((skipChar '%' text).bind (readNumber 10 none true 0x100000000)).getD (0, text)
  let (port, text) ← readPort (← skipChar ']' text)
  return (v6 groups (UInt32.ofNat zone) (UInt16.ofNat port), text)

/-- The address that a text spells. -/
def ofString? (text : String) : Option SocketAddress :=
  match (readSocketV4 text.toList).orElse fun _ => readSocketV6 text.toList with
  | some (address, []) => some address
  | _ => none

end SocketAddress

end NamedFunctions
