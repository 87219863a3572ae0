/-!
# Documents

Values as configuration files and management messages hold them, and how parts of them are read. A
record may also be given as the list of its fields in their order. A choice among alternatives is a
word, a record with that word as its only field, or a record in which one field holds the word. What
else passes for a record or a choice depends on the dialect. Such are the settings of
`nfnd/src/config:14–68` and the commands of `nfn-relay/src/management:11–59`.
-/

namespace NamedFunctions

/-- A value of a structured text. -/
inductive Document where
  | null
  | bool (b : Bool)
  | int (n : Int)
  /-- A number that is not written as an integer, as it is written. -/
  | decimal (digits : String)
  | text (s : String)
  | list (items : List Document)
  /-- No two fields have the same name. -/
  | record (fields : List (String × Document))
deriving Repr, Inhabited

/-- What a document is written in, which decides how freely it can be spelled. -/
inductive Dialect where
  | json
  | toml
  /-- In either, the rest of a record in which one field holds the word of a choice. -/
  | tagged
deriving DecidableEq, Repr

namespace Dialect

/-- Whether the list of the fields of a record may go on after the last of them. -/
def allowsSurplus : Dialect → Bool
  | toml => true
  | json | tagged => false

/-- Whether a document may stand beside the word of a choice that nothing comes with. -/
def isBlank : Dialect → Document → Bool
  | json, .null => true
  | toml, .list [] | toml, .record [] => true
  | tagged, .null | tagged, .record [] => true
  | _, _ => false

end Dialect

/-- Types whose values have a form as documents. -/
class DocumentForm (α : Type) where
  toDocument : α → Document
  ofDocument? : Dialect → Document → Option α

export DocumentForm (toDocument ofDocument?)

namespace Document

/-- The number in a document, if it is below a bound. -/
def natBelow (bound : Nat) : Document → Option Nat
  | int n => if 0 ≤ n ∧ n.toNat < bound then some n.toNat else none
  | _ => none

/-- A truth value stands for itself. -/
instance : DocumentForm Bool where
  toDocument := bool
  ofDocument? | _, bool b => some b | _, _ => none

/-- A string stands for itself. -/
instance : DocumentForm String where
  toDocument := text
  ofDocument? | _, text s => some s | _, _ => none

/-- Counts have 64 bits. -/
instance : DocumentForm Nat where
  toDocument n := int n
  ofDocument? _ := natBelow UInt64.size

/-- A number of 32 bits is a number in its range. -/
instance : DocumentForm UInt32 where
  toDocument n := int n.toNat
  ofDocument? _ d := (natBelow UInt32.size d).map UInt32.ofNat

/-- An octet is a number in its range. -/
instance : DocumentForm UInt8 where
  toDocument n := int n.toNat
  ofDocument? _ d := (natBelow UInt8.size d).map UInt8.ofNat

instance {α : Type} [DocumentForm α] : DocumentForm (Option α) where
  toDocument a := a.elim null toDocument
  ofDocument?
    | _, null => some none
    | dialect, d => (ofDocument? dialect d).map some

instance {α : Type} [DocumentForm α] : DocumentForm (List α) where
  toDocument as := list (as.map toDocument)
  ofDocument?
    | dialect, list items => items.mapM (ofDocument? dialect)
    | _, _ => none

/-- The fields of a record that can still be read. -/
inductive Fields where
  /-- By name, in any order. -/
  | named (fields : List (String × Document))
  /-- By place. -/
  | placed (items : List Document)

/-- The field that comes next, if it is given. -/
def Fields.next (key : String) : Fields → Option Document × Fields
  | named fields => (fields.lookup key, named fields)
  | placed [] => (none, placed [])
  | placed (d :: items) => (some d, placed items)

/-- What reads fields of a record in a dialect. -/
abbrev RecordReader : Type → Type := ReaderT Dialect (StateT Fields Option)

/-- Read the field that comes next; `missing` stands for one that is not given. -/
def fieldOr {α : Type} [DocumentForm α] (key : String) (missing : Option α) : RecordReader α :=
  fun dialect fields =>
    match fields.next key with
    | (some d, rest) => (ofDocument? dialect d).map (·, rest)
    | (none, rest) => missing.map (·, rest)

/-- Read a field that has to be given. -/
def field {α : Type} [DocumentForm α] (key : String) : RecordReader α := fieldOr key none

/-- Read a field that may be left out, which then has a default. -/
def fieldD {α : Type} [DocumentForm α] (key : String) (default : α) : RecordReader α :=
  fieldOr key (some default)

/-- Read a field that may be left out of a record with named fields. -/
def field? {α : Type} [DocumentForm α] (key : String) : RecordReader (Option α) :=
  fun dialect fields =>
    match fields with
    | .named _ => fieldD key none dialect fields
    | .placed _ => field key dialect fields

/-- Read a record. Fields by name that nothing is known of make no difference. -/
def readRecord {α : Type} (reader : RecordReader α) (dialect : Dialect) : Document → Option α
  | record fields => (reader dialect (.named fields)).map (·.1)
  | list items =>
    match reader dialect (.placed items) with
    | some (a, .placed rest) => if rest.isEmpty || dialect.allowsSurplus then some a else none
    | _ => none
  | _ => none

/-- Read the rest of a record in which one field holds the word of a choice. -/
def readTagged {α : Type} (reader : RecordReader α) : Document → Option α :=
  readRecord reader .tagged

/-- Whether all fields that are given by name are among `keys`. -/
def hasOnly (keys : List String) : Document → Bool
  | record fields => fields.all fun (key, _) => keys.contains key
  | _ => true

/-- The word of a choice and what comes with it. -/
def choice? : Document → Option (String × Option Document)
  | text word => some (word, none)
  | record [(word, d)] => some (word, some d)
  | _ => none

/-- The word of a choice that nothing comes with. -/
def word? (dialect : Dialect) (d : Document) : Option String :=
  match choice? d with
  | some (word, content) => if content.all dialect.isBlank then some word else none
  | none => none

/-- The word of a choice that a field holds, and the record of the other fields. -/
def taggedChoice? (key : String) : Document → Option (String × Document)
  | record fields =>
    match fields.lookup key with
    | some (text word) => some (word, record (fields.filter (·.1 != key)))
    | _ => none
  | list (text word :: items) => some (word, list items)
  | _ => none

/-- A choice that something comes with. -/
def ofChoice {α : Type} [DocumentForm α] (word : String) (a : α) : Document :=
  record [(word, toDocument a)]

/-- A choice of which a field holds the word. -/
def ofTagged (key word : String) (fields : List (String × Document)) : Document :=
  record ((key, text word) :: fields)

end Document

end NamedFunctions
