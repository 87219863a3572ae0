import NamedFunctions.Document

/-!
# Tables of TOML

Tables as they grow from headers and assignments. A table is named in a header once; before that it
may have come about as part of the name of another. A table that dotted keys have made is not open
to headers, and one that a header has made is not open to dotted keys.
-/

namespace NamedFunctions.Toml

/-- How a table came about. -/
inductive Origin where
  /-- A header names it. -/
  | header
  /-- It is on the way to a table that a header names. -/
  | implied
  /-- It is on the way to a value that a dotted key names. -/
  | dotted
deriving DecidableEq, Repr

/-- What stands under a key. -/
inductive Item where
  | value (d : Document)
  | table (origin : Origin) (entries : List (String × Item))
  /-- The rows of an array of tables, the latest first. -/
  | rows (rows : List (List (String × Item)))

/-- What stands under the keys of a table. -/
abbrev Entries : Type := List (String × Item)

namespace Entries

/-- The entries with another item under a key. -/
def put (entries : Entries) (key : String) (item : Item) : Entries :=
  if entries.any (·.1 == key) then entries.map fun e => if e.1 == key then (key, item) else e
  else entries ++ [(key, item)]

/-- Assign a value to a dotted key, none of whose tables a header may have made. -/
def assign (d : Document) (key : String) : List String → Entries → Option Entries
  | [], entries =>
    if entries.any (·.1 == key) then none else some (entries.put key (.value d))
  | k :: path, entries =>
    match entries.lookup k with
    | none => (assign d key path []).map fun inner => entries.put k (.table .dotted inner)
    | some (.table .dotted inner) =>
      (assign d key path inner).map fun inner => entries.put k (.table .dotted inner)
    | some (.table .implied inner) =>
      if path.isEmpty then none
      else (assign d key path inner).map fun inner => entries.put k (.table .implied inner)
    | some (.rows (row :: rows)) =>
      if path.isEmpty then none
      else (assign d key path row).map fun row => entries.put k (.rows (row :: rows))
    | _ => none

/-- Change the table that a header leads to; in an array of tables that is the latest row. -/
def changeAt (change : Entries → Option Entries) : List String → Entries → Option Entries
  | [], entries => change entries
  | k :: path, entries =>
    match entries.lookup k with
    | none => (changeAt change path []).map fun inner => entries.put k (.table .implied inner)
    | some (.table origin inner) =>
      (changeAt change path inner).map fun inner => entries.put k (.table origin inner)
    | some (.rows (row :: rows)) =>
      (changeAt change path row).map fun row => entries.put k (.rows (row :: rows))
    | _ => none

/-- Open the table of a header. -/
def openTable (key : String) (entries : Entries) : Option Entries :=
  match entries.lookup key with
  | none => some (entries.put key (.table .header []))
  | some (.table .implied inner) => some (entries.put key (.table .header inner))
  | _ => none

/-- Add a row to the array of tables of a header. -/
def addRow (key : String) (entries : Entries) : Option Entries :=
  match entries.lookup key with
  | none => some (entries.put key (.rows [[]]))
  | some (.rows rows) => some (entries.put key (.rows ([] :: rows)))
  | _ => none

end Entries

mutual

/-- An item as a document. -/
def Item.toDocument : Item → Document
  | .value d => d
  | .table _ entries => .record (fieldsOf entries)
  | .rows rows => .list (rowsOf rows).reverse

/-- The fields of a table. -/
def fieldsOf : List (String × Item) → List (String × Document)
  | [] => []
  | (key, item) :: entries => (key, item.toDocument) :: fieldsOf entries

/-- The rows of an array of tables. -/
def rowsOf : List (List (String × Item)) → List Document
  | [] => []
  | row :: rows => .record (fieldsOf row) :: rowsOf rows

end

end NamedFunctions.Toml
