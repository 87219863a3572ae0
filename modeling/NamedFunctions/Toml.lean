import NamedFunctions.Toml.Table
import NamedFunctions.Toml.Word

/-!
# TOML

Reads the text of a configuration file, which `nfnd/src/config:71–83` loads: tables and arrays of tables
with their headers, dotted and quoted keys, strings, numbers, truth values, dates, arrays and tables in
a line. Arrays and tables in a line are refused if they stand in more than `depthLimit` others, and so
are keys with more parts than that.
-/

namespace NamedFunctions.Toml

/-- A dotted key. -/
def dottedKey (text : List Char) : Option (List String × List Char) := keys depthLimit text

mutual

/-- A value, in which arrays and tables may be nested in `levels` levels. The second number bounds
the steps; four for each character, and four, are enough. -/
def value : Nat → Nat → List Char → Option (Document × List Char)
  | _, 0, _ => none
  | levels, steps + 1, text =>
    match levels, text with
    | _, '"' :: rest => (quoted '"' rest).map fun (s, rest) => (.text s, rest)
    | _, '\'' :: rest => (quoted '\'' rest).map fun (s, rest) => (.text s, rest)
    | levels + 1, '[' :: rest =>
      (values levels steps (skipLines false rest)).map fun (ds, rest) => (.list ds, rest)
    | levels + 1, '\x7b' :: rest =>
      match skipSpace rest with
      | '\x7d' :: rest => some (.record [], rest)
      | rest =>
        (assignments levels steps [] rest).map fun (entries, rest) =>
          (.record (fieldsOf entries), rest)
    | _, text => bareValue text

/-- The values of an array up to its end. -/
def values : Nat → Nat → List Char → Option (List Document × List Char)
  | _, 0, _ => none
  | levels, steps + 1, text =>
    match text with
    | ']' :: rest => some ([], rest)
    | text => do
      let (d, text) ← value levels steps text
      match skipLines false text with
      | ',' :: rest =>
        let (ds, rest) ← values levels steps (skipLines false rest)
        return (d :: ds, rest)
      | ']' :: rest => return ([d], rest)
      | _ => none

/-- The assignments of a table in a line up to its end. -/
def assignments : Nat → Nat → Entries → List Char → Option (Entries × List Char)
  | _, 0, _, _ => none
  | levels, steps + 1, entries, text => do
    let (entries, text) ← assignment levels steps entries text
    match skipSpace text with
    | ',' :: rest => assignments levels steps entries rest
    | '\x7d' :: rest => return (entries, rest)
    | _ => none

/-- A dotted key, an equals sign and a value. -/
def assignment : Nat → Nat → Entries → List Char → Option (Entries × List Char)
  | _, 0, _, _ => none
  | levels, steps + 1, entries, text => do
    let (path, text) ← dottedKey text
    match skipSpace text with
    | '=' :: rest =>
      let (d, rest) ← value levels steps (skipSpace rest)
      let entries ← entries.assign d (path.getLastD "") path.dropLast
      return (entries, rest)
    | _ => none

end

/-- What has been read of a file: its tables, and the table that assignments go to. -/
structure Draft where
  entries : Entries := []
  current : List String := []

namespace Draft

/-- Read a line: a header, an assignment or nothing. -/
def line (draft : Draft) (text : List Char) : Option (Draft × List Char) :=
  match skipSpace text with
  | '[' :: '[' :: rest => do
    let (path, rest) ← dottedKey rest
    match rest with
    | ']' :: ']' :: rest =>
      let entries ← draft.entries.changeAt (Entries.addRow (path.getLastD "")) path.dropLast
      return (⟨entries, path⟩, ← endLine rest)
    | _ => none
  | '[' :: rest => do
    let (path, rest) ← dottedKey rest
    match rest with
    | ']' :: rest =>
      let entries ← draft.entries.changeAt (Entries.openTable (path.getLastD "")) path.dropLast
      return (⟨entries, path⟩, ← endLine rest)
    | _ => none
  | text =>
    match endLine text with
    | some rest => some (draft, rest)
    | none => do
      let (path, text) ← dottedKey text
      match skipSpace text with
      | '=' :: rest =>
        let (d, rest) ← value depthLimit (4 * rest.length + 4) (skipSpace rest)
        let assign := Entries.assign d (path.getLastD "") path.dropLast
        let entries ← draft.entries.changeAt assign draft.current
        return (⟨entries, draft.current⟩, ← endLine rest)
      | _ => none

/-- Read at most `limit` lines. -/
def lines : Nat → Draft → List Char → Option Draft
  | 0, _, _ => none
  | _ + 1, draft, [] => some draft
  | limit + 1, draft, text => do
    let (draft, rest) ← draft.line text
    lines limit draft rest

end Draft

/-- The document that a text in TOML spells. A mark of the byte order may stand at its start. -/
def parse (text : String) : Option Document :=
  let chars := match text.toList with
    | '\uFEFF' :: rest => rest
    | chars => chars
  (Draft.lines (chars.length + 1) {} chars).map fun draft => .record (fieldsOf draft.entries)

end NamedFunctions.Toml
