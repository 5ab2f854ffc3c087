import LabelGrammar.Settings.Value
import LabelGrammar.Toml.Date

/-! # Tables of TOML

How tables grow. A table with a header of its own is made once. A table that only headers of inner
tables or dotted keys made may grow further, but a dotted key puts a value only into a table that
dotted keys made. A table inside a value does not grow.

In a finished document, a table that starts with the key for dates is the date under it.
-/

namespace LabelGrammar.Toml

/-- What made a table. -/
inductive Origin where
  | header
  | innerHeader
  | dottedKey
  | braces
  deriving DecidableEq, Repr

inductive Entry where
  | plain (v : Setting)
  | date (text : String)
  | list (items : List Entry)
  | table (origin : Origin) (entries : List (String × Entry))
  /-- A list of tables, each with a header of its own. -/
  | rows (rows : List (List (String × Entry)))

abbrev Entries := List (String × Entry)

namespace Entries

def find? (key : String) : Entries → Option Entry
  | [] => none
  | (k, e) :: rest => if k = key then some e else find? key rest

def put (key : String) (entry : Entry) : Entries → Entries
  | [] => [(key, entry)]
  | (k, e) :: rest => if k = key then (key, entry) :: rest else (k, e) :: put key entry rest

def changeLast (f : Entries → Option Entries) : List Entries → Option (List Entries)
  | [] => none
  | [entries] => (f entries).map ([·])
  | entries :: more => (changeLast f more).map (entries :: ·)

/-- Changes the table at a path of headers, of which missing ones are made. -/
def within (f : Entries → Option Entries) : List String → Entries → Option Entries
  | [], entries => f entries
  | key :: path, entries =>
    match entries.find? key with
    | none => do return put key (.table .innerHeader (← within f path [])) entries
    | some (.table .braces _) => none
    | some (.table origin inner) => do
      return put key (.table origin (← within f path inner)) entries
    | some (.rows rows) => do
      return put key (.rows (← changeLast (within f path) rows)) entries
    | some _ => none

/-- Makes the table of a header. It goes to the end, also if headers of inner tables made it. -/
def openTable (key : String) (entries : Entries) : Option Entries :=
  match entries.find? key with
  | none => some (put key (.table .header []) entries)
  | some (.table .innerHeader inner) =>
    some (entries.filter (·.1 != key) ++ [(key, .table .header inner)])
  | some _ => none

def openRow (key : String) (entries : Entries) : Option Entries :=
  match entries.find? key with
  | none => some (put key (.rows [[]]) entries)
  | some (.rows rows) => some (put key (.rows (rows ++ [[]])) entries)
  | some _ => none

/-- Puts a value under a dotted key. The first argument tells whether the table that was reached
takes values. -/
def assign (v : Entry) : Bool → List String → Entries → Option Entries
  | _, [], _ => none
  | takes, [key], entries =>
    if takes && (entries.find? key).isNone then some (put key v entries) else none
  | _, key :: inner :: path, entries =>
    match entries.find? key with
    | none => do return put key (.table .dottedKey (← assign v true (inner :: path) [])) entries
    | some (.table .header _) | some (.table .braces _) => none
    | some (.table origin old) => do
      return put key (.table origin (← assign v (origin == .dottedKey) (inner :: path) old)) entries
    | some (.rows rows) => do
      return put key (.rows (← changeLast (assign v false (inner :: path)) rows)) entries
    | some _ => none

end Entries

def dateKey : String := "$__toml_private_datetime"

def Entry.date? : Entry → Option Setting
  | .plain (.text s) => (dateOfText? s).map .text
  | _ => none

/-- The table with finished entries, of which the first stands in `entries`. -/
def finishTable (entries : Entries) (settings : Option (List (String × Setting))) :
    Option Setting :=
  match entries with
  | (key, e) :: _ => if key = dateKey then e.date? else settings.map .table
  | [] => settings.map .table

mutual

/-- The value under a key of a finished document. -/
def Entry.finish? : Entry → Option Setting
  | .plain v => some v
  | .date text => some (.text text)
  | .list items => (finishItems items).map .list
  | .table _ entries => finishTable entries (finishEntries entries)
  | .rows rows => (finishRows rows).map .list

def finishItems : List Entry → Option (List Setting)
  | [] => some []
  | e :: rest => do return (← e.finish?) :: (← finishItems rest)

def finishEntries : List (String × Entry) → Option (List (String × Setting))
  | [] => some []
  | (key, e) :: rest => do return (key, ← e.finish?) :: (← finishEntries rest)

def finishRows : List (List (String × Entry)) → Option (List Setting)
  | [] => some []
  | entries :: rest => do
    return (← finishTable entries (finishEntries entries)) :: (← finishRows rest)

end

end LabelGrammar.Toml
