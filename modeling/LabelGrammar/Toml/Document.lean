import LabelGrammar.Toml.Value

/-! # Documents of TOML

A document is a sequence of lines: headers, which say to which table the following lines belong,
and assignments of values to keys.
-/

namespace LabelGrammar.Toml

inductive Statement where
  | table (path : List String)
  | row (path : List String)
  | assign (path : List String) (v : Entry)

def readHeader (close : List Char → Option (List Char)) (cs : List Char) :
    Option (List String × List Char) := do
  let (path, rest) ← readKey (skipBlanks cs)
  return (path, ← close (skipBlanks rest))

def readStatement (cs : List Char) : Option (Option Statement × List Char) :=
  match skipBlanks cs with
  | '[' :: '[' :: cs => do
    let (path, rest) ← readHeader (fun cs => do readMark ']' (← readMark ']' cs)) cs
    return (some (.row path), rest)
  | '[' :: cs => do
    let (path, rest) ← readHeader (readMark ']') cs
    return (some (.table path), rest)
  | [] => some (none, [])
  | c :: cs =>
    if c == '#' || (lineEnd? (c :: cs)).isSome then some (none, c :: cs)
    else do
      let ((path, v), rest) ← readAssignment readValue (c :: cs)
      return (some (.assign path v), rest)

def readStatements : Nat → List Char → Option (List Statement)
  | _, [] => some []
  | 0, _ :: _ => none
  | n + 1, cs => do
    let (statement, rest) ← readStatement cs
    let statements ← readStatements n (← finishLine rest)
    return statement.toList ++ statements

/-- The table of a document so far, and the header to which assignments belong. -/
structure Progress where
  entries : Entries
  current : List String

def Progress.step (p : Progress) : Statement → Option Progress
  | .table path => do
    let entries ← Entries.within (Entries.openTable (path.getLastD "")) path.dropLast p.entries
    return ⟨entries, path⟩
  | .row path => do
    let entries ← Entries.within (Entries.openRow (path.getLastD "")) path.dropLast p.entries
    return ⟨entries, path⟩
  | .assign path v => do
    return { p with entries := ← Entries.within (Entries.assign v true path) p.current p.entries }

/-- The entries of a document, which must be a table. A byte order mark may stand before it. -/
def parse? (text : String) : Option (List (String × Setting)) := do
  let cs := match text.toList with
    | '\uFEFF' :: cs => cs
    | cs => cs
  let statements ← readStatements cs.length cs
  let p ← statements.foldlM Progress.step ⟨[], []⟩
  match ← finishTable p.entries (finishEntries p.entries) with
  | .table entries => return entries
  | _ => none

end LabelGrammar.Toml
