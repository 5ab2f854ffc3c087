import LabelGrammar.Text.Blank
import LabelGrammar.Text.Lines
import LabelGrammar.Workspace.Edit

/-! # Tables of abbreviations

A table has a pattern and a type name on each line, between commas. It becomes one choice block
with a string block for each row.
-/

namespace LabelGrammar

abbrev Pair := String × String

inductive ImportError where
  | malformedRow (line : Nat) (content : String)
  | invalid (cause : ValidationError)
  | workspace (cause : WorkspaceError)
  deriving DecidableEq, Repr

def ImportError.message : ImportError → String
  | .malformedRow line content =>
    s!"line {line}: expected `pattern,type_name`, got `{content}`"
  | .invalid cause => cause.message
  | .workspace cause => cause.message

namespace Table

/-- Reads a line: nothing if it is blank, else its first two cells. -/
def readLine (number : Nat) (line : List Char) : Except ImportError (Option Pair) :=
  let line := Text.dropEnd (· == '\r') line
  if (Text.trim line).isEmpty then .ok none
  else
    match Text.cells line with
    | pattern :: typeName :: _ =>
      .ok (some (String.ofList (Text.trim pattern), String.ofList (Text.trim typeName)))
    | _ => .error (.malformedRow number (String.ofList line))

def readLines : (number : Nat) → List (List Char) → Except ImportError (List Pair)
  | _, [] => .ok []
  | number, line :: lines => do
    let row ← readLine number line
    return row.toList ++ (← readLines (number + 1) lines)

/-- The rows of a table. Blank lines and further columns are passed over. -/
def parse (text : String) : Except ImportError (List Pair) :=
  readLines 1 (Text.lines text.toList)

end Table

namespace Workspace

/-- Makes a string node for each row, with fresh ids. Each draw uses up an offer. -/
def stringsOfPairs (flavor : Flavor) (offers : List NodeId) :
    List Pair → Action ImportError (List (Tree Flavor))
  | [] => return []
  | (pattern, typeName) :: pairs => do
    let l ← Action.check fun _ => (Leaf.makeString pattern typeName).mapError .invalid
    let id ← freshId offers
    return .leaf id flavor l :: (← stringsOfPairs flavor offers.tail pairs)

/-- Makes a choice with a string child for each row. The choice draws its id first. Nothing is
inserted. -/
def choiceOfPairs (pairs : List Pair) (flavor : Flavor) (offers : List NodeId) :
    Action ImportError (Tree Flavor) := do
  let id ← freshId offers
  let children ← stringsOfPairs flavor offers.tail pairs
  return .group id (.default .choice false) .choice children

/-- Inserts a choice with a string child for each row. -/
def importPairs (pairs : List Pair) (place : Option Attachment) (flavor : Flavor)
    (offers : List NodeId) : Action ImportError NodeId := do
  let t ← choiceOfPairs pairs flavor offers
  (insertTree t place).mapError .workspace

end Workspace

end LabelGrammar
