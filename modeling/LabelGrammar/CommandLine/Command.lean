import LabelGrammar.CommandLine.Arguments
import LabelGrammar.Document.Basic
import LabelGrammar.Number.Digits
import LabelGrammar.Number.Limits
import LabelGrammar.Workspace.Attachment

/-! # Commands

What the program can be asked to do, and how that is written as arguments.
-/

namespace LabelGrammar

inductive OutputFormat where
  | json
  | yaml
  deriving DecidableEq, Repr

inductive Command where
  | show
  | export (mode : Mode)
  | load (path : String)
  | importTable (path : String) (place : Option Attachment)
  | labels (path : String)
  | evaluate (format : OutputFormat)
  | highlight (id : NodeId)
  | reset
  deriving DecidableEq, Repr

structure Invocation where
  config : Option String
  store : Option String
  command : Command
  deriving DecidableEq, Repr

namespace CommandLine

def anyValue : OptionType := .value fun _ => true

def index? (s : String) : Option Nat := (Digits.natural? s.toList).filter (· ≤ Limits.maxNatural64)

def program : ProgramSpec where
  name := "pointlabel"
  version := "0.1.0"
  about := "Build and test point-label grammars"
  options := [
    ⟨"store", none, anyValue, "Directory holding the saved editor state"⟩,
    ⟨"config", none, anyValue, "Configuration file layered over the defaults"⟩]
  commands := [
    ⟨"show", "Print the workspace tree and corpus size", none, []⟩,
    ⟨"export", "Print the grammar as canonical JSON", none,
      [⟨"external", none, .flag, "Emit the tokenizer form, without block flavors"⟩]⟩,
    ⟨"load", "Replace the workspace with a grammar file",
      some ("path", "Canonical grammar JSON"), []⟩,
    ⟨"import", "Import a pattern,type_name table as a choice block",
      some ("path", "Two-column table, one abbreviation per line"),
      [⟨"parent", none, anyValue, "Container to attach the choice to"⟩,
        ⟨"index", none, .value fun s => (index? s).isSome,
          "Child slot within the parent (default: append)"⟩]⟩,
    ⟨"labels", "Replace the test corpus", some ("path", "Point labels, one per line"), []⟩,
    ⟨"evaluate", "Tokenize the corpus with the current grammar", none,
      [⟨"format", some 'f', .value ["json", "yaml"].contains, "Output format"⟩]⟩,
    ⟨"highlight", "Show the block with the given id", some ("id", "Block id"), []⟩,
    ⟨"reset", "Forget grammar, corpus and results", none, []⟩]

def operandOf (r : Reading) (name : String) : Except UsageError String :=
  match r.operand with
  | some operand => .ok operand
  | none => .error (.missingOperand name)

/-- The place for an imported table. An index needs a parent. -/
def placeOf (r : Reading) : Except UsageError (Option Attachment) :=
  match r.value? "parent", (r.value? "index").bind index? with
  | some parent, index => .ok (some ⟨parent, index⟩)
  | none, some _ => .error (.missingOption "parent")
  | none, none => .ok none

def commandOf (r : Reading) : Except UsageError Command := do
  match r.command.map CommandSpec.name with
  | some "show" => return .show
  | some "export" => return .export (if (r.value? "external").isSome then .external else .internal)
  | some "load" => return .load (← operandOf r "path")
  | some "import" => return .importTable (← operandOf r "path") (← placeOf r)
  | some "labels" => return .labels (← operandOf r "path")
  | some "evaluate" => return .evaluate (if r.value? "format" == some "yaml" then .yaml else .json)
  | some "highlight" => return .highlight (← operandOf r "id")
  | some "reset" => return .reset
  | some name => throw (.unknownCommand name)
  | none => throw .missingCommand

def parse (arguments : List String) : Except Stop Invocation := do
  let r ← Reading.readAll program .start arguments
  let command ← (commandOf r).mapError .usage
  return ⟨r.value? "config", r.value? "store", command⟩

end CommandLine

end LabelGrammar
