import LabelGrammar.Document.Fields
import LabelGrammar.Workspace.Basic

/-! # Errors of grammar documents

A document is malformed at a place, which is the way from the root down to a node.
-/

namespace LabelGrammar

/-- A place in a document: the child indices on the way to a node, and whether its arguments are
meant. -/
structure Place where
  indices : List Nat
  inArgs : Bool
  deriving DecidableEq, Repr

namespace Place

def root : Place := ⟨[], false⟩

def child (p : Place) (index : Nat) : Place := ⟨p.indices ++ [index], false⟩

def args (p : Place) : Place := { p with inArgs := true }

def render (p : Place) : String :=
  "$" ++ String.join (p.indices.map fun i => s!".args.parsers[{i}]") ++
    if p.inArgs then ".args" else ""

end Place

inductive Malformation where
  | notJson
  | notAnObject
  | unexpectedKey (key : String)
  | kindMissing
  | kindNotText
  | flavorNotText
  | argsMissing
  | args (cause : FieldError)
  deriving Repr

def Malformation.message : Malformation → String
  | .notJson => "invalid JSON"
  | .notAnObject => "expected a grammar object"
  | .unexpectedKey key => s!"unexpected key `{key}`"
  | .kindMissing => "missing field `parser`"
  | .kindNotText => "`parser` must be a string"
  | .flavorNotText => "`uiParser` must be a string"
  | .argsMissing => "missing field `args`"
  | .args cause => cause.message

/-- A document could not be read, or a workspace has no document. -/
inductive GrammarError where
  | malformed (place : Place) (cause : Malformation)
  | unknownKind (name : String)
  | invalidRoot (found : Option Kind)
  | invalid (cause : ValidationError)
  | workspace (cause : WorkspaceError)
  deriving Repr

def GrammarError.message : GrammarError → String
  | .malformed place cause => s!"malformed grammar at {place.render}: {cause.message}"
  | .unknownKind name => s!"unknown combinator `{name}`"
  | .invalidRoot (some kind) => s!"grammar root must be a sequence, found a {kind.name} node"
  | .invalidRoot none => "grammar root must be a sequence, found an empty workspace"
  | .invalid cause => cause.message
  | .workspace cause => cause.message

end LabelGrammar
