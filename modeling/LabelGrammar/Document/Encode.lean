import LabelGrammar.Document.Basic
import LabelGrammar.Document.Error

/-! # Documents of a workspace -/

namespace LabelGrammar.Workspace

/-- The document of the root block. A tokenizer gets none whose root is not a sequence. -/
def toDocument (w : Workspace) (mode : Mode) : Except GrammarError Document := do
  match w.root? with
  | none => throw (.invalidRoot none)
  | some root =>
    if mode = .external && root.kind ≠ .sequence then throw (.invalidRoot (some root.kind))
    let t ← (w.snapshot root.id).mapError .workspace
    return .ofTree mode t

def toDocuments (w : Workspace) : Except GrammarError (List Document) :=
  w.topLevel.mapM fun id =>
    ((w.snapshot id).mapError GrammarError.workspace).map (Document.ofTree .internal)

end LabelGrammar.Workspace
