import LabelGrammar.Tokenizer.Result
import LabelGrammar.Workspace.Basic

/-! # Highlighting

A token leads back to the block that made it. A block that is gone is not highlighted.
-/

namespace LabelGrammar.Workspace

variable {σ : Type}

/-- Hands the block with the given id to a sink; tells whether there is one. -/
def highlightBlock (w : Workspace) (id : Option NodeId) (sink : σ → Block → σ) (s : σ) :
    Bool × σ :=
  match id.bind w.find? with
  | some b => (true, sink s b)
  | none => (false, s)

def highlightToken (w : Workspace) (token : Token) (sink : σ → Block → σ) (s : σ) : Bool × σ :=
  w.highlightBlock token.source sink s

end LabelGrammar.Workspace
