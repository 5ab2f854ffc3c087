import LabelGrammar.Document.Fields
import LabelGrammar.Json.Reader
import LabelGrammar.Text.Blank
import LabelGrammar.Text.Lines

/-! # The test corpus

The point labels that a grammar is tried on, in order.
-/

namespace LabelGrammar

structure Corpus where
  labels : List String
  deriving DecidableEq, Repr

namespace Corpus

def empty : Corpus := ⟨[]⟩

/-- One label for each line that is not blank, without the blanks around it. -/
def ofLines (text : String) : Corpus :=
  ⟨(((Text.lines text.toList).map Text.trim).filter (! ·.isEmpty)).map String.ofList⟩

def toJson (c : Corpus) : Json := .arr (c.labels.map .str)

def parse? (text : String) : Option Corpus := do
  let v ← Json.parse? text
  match Json.texts v with
  | .ok labels => some ⟨labels⟩
  | .error _ => none

end Corpus

end LabelGrammar
