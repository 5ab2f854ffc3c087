import LabelGrammar.Document.Decode
import LabelGrammar.Document.Encode
import LabelGrammar.Session.Corpus
import LabelGrammar.Store.Basic
import LabelGrammar.Workspace.Edit

/-! # Saved sessions

A session is kept under two keys. One holds the documents of the blocks: nothing for no block, an
object for one, an array for several. The other holds the labels. Saving goes on after a failed
write, and what cannot be read counts as nothing.
-/

namespace LabelGrammar

structure Saved where
  workspace : Workspace
  corpus : Corpus
  deriving Repr

namespace Saved

def stateKey : String := "state"

def labelsKey : String := "pointLabels"

/-- The text for documents; none if there are none. -/
def stateText : List Document → Option String
  | [] => none
  | [d] => some d.toJson.compact
  | ds => some (Json.arr (ds.map Document.toJson)).compact

/-- The documents that a value holds: its items, or itself. -/
def blocksOf : Json → List Json
  | .arr items => items
  | v => [v]

def insertBlock (w : Workspace) (v : Json) : Except GrammarError Workspace := do
  let t ← Document.toTree v
  match (Workspace.insertTree t none).run w with
  | (.ok _, w) => return w
  | (.error e, _) => throw (.workspace e)

def parseState (text : String) : Except GrammarError Workspace :=
  match Json.parse? text with
  | some v => (blocksOf v).foldlM insertBlock .empty
  | none => .error (.malformed .root .notJson)

variable {σ : Type} [Store σ]

def saveWorkspace (w : Workspace) (s : σ) : σ :=
  match w.toDocuments with
  | .error _ => s
  | .ok documents =>
    match stateText documents with
    | none => (Store.remove s stateKey).2
    | some text => (Store.set s stateKey text).2

def saveCorpus (corpus : Corpus) (s : σ) : σ :=
  (Store.set s labelsKey corpus.toJson.compact).2

def save (saved : Saved) (s : σ) : σ :=
  saveCorpus saved.corpus (saveWorkspace saved.workspace s)

def readText? (s : σ) (key : String) : Option String :=
  match Store.get s key with
  | .ok text => text
  | .error _ => none

/-- The saved workspace; an empty one if it cannot be read. -/
def loadWorkspace (s : σ) : Workspace :=
  match readText? s stateKey with
  | none => .empty
  | some text =>
    match parseState text with
    | .ok w => w
    | .error _ => .empty

/-- The saved labels; none if they cannot be read. -/
def loadCorpus (s : σ) : Corpus := ((readText? s labelsKey).bind Corpus.parse?).getD .empty

def load (s : σ) : Saved := ⟨loadWorkspace s, loadCorpus s⟩

end Saved

end LabelGrammar
