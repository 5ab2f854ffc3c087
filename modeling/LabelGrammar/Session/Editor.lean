import LabelGrammar.Session.Highlight
import LabelGrammar.Session.Numbering
import LabelGrammar.Session.Saved
import LabelGrammar.Session.Table
import LabelGrammar.Tokenizer.Client

/-! # Editor sessions

A session owns a workspace, a corpus, a store and the numbers of its requests. Every change that
went through is saved. The answer to a request is kept only if no later request was issued.
-/

namespace LabelGrammar

structure Editor (σ : Type) where
  workspace : Workspace
  corpus : Corpus
  store : σ
  numbering : Numbering
  /-- The result of the latest evaluation that was kept. -/
  outcome : Option Outcome

structure PendingEvaluation where
  number : RequestNumber
  request : EvaluationRequest

namespace Editor

variable {σ : Type} [Store σ]

def opened (store : σ) : Editor σ :=
  let saved := Saved.load store
  ⟨saved.workspace, saved.corpus, store, .new, none⟩

def save (e : Editor σ) : Editor σ :=
  { e with store := Saved.save ⟨e.workspace, e.corpus⟩ e.store }

/-- Runs an operation on the workspace and saves. If it fails the workspace goes back to where it
was. -/
def edit {ε α : Type} (action : Action ε α) (e : Editor σ) : Except ε α × Editor σ :=
  match action.run e.workspace with
  | (.ok a, w) => (.ok a, save { e with workspace := w })
  | (.error error, w) => (.error error, { e with workspace := w.rollBack e.workspace })

def setCorpus (corpus : Corpus) (e : Editor σ) : Editor σ := save { e with corpus }

/-- Replaces the workspace by the grammar of a text. A grammar that an empty workspace refuses
changes nothing. -/
def loadGrammar (text : String) (e : Editor σ) : Except GrammarError NodeId × Editor σ :=
  match Document.parse text with
  | .error error => (.error error, e)
  | .ok t =>
    match Workspace.ofTree t with
    | .error error => (.error (.workspace error), e)
    | .ok _ =>
      match (Workspace.insertTree t none).run e.workspace.clear with
      | (.error error, w) => (.error (.workspace error), { e with workspace := w })
      | (.ok id, w) => (.ok id, save { e with workspace := w })

def importPairs (pairs : List Pair) (place : Option Attachment) (flavor : Flavor)
    (offers : List NodeId) (e : Editor σ) : Except ImportError NodeId × Editor σ :=
  match (Workspace.importPairs pairs place flavor offers).run e.workspace with
  | (.error error, w) => (.error error, { e with workspace := w })
  | (.ok id, w) => (.ok id, save { e with workspace := w })

def reset (e : Editor σ) : Editor σ :=
  save { e with workspace := e.workspace.clear, corpus := .empty, outcome := none }

def close (e : Editor σ) : σ := e.save.store

def document (e : Editor σ) (mode : Mode) : Except GrammarError Document :=
  e.workspace.toDocument mode

/-- Issues a request for the grammar and the labels. A workspace without a sequence as its root
is refused before anything is saved or numbered. -/
def prepareEvaluation (e : Editor σ) : Except EvaluationError PendingEvaluation × Editor σ :=
  match e.workspace.toDocument .external with
  | .error error => (.error (.grammar error), e)
  | .ok grammar =>
    let e := e.save
    let (number, numbering) := e.numbering.issue
    (.ok ⟨number, .make grammar e.corpus.labels⟩, { e with numbering })

/-- Keeps the answer to a request, unless a later one was issued. Tells whether it was kept. -/
def applyEvaluation (number : RequestNumber) (outcome : Outcome) (e : Editor σ) :
    Bool × Editor σ :=
  if e.numbering.isCurrent number then (true, { e with outcome := some outcome })
  else (false, e)

/-- Evaluates the labels with the grammar and keeps the outcome. -/
def evaluate {τ : Type} (transport : Transport τ) (policy : RetryPolicy) (e : Editor σ) (s : τ) :
    Outcome × Editor σ × τ :=
  match e.prepareEvaluation with
  | (.error error, e) => (.error error, e, s)
  | (.ok pending, e) =>
    let (outcome, s) := transport.send policy pending.request s
    (outcome, (e.applyEvaluation pending.number outcome).2, s)

end Editor

end LabelGrammar
