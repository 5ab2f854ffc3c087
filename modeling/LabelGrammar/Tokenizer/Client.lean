import LabelGrammar.Document.Decode
import LabelGrammar.Document.Encode
import LabelGrammar.Number.Limits
import LabelGrammar.Tokenizer.Match

/-! # Asking a tokenizer

A request holds a grammar without flavors and a batch of labels. Failures that may pass are
retried a bounded number of times with the same request; an answer must have one result for each
label.
-/

namespace LabelGrammar

structure EvaluationRequest where
  labels : List String
  grammar : Document
  deriving DecidableEq, Repr

namespace EvaluationRequest

/-- A request for labels. Flavors of the grammar are left out. -/
def make (grammar : Document) (labels : List String) : EvaluationRequest :=
  ⟨labels, grammar.withoutFlavors⟩

def toJson (r : EvaluationRequest) : Json :=
  .obj [("point_labels", .arr (r.labels.map .str)), ("parsers", r.grammar.toJson)]

end EvaluationRequest

/-- A single call of a tokenizer failed. -/
inductive TransportError where
  /-- Worth another try. -/
  | transient (reason : String)
  | rejected (reason : String)
  deriving DecidableEq, Repr

/-- A way to a tokenizer, which may have a state of its own. -/
abbrev Transport (σ : Type) := EvaluationRequest → σ → Except TransportError (List WireResult) × σ

inductive EvaluationError where
  | grammar (cause : GrammarError)
  | rejected (reason : String)
  | failed (attempts : Nat) (lastError : String)
  | misaligned (expected got : Nat)
  deriving Repr

def EvaluationError.message : EvaluationError → String
  | .grammar cause => cause.message
  | .rejected reason => s!"tokenizer rejected the batch: {reason}"
  | .failed attempts lastError => s!"evaluation failed after {attempts} attempts: {lastError}"
  | .misaligned expected got =>
    s!"tokenizer returned {got} results for {expected} point labels"

/-- The results for a batch of labels, or why there are none. -/
abbrev Outcome := Except EvaluationError (List Tokenization)

/-- How often failures that may pass are retried, and how long to wait before that. -/
structure RetryPolicy where
  maxRetries : Nat
  backoffMillis : Nat
  deriving DecidableEq, Repr

namespace RetryPolicy

def default : RetryPolicy := ⟨3, 250⟩

/-- The number of calls allowed. It is a number of 32 bits. -/
def attempts (p : RetryPolicy) : Nat := min (p.maxRetries + 1) Limits.maxNatural32

end RetryPolicy

/-- The results of an answer, if there is one for each label. -/
def align (request : EvaluationRequest) (results : List WireResult) : Outcome :=
  if results.length = request.labels.length then .ok (results.map WireResult.toTokenization)
  else .error (.misaligned request.labels.length results.length)

namespace Transport

variable {σ : Type}

/-- Calls the tokenizer until it gives an answer that is not transient, at most `left` times more
after the `made` calls so far. -/
def retry (t : Transport σ) (request : EvaluationRequest) :
    (left made : Nat) → (lastError : String) → σ → Outcome × σ
  | 0, made, lastError, s => (.error (.failed made lastError), s)
  | left + 1, made, _, s =>
    match t request s with
    | (.ok results, s) => (align request results, s)
    | (.error (.rejected reason), s) => (.error (.rejected reason), s)
    | (.error (.transient reason), s) => retry t request left (made + 1) reason s

def send (t : Transport σ) (policy : RetryPolicy) (request : EvaluationRequest) (s : σ) :
    Outcome × σ :=
  t.retry request policy.attempts 0 "" s

def evaluate (t : Transport σ) (policy : RetryPolicy) (grammar : Document) (labels : List String)
    (s : σ) : Outcome × σ :=
  if grammar.kind = .sequence then t.send policy (.make grammar labels) s
  else (.error (.grammar (.invalidRoot (some grammar.kind))), s)

def evaluateWorkspace (t : Transport σ) (policy : RetryPolicy) (w : Workspace)
    (labels : List String) (s : σ) : Outcome × σ :=
  match w.toDocument .external with
  | .ok grammar => t.send policy (.make grammar labels) s
  | .error e => (.error (.grammar e), s)

end Transport

/-- The tokenizer at hand: it reads the grammar of the request and matches every label. -/
def localTokenizer (request : EvaluationRequest) : Except TransportError (List WireResult) :=
  match Document.toTree request.grammar.toValue with
  | .ok t => .ok (request.labels.map t.evaluate)
  | .error e => .error (.rejected e.message)

def Transport.local : Transport Unit := fun request s => (localTokenizer request, s)

end LabelGrammar
