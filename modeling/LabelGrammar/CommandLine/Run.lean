import LabelGrammar.CommandLine.Command
import LabelGrammar.Session.Editor
import LabelGrammar.Settings.Basic
import LabelGrammar.Yaml.Printer

/-! # Running commands

A command opens the saved session, does its work on it and saves it again. A command that fails
does not save.
-/

namespace LabelGrammar

inductive CommandError where
  | unreadable (path : String) (cause : DiskError)
  | grammar (cause : GrammarError)
  | table (cause : ImportError)
  | evaluation (cause : EvaluationError)
  deriving Repr

def CommandError.message : CommandError → String
  | .unreadable path cause => s!"could not read {path}: {cause.message}"
  | .grammar cause => cause.message
  | .table cause => cause.message
  | .evaluation cause => cause.message

def Rule.summary : Rule → String
  | .leaf (.string pattern typeName) => s!" s={Text.quote pattern} type_name={typeName}"
  | .leaf (.substring length typeName) => s!" length={length} type_name={typeName}"
  | .leaf (.rest typeName) => s!" type_name={typeName}"
  | .group _ => ""

def Block.summary (b : Block) : String :=
  s!"{b.kind.name} [{b.flavor.tag}] {b.id}{b.rule.summary}"

def Workspace.outline (w : Workspace) : String :=
  if w.isEmpty then "(empty workspace)\n"
  else String.join (w.preOrder.map fun (b, depth) => "".pushn ' ' (2 * depth) ++ b.summary ++ "\n")

def OutputFormat.render (format : OutputFormat) (results : List Tokenization) : String :=
  let v := Json.arr (results.map Tokenization.toJson)
  match format with
  | .json => v.pretty ++ "\n"
  | .yaml => v.yaml ++ "\n"

namespace Command

structure Context where
  settings : Settings
  readText : String → Except DiskError String
  /-- Candidates for new ids. -/
  offers : List NodeId

namespace Context

def read (c : Context) (path : String) : Except CommandError String :=
  (c.readText path).mapError (.unreadable path)

end Context

variable {σ : Type} [Store σ]

abbrev Printed := Except CommandError String

def loadFile (c : Context) (path : String) (e : Editor σ) : Printed × Editor σ :=
  match c.read path with
  | .error error => (.error error, e)
  | .ok text =>
    match e.loadGrammar text with
    | (.error error, e) => (.error (.grammar error), e)
    | (.ok root, e) => (.ok s!"loaded grammar rooted at {root}\n", e)

def importFile (c : Context) (path : String) (place : Option Attachment) (e : Editor σ) :
    Printed × Editor σ :=
  match do (Table.parse (← c.read path)).mapError CommandError.table with
  | .error error => (.error error, e)
  | .ok pairs =>
    match e.importPairs pairs place c.settings.childFlavor c.offers with
    | (.error error, e) => (.error (.table error), e)
    | (.ok id, e) => (.ok s!"imported {pairs.length} abbreviations as choice {id}\n", e)

def loadLabels (c : Context) (path : String) (e : Editor σ) : Printed × Editor σ :=
  match c.read path with
  | .error error => (.error error, e)
  | .ok text =>
    let corpus := Corpus.ofLines text
    (.ok s!"{corpus.labels.length} point labels\n", e.setCorpus corpus)

def evaluateHere (c : Context) (format : OutputFormat) (e : Editor σ) : Printed × Editor σ :=
  match e.evaluate .local c.settings.retryPolicy () with
  | (.ok results, e, _) => (.ok (format.render results), e)
  | (.error error, e, _) => (.error (.evaluation error), e)

def highlightText (id : NodeId) (e : Editor σ) : String :=
  match e.workspace.highlightBlock (some id) (fun text b => text ++ b.summary ++ "\n") "" with
  | (true, text) => text
  | (false, text) => text ++ s!"no block {id}\n"

def perform (c : Context) (command : Command) (e : Editor σ) : Printed × Editor σ :=
  match command with
  | .show => (.ok (e.workspace.outline ++ s!"{e.corpus.labels.length} point labels\n"), e)
  | .export mode =>
    match e.document mode with
    | .ok d => (.ok (d.toJson.pretty ++ "\n"), e)
    | .error error => (.error (.grammar error), e)
  | .load path => loadFile c path e
  | .importTable path place => importFile c path place e
  | .labels path => loadLabels c path e
  | .evaluate format => evaluateHere c format e
  | .highlight id => (.ok (highlightText id e), e)
  | .reset => (.ok "", e.reset)

/-- Runs a command on what a store holds. -/
def run (c : Context) (command : Command) (store : σ) : Printed × σ :=
  match command.perform c (.opened store) with
  | (.ok text, e) => (.ok text, e.close)
  | (.error error, e) => (.error error, e.store)

end Command

end LabelGrammar
