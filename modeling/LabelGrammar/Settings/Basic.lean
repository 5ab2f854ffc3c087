import LabelGrammar.Disk
import LabelGrammar.Grammar.Kind
import LabelGrammar.Number.Limits
import LabelGrammar.Settings.Environment
import LabelGrammar.Settings.Path
import LabelGrammar.Tokenizer.Client
import LabelGrammar.Toml.Document

/-! # Settings

Settings come in layers, each over those before it: built-in defaults, files, the environment, and
overrides, which stand above everything else.
-/

namespace LabelGrammar

structure Settings where
  retryPolicy : RetryPolicy
  directory : String
  childFlavor : Flavor
  logLevel : String
  deriving DecidableEq, Repr

/-- Where settings come from. -/
inductive Layer where
  /-- A file, which may be missing unless it is required. -/
  | file (path : String) (required : Bool)
  | environment
  | override (key : String) (value : Setting)

namespace Settings

def defaults : String := "
[tokenizer]
max_retries = 3
retry_backoff_ms = 250

[storage]
directory = \".pointlabel\"

[import]
child_variant = \"string-url\"

[logging]
level = \"warn\"
"

/-- The path with the extension of a settings file, if it ends in a name. -/
def withExtension? (path : String) : Option String :=
  let parts := (Disk.Path.split path.toList).map String.ofList
  let parts := (parts.reverse.dropWhile fun part => part == "" || part == ".").reverse
  match parts.getLast? with
  | none | some ".." => none
  | some _ => some ("/".intercalate parts ++ ".toml")

/-- The text of the settings file at a path or, if no file is there, at the path with the extension
added. -/
def readFile? (disk : Disk) (path : String) : Option String :=
  match disk.read path with
  | .ok content => content.text?
  | .error _ => do (← (disk.read (← withExtension? path)).toOption).text?

/-- The entries of a layer below the overrides; nothing if it is faulty. -/
def sourceOf (disk : Disk) (environment : List (String × String)) :
    Layer → Option (List (String × Setting))
  | .file path required =>
    match readFile? disk path with
    | some text => Toml.parse? text
    | none => if required then none else some []
  | .environment => some (Environment.settings environment)
  | .override _ _ => some []

/-- The way that a key spells. One that spells none is a single step. -/
def wayOf (key : String) : List SettingStep := (SettingStep.parsePath? key).getD [.key key]

/-- Sets entries, each at the end of the way that its key spells. -/
def apply (root : Setting) (entries : List (String × Setting)) : Setting :=
  entries.foldl (fun root (key, v) => Setting.setAt v (wayOf key) root) root

def applyOverride (root : Setting) : Layer → Option Setting
  | .override key v => (SettingStep.parsePath? key).map fun way => Setting.setAt v way root
  | _ => some root

/-- The tree of all layers. -/
def merged? (disk : Disk) (environment : List (String × String)) (layers : List Layer) :
    Option Setting := do
  let builtIn ← Toml.parse? defaults
  let sources ← layers.mapM (sourceOf disk environment)
  layers.foldlM applyOverride ((builtIn :: sources).foldl apply (.table []))

/-- Reads the settings from a tree. Further entries are passed over. -/
def ofSetting? (root : Setting) : Option Settings := do
  let [tokenizer, storage, tables, logging] ←
    root.record? ["tokenizer", "storage", "import", "logging"] | none
  let [retries, backoff] ← tokenizer.record? ["max_retries", "retry_backoff_ms"] | none
  let [directory] ← storage.record? ["directory"] | none
  let [flavor] ← tables.record? ["child_variant"] | none
  let [level] ← logging.record? ["level"] | none
  return {
    retryPolicy := ⟨← retries.natural? Limits.maxNatural32, ← backoff.natural? Limits.maxNatural64⟩
    directory := ← directory.text?
    childFlavor := ⟨← flavor.text?⟩
    logLevel := ← level.text? }

/-- The settings that layers make over the defaults; nothing if one of them is faulty. -/
def load? (disk : Disk) (environment : List (String × String)) (layers : List Layer) :
    Option Settings := do
  ofSetting? (← merged? disk environment layers)

end Settings

end LabelGrammar
