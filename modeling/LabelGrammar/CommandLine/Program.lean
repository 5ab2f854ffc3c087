import LabelGrammar.CommandLine.Run
import LabelGrammar.Store.Directory

/-! # The program

From arguments, environment and files to what is printed, the exit code and the files afterwards.
-/

namespace LabelGrammar.CommandLine

structure Exit where
  code : Nat
  output : String
  errors : String
  deriving DecidableEq, Repr

namespace Exit

def success (output : String) : Exit := ⟨0, output, ""⟩

def failure (message : String) : Exit := ⟨1, "", s!"Error: {message}\n"⟩

def ofStop : Stop → Exit
  | .usage error => ⟨2, "", s!"error: {error.message}\n\n{program.help}"⟩
  | .help none => success program.help
  | .help (some command) => success (command.help program)
  | .version => success s!"{program.name} {program.version}\n"

end Exit

def defaultConfig : String := "pointlabel.toml"

def layersOf (call : Invocation) : List Layer :=
  let file := match call.config with
    | some path => .file path true
    | none => .file defaultConfig false
  let store := call.store.map fun directory => .override "storage.directory" (.text directory)
  [file, .environment] ++ store.toList

def settingsOf? (call : Invocation) (environment : List (String × String)) (disk : Disk) :
    Option Settings :=
  Settings.load? disk environment (layersOf call)

def runWith (settings : Settings) (offers : List NodeId) (command : Command) (disk : Disk) :
    Exit × Disk :=
  let context : Command.Context := ⟨settings, disk.readText, offers⟩
  match command.run context (DirectoryStore.mk disk settings.directory) with
  | (.ok output, store) => (.success output, store.disk)
  | (.error error, store) => (.failure error.message, store.disk)

/-- Runs the program. New ids are drawn from the offers. -/
def run (arguments : List String) (environment : List (String × String)) (offers : List NodeId)
    (disk : Disk) : Exit × Disk :=
  match parse arguments with
  | .error stop => (.ofStop stop, disk)
  | .ok call =>
    match settingsOf? call environment disk with
    | none => (.failure "the settings are not valid", disk)
    | some settings => runWith settings offers call.command disk

end LabelGrammar.CommandLine
