import LabelGrammar.CommandLine.Program
import LabelGrammar.Workspace.Draw

/-! # The executable

Copies the files that a call can touch onto a disk value, runs the program on it and carries out
the changes.
-/

namespace LabelGrammar.Executable

def pathOf (route : Route) : String := "/" ++ "/".intercalate route

def copyEntry (disk : Disk) (route : Route) : IO Disk := do
  let path := (← IO.currentDir) / pathOf route
  if ← path.isDir then return disk.put route .directory
  else if ← path.pathExists then
    try
      let bytes ← IO.FS.readBinFile path
      return disk.put route (.file (.ofBytes bytes.toList))
    catch _ => return disk
  else return disk

def copyWay (disk : Disk) (directory : Route) : List String → IO Disk
  | [] => return disk
  | name :: names => do
    if name == ".." then copyWay disk directory.dropLast names
    else
      let route := directory ++ [name]
      copyWay (← copyEntry disk route) route names

def copyPath (disk : Disk) (path : String) : IO Disk :=
  match Disk.Path.parse path with
  | .ok p => copyWay disk (disk.start p) p.names
  | .error _ => return disk

def settingsPaths (call : Invocation) : List String :=
  let path := call.config.getD CommandLine.defaultConfig
  path :: (Settings.withExtension? path).toList

def commandPaths : Command → List String
  | .load path | .importTable path _ | .labels path => [path]
  | .show | .export _ | .evaluate _ | .highlight _ | .reset => []

def sessionPaths (settings : Settings) : List String :=
  [Saved.stateKey, Saved.labelsKey].map fun key => Disk.join settings.directory (key ++ ".json")

def copyDisk (arguments : List String) (environment : List (String × String)) : IO Disk := do
  let here := (← IO.currentDir).toString
  let disk : Disk := ⟨(here.splitOn "/").filter (· != ""), []⟩
  match CommandLine.parse arguments with
  | .error _ => return disk
  | .ok call =>
    let disk ← (settingsPaths call).foldlM copyPath disk
    match CommandLine.settingsOf? call environment disk with
    | none => return disk
    | some settings => (commandPaths call.command ++ sessionPaths settings).foldlM copyPath disk

def writeEntry (route : Route) : Entry → IO Unit
  | .directory => IO.FS.createDirAll (pathOf route)
  | .file (.text s) => IO.FS.writeFile (pathOf route) s
  | .file (.bytes b) => IO.FS.writeBinFile (pathOf route) ⟨b.toArray⟩

/-- Carries out the changes between two disks. A change that fails is passed over. -/
def writeChanges (before after : Disk) : IO Unit := do
  for (route, e) in after.entries.reverse do
    if before.entryAt route != some e then
      try writeEntry route e catch _ => pure ()
  for (route, _) in before.entries do
    if (after.entryAt route).isNone then
      try IO.FS.removeFile (pathOf route) catch _ => pure ()

def variableOf (bytes : List UInt8) : Option (String × String) := do
  let cs := (← Text.decodeUtf8? bytes).toList
  return (String.ofList (cs.takeWhile (· != '=')), String.ofList ((cs.dropWhile (· != '=')).drop 1))

def processEnvironment : IO (List (String × String)) := do
  try
    let bytes ← IO.FS.readBinFile "/proc/self/environ"
    return (bytes.toList.splitOn 0).filterMap variableOf
  catch _ => return []

def randomId : IO NodeId := do
  let bytes ← IO.getRandomBytes 20
  return NodeId.ofNumber (bytes.toList.foldl (fun n b => n * 256 + b.toNat) 0 % idCount)

def offersFor (disk : Disk) : IO (List NodeId) := do
  let lineCount : Route × Entry → Nat
    | (_, .file (.text s)) => (Text.lines s.toList).length
    | _ => 0
  let count := disk.entries.foldl (fun n e => max n (lineCount e)) 0
  (List.range (count + 1)).mapM fun _ => randomId

def run (arguments : List String) : IO UInt32 := do
  let environment ← processEnvironment
  let disk ← copyDisk arguments environment
  let (exit, after) := CommandLine.run arguments environment (← offersFor disk) disk
  writeChanges disk after
  IO.print exit.output
  IO.eprint exit.errors
  return exit.code.toUInt32

end LabelGrammar.Executable

def main (arguments : List String) : IO UInt32 := LabelGrammar.Executable.run arguments
