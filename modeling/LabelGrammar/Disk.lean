import LabelGrammar.Text.Utf8

/-! # Files

Files and directories below a working directory, and the actions on them that a session needs. A
path is relative to the working directory unless it starts with a slash.
-/

namespace LabelGrammar

/-- What a file holds: a text, or bytes that are not well-formed UTF-8. -/
inductive Content where
  | text (s : String)
  | bytes (b : List UInt8)
  deriving DecidableEq, Repr

namespace Content

def ofBytes (b : List UInt8) : Content :=
  match Text.decodeUtf8? b with
  | some s => .text s
  | none => .bytes b

def text? : Content → Option String
  | .text s => some s
  | .bytes _ => none

end Content

inductive Entry where
  | file (content : Content)
  | directory
  deriving DecidableEq, Repr

inductive DiskError where
  | notFound
  | notADirectory
  | isADirectory
  | nameTooLong
  | nulInName
  | notText
  deriving DecidableEq, Repr

def DiskError.message : DiskError → String
  | .notFound => "No such file or directory (os error 2)"
  | .notADirectory => "Not a directory (os error 20)"
  | .isADirectory => "Is a directory (os error 21)"
  | .nameTooLong => "File name too long (os error 36)"
  | .nulInName => "file name contained an unexpected NUL byte"
  | .notText => "stream did not contain valid UTF-8"

/-- The names on the way to a file or directory, from the root directory on. -/
abbrev Route := List String

structure Disk where
  working : Route
  entries : List (Route × Entry)
  deriving Repr

namespace Disk

def empty : Disk := ⟨["work"], []⟩

/-- What is found at a route. The working directory and those around it are always there. -/
def entryAt (d : Disk) (route : Route) : Option Entry :=
  if route.isPrefixOf d.working then some .directory
  else (d.entries.find? (·.1 == route)).map (·.2)

def put (d : Disk) (route : Route) (e : Entry) : Disk :=
  { d with entries := (route, e) :: d.entries.filter (·.1 != route) }

def drop (d : Disk) (route : Route) : Disk :=
  { d with entries := d.entries.filter (·.1 != route) }

def maxName : Nat := 255

def maxPath : Nat := 4095

structure Path where
  absolute : Bool
  names : List String
  trailing : Bool
  pointed : Bool

namespace Path

def split : List Char → List (List Char)
  | [] => [[]]
  | '/' :: cs => [] :: split cs
  | c :: cs =>
    match split cs with
    | [] => [[c]]
    | l :: ls => (c :: l) :: ls

/-- Cuts a path. Empty names and single points stand for nothing. -/
def parse (path : String) : Except DiskError Path :=
  if path.isEmpty then .error .notFound
  else if path.toList.contains '\x00' then .error .nulInName
  else if maxPath < path.utf8ByteSize then .error .nameTooLong
  else
    let parts := (split path.toList).map String.ofList
    .ok {
      absolute := path.startsWith "/"
      names := parts.filter fun name => name != "" && name != "."
      trailing := parts.getLast?.any fun name => name == "" || name == "." || name == ".."
      pointed := (parts.filter (· != "")).getLast? == some "." }

end Path

def enter (directory : Route) (name : String) : Except DiskError Route :=
  if name == ".." then .ok directory.dropLast
  else if maxName < name.utf8ByteSize then .error .nameTooLong
  else .ok (directory ++ [name])

/-- Follows names from a directory. All but the last must be directories. -/
def follow (d : Disk) (directory : Route) : List String → Except DiskError Route
  | [] => .ok directory
  | [name] => enter directory name
  | name :: names => do
    let route ← enter directory name
    match d.entryAt route with
    | some .directory => follow d route names
    | some (.file _) => throw .notADirectory
    | none => throw .notFound

def start (d : Disk) (path : Path) : Route := if path.absolute then [] else d.working

def locate (d : Disk) (path : String) : Except DiskError (Route × Option Entry) := do
  let path ← Path.parse path
  let route ← d.follow (d.start path) path.names
  match d.entryAt route with
  | some (.file _) => if path.trailing then throw .notADirectory
  | none => if path.trailing then throw .notFound
  | some .directory => pure ()
  return (route, d.entryAt route)

def read (d : Disk) (path : String) : Except DiskError Content := do
  match ← d.locate path with
  | (_, some (.file content)) => return content
  | (_, some .directory) => throw .isADirectory
  | (_, none) => throw .notFound

def readText (d : Disk) (path : String) : Except DiskError String := do
  match (← d.read path).text? with
  | some s => return s
  | none => throw .notText

def write (d : Disk) (path : String) (content : Content) : Except DiskError Disk := do
  match ← d.locate path with
  | (_, some .directory) => throw .isADirectory
  | (route, _) => return d.put route (.file content)

def remove (d : Disk) (path : String) : Except DiskError Disk := do
  match ← d.locate path with
  | (route, some (.file _)) => return d.drop route
  | (_, some .directory) => throw .isADirectory
  | (_, none) => throw .notFound

/-- Makes the directories with the given names, one inside the other. Those that were made before
a failure stay. -/
def makeDirectories (d : Disk) (directory : Route) : List String → Except DiskError Unit × Disk
  | [] => (.ok (), d)
  | name :: names =>
    match enter directory name with
    | .error e => (.error e, d)
    | .ok route =>
      match d.entryAt route with
      | some .directory => makeDirectories d route names
      | some (.file _) => (.error .notADirectory, d)
      | none => makeDirectories (d.put route .directory) route names

/-- Makes a directory and those around it, as far as they are missing. The empty path names the
working directory. A single point at the end names a directory that must be there, so only those
around that are made. -/
def makeDirectory (d : Disk) (path : String) : Except DiskError Unit × Disk :=
  if path.isEmpty then (.ok (), d)
  else
    match Path.parse path with
    | .error e => (.error e, d)
    | .ok parsed =>
      if parsed.pointed then
        match d.makeDirectories (d.start parsed) parsed.names.dropLast with
        | (.ok (), d) => ((d.locate path).map fun _ => (), d)
        | failed => failed
      else d.makeDirectories (d.start parsed) parsed.names

/-- The path of a name inside a directory. An absolute name stands alone. -/
def join (directory name : String) : String :=
  if name.startsWith "/" || directory.isEmpty then name
  else if directory.endsWith "/" then directory ++ name
  else directory ++ "/" ++ name

end Disk

end LabelGrammar
