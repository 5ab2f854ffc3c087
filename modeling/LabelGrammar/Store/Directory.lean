import LabelGrammar.Disk
import LabelGrammar.Store.Basic

/-! # A store in a directory

Each key has a file of its own. The directory is made when something is written first.
-/

namespace LabelGrammar

structure DirectoryStore where
  disk : Disk
  directory : String
  deriving Repr

namespace DirectoryStore

def path (s : DirectoryStore) (key : String) : String := Disk.join s.directory (key ++ ".json")

def get (s : DirectoryStore) (key : String) : Except StoreError (Option String) :=
  match s.disk.readText (s.path key) with
  | .ok text => .ok (some text)
  | .error .notFound => .ok none
  | .error _ => .error ⟨key⟩

def set (s : DirectoryStore) (key value : String) : Except StoreError Unit × DirectoryStore :=
  match s.disk.makeDirectory s.directory with
  | (.error _, disk) => (.error ⟨key⟩, { s with disk })
  | (.ok _, disk) =>
    match disk.write (s.path key) (.text value) with
    | .ok disk => (.ok (), { s with disk })
    | .error _ => (.error ⟨key⟩, { s with disk })

def remove (s : DirectoryStore) (key : String) : Except StoreError Unit × DirectoryStore :=
  match s.disk.remove (s.path key) with
  | .ok disk => (.ok (), { s with disk })
  | .error .notFound => (.ok (), s)
  | .error _ => (.error ⟨key⟩, s)

instance : Store DirectoryStore where
  get := get
  set := set
  remove := remove

end DirectoryStore

end LabelGrammar
