import LabelGrammar.Json.Printer
import LabelGrammar.Workspace.Basic

/-! # Grammar documents

The JSON form of a grammar. A document for storage records the flavors that do not follow from
kind and position; a document for a tokenizer records none.
-/

namespace LabelGrammar

/-- A grammar in which flavors may be left out. -/
abbrev Document := Tree (Option Flavor)

/-- For whom a document is written: for storage with flavors, or for a tokenizer without. -/
inductive Mode where
  | internal
  | external
  deriving DecidableEq, Repr

/-- The flavor that a document records. At the root it is always recorded. -/
def recordedFlavor (mode : Mode) (atRoot : Bool) (kind : Kind) (flavor : Flavor) :
    Option Flavor :=
  match mode with
  | .external => none
  | .internal =>
    if atRoot then some flavor
    else if flavor = .default kind false then none
    else some flavor

namespace Document

mutual

def ofNode (mode : Mode) (atRoot : Bool) : Tree Flavor → Document
  | .leaf id flavor l => .leaf id (recordedFlavor mode atRoot l.kind flavor) l
  | .group id flavor shape children =>
    .group id (recordedFlavor mode atRoot shape.kind flavor) shape (ofNodes mode children)

def ofNodes (mode : Mode) : List (Tree Flavor) → List Document
  | [] => []
  | t :: ts => ofNode mode false t :: ofNodes mode ts

end

def ofTree (mode : Mode) (t : Tree Flavor) : Document := ofNode mode true t

def withoutFlavors (d : Document) : Document := d.map fun _ => none

def leafFields (id : NodeId) : Leaf → List (String × Json)
  | .string pattern typeName =>
    [("id", .str id), ("s", .str pattern), ("type_name", .str typeName)]
  | .rest typeName => [("id", .str id), ("type_name", .str typeName)]
  | .substring length typeName =>
    [("id", .str id), ("type_name", .str typeName), ("length", .int length)]

def node (kind : Kind) (flavor : Option Flavor) (args : List (String × Json)) : Json :=
  .obj <| ("parser", .str kind.name) ::
    (match flavor with
      | some flavor => [("uiParser", .str flavor.tag)]
      | none => []) ++ [("args", .obj args)]

mutual

def toJson : Document → Json
  | .leaf id flavor l => node l.kind flavor (leafFields id l)
  | .group id flavor shape children =>
    node shape.kind flavor [("id", .str id), ("parsers", .arr (toJsonAll children))]

def toJsonAll : List Document → List Json
  | [] => []
  | d :: ds => toJson d :: toJsonAll ds

end

def toValue (d : Document) : Json := d.toJson.sorted

theorem ofNodes_eq_map (mode : Mode) (ts : List (Tree Flavor)) :
    ofNodes mode ts = ts.map (ofNode mode false) := by
  induction ts with
  | nil => rfl
  | cons t ts ih => simp [ofNodes, ih]

theorem toJsonAll_eq_map (ds : List Document) : toJsonAll ds = ds.map toJson := by
  induction ds with
  | nil => rfl
  | cons d ds ih => simp [toJsonAll, ih]

end Document

end LabelGrammar
