import LabelGrammar.Document.Error
import LabelGrammar.Json.Reader

/-! # Reading grammar documents

Only the canonical shape is accepted. The first problem in pre-order is reported; at one node the
keys are looked at first, then the kind, the flavor, the arguments and at last the rules for them.
-/

namespace LabelGrammar

namespace Document

def stringArgs : RecordType :=
  ⟨"StringArgs", [.required "id" Json.text, .required "s" Json.text,
    .required "type_name" Json.text], true⟩

def restArgs : RecordType :=
  ⟨"RestArgs", [.required "id" Json.text, .required "type_name" Json.text], true⟩

def substringArgs : RecordType :=
  ⟨"SubstringArgs", [.required "id" Json.text, .required "length" Json.integer,
    .required "type_name" Json.text], true⟩

def containerArgs : RecordType :=
  ⟨"ContainerArgs", [.required "id" Json.text, .required "parsers" Json.list], true⟩

/-- The arguments of a node: its id, and its leaf if it is one. The fields of a leaf are not yet
checked against its rules. -/
inductive Args where
  | string (id : NodeId) (pattern typeName : String)
  | rest (id : NodeId) (typeName : String)
  | substring (id : NodeId) (length : Int) (typeName : String)
  | group (id : NodeId) (shape : Shape)
  deriving Repr

def readArgs (kind : Kind) (v : Json) : Except FieldError Args := do
  match kind with
  | .string =>
    let m ← stringArgs.members v
    return .string (← readField m "id" Json.text) (← readField m "s" Json.text)
      (← readField m "type_name" Json.text)
  | .rest =>
    let m ← restArgs.members v
    return .rest (← readField m "id" Json.text) (← readField m "type_name" Json.text)
  | .substring =>
    let m ← substringArgs.members v
    return .substring (← readField m "id" Json.text) (← readField m "length" Json.integer)
      (← readField m "type_name" Json.text)
  | .sequence =>
    let m ← containerArgs.members v
    return .group (← readField m "id" Json.text) .sequence
  | .choice =>
    let m ← containerArgs.members v
    return .group (← readField m "id" Json.text) .choice

/-- What a node states apart from its arguments. -/
structure Header where
  kind : Kind
  flavor : Flavor
  args : Json

def checkKeys (place : Place) (members : List (String × Json)) : Except GrammarError Unit :=
  match members.find? fun (key, _) => key != "parser" && key != "args" && key != "uiParser" with
  | some (key, _) => .error (.malformed place (.unexpectedKey key))
  | none => .ok ()

def readKind (place : Place) (members : List (String × Json)) : Except GrammarError Kind :=
  match Json.member? "parser" members with
  | some (.str name) =>
    match Kind.ofName? name with
    | some kind => .ok kind
    | none => .error (.unknownKind name)
  | some _ => .error (.malformed place .kindNotText)
  | none => .error (.malformed place .kindMissing)

def readFlavor (place : Place) (members : List (String × Json)) :
    Except GrammarError (Option Flavor) :=
  match Json.member? "uiParser" members with
  | some (.str tag) => .ok (some ⟨tag⟩)
  | some _ => .error (.malformed place .flavorNotText)
  | none => .ok none

/-- The flavor of a node at its position. A sequence has that of the position whatever is
recorded. -/
def flavorAt (atRoot : Bool) (kind : Kind) (recorded : Option Flavor) : Flavor :=
  match kind, recorded with
  | .sequence, _ | _, none => .default kind atRoot
  | _, some flavor => flavor

def readHeader (place : Place) (atRoot : Bool) (members : List (String × Json)) :
    Except GrammarError Header := do
  checkKeys place members
  let kind ← readKind place members
  let recorded ← readFlavor place members
  let flavor ← (checkFlavor (flavorAt atRoot kind recorded) kind).mapError .invalid
  match Json.member? "args" members with
  | some args => return ⟨kind, flavor, args⟩
  | none => throw (.malformed place .argsMissing)

mutual

def readNode (place : Place) (atRoot : Bool) : Json → Except GrammarError (Tree Flavor)
  | .obj members => do
    let header ← readHeader place atRoot members
    match ← (readArgs header.kind header.args).mapError fun e =>
        .malformed place.args (.args e) with
    | .string id pattern typeName =>
      return .leaf id header.flavor (← (Leaf.makeString pattern typeName).mapError .invalid)
    | .rest id typeName =>
      return .leaf id header.flavor (← (Leaf.makeRest typeName).mapError .invalid)
    | .substring id length typeName =>
      return .leaf id header.flavor (← (Leaf.makeSubstring length typeName).mapError .invalid)
    | .group id shape => return .group id header.flavor shape (← readChildren place members)
  | _ => .error (.malformed place .notAnObject)

def readChildren (place : Place) : List (String × Json) → Except GrammarError (List (Tree Flavor))
  | [] => .ok []
  | (key, v) :: members =>
    if key = "args" then readArgsChildren place v else readChildren place members

def readArgsChildren (place : Place) : Json → Except GrammarError (List (Tree Flavor))
  | .obj members => readMemberChildren place members
  | .arr (_ :: .arr items :: _) => readItems place 0 items
  | _ => .ok []

def readMemberChildren (place : Place) :
    List (String × Json) → Except GrammarError (List (Tree Flavor))
  | [] => .ok []
  | (key, .arr items) :: members =>
    if key = "parsers" then readItems place 0 items else readMemberChildren place members
  | _ :: members => readMemberChildren place members

/-- Reads a list of children, the first of which has the given index. -/
def readItems (place : Place) (index : Nat) : List Json → Except GrammarError (List (Tree Flavor))
  | [] => .ok []
  | v :: items => do
    let t ← readNode (place.child index) false v
    return t :: (← readItems place (index + 1) items)

end

/-- The tree that a JSON value describes. -/
def toTree (v : Json) : Except GrammarError (Tree Flavor) := readNode .root true v

def parse (text : String) : Except GrammarError (Tree Flavor) :=
  match Json.parse? text with
  | some v => toTree v
  | none => .error (.malformed .root .notJson)

end Document

end LabelGrammar
