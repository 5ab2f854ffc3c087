import LabelGrammar.Json.Printer
import LabelGrammar.Number.Limits

/-! # Typed fields

Reading records of typed fields from JSON values. A record is an object, whose members are
checked in their order before any missing field is noticed, or an array of its fields in order.
-/

namespace LabelGrammar

inductive Wanted where
  | text
  | boolean
  | list
  | integer
  | size
  | record (name : String)
  deriving DecidableEq, Repr

def Wanted.message : Wanted → String
  | .text => "a string"
  | .boolean => "a boolean"
  | .list => "a sequence"
  | .integer => "i64"
  | .size => "usize"
  | .record name => s!"struct {name}"

inductive FieldError where
  | wrongType (found : Json) (wanted : Wanted)
  | outOfRange (found : Int) (wanted : Wanted)
  | missing (field : String)
  | unknown (field : String) (known : List String)
  | tooShort (count : Nat) (record : String) (fields : Nat)
  | tooLong (count : Nat)
  deriving Repr

def Json.describe : Json → String
  | .null => "null"
  | .bool b => s!"boolean `{b}`"
  | .int i => s!"integer `{i}`"
  | .float x => s!"floating point `{x.message}`"
  | .str s => "string " ++ Text.quote s
  | .arr _ => "sequence"
  | .obj _ => "map"

def alternatives : List String → String
  | [] => "there are no fields"
  | [a] => s!"expected `{a}`"
  | [a, b] => s!"expected `{a}` or `{b}`"
  | names => "expected one of " ++ ", ".intercalate (names.map fun name => s!"`{name}`")

def FieldError.message : FieldError → String
  | .wrongType found wanted => s!"invalid type: {found.describe}, expected {wanted.message}"
  | .outOfRange found wanted => s!"invalid value: integer `{found}`, expected {wanted.message}"
  | .missing field => s!"missing field `{field}`"
  | .unknown field known => s!"unknown field `{field}`, {alternatives known}"
  | .tooShort count record fields =>
    s!"invalid length {count}, expected struct {record} with {fields} elements"
  | .tooLong count => s!"invalid length {count}, expected fewer elements in array"

namespace Json

def text : Json → Except FieldError String
  | .str s => .ok s
  | v => .error (.wrongType v .text)

def boolean : Json → Except FieldError Bool
  | .bool b => .ok b
  | v => .error (.wrongType v .boolean)

def list : Json → Except FieldError (List Json)
  | .arr items => .ok items
  | v => .error (.wrongType v .list)

def integer : Json → Except FieldError Int
  | .int i => if i ≤ Limits.maxInteger64 then .ok i else .error (.outOfRange i .integer)
  | v => .error (.wrongType v .integer)

def natural : Json → Except FieldError Nat
  | .int i => if 0 ≤ i then .ok i.toNat else .error (.outOfRange i .size)
  | v => .error (.wrongType v .size)

def optionalText : Json → Except FieldError (Option String)
  | .null => .ok none
  | v => (text v).map some

def texts (v : Json) : Except FieldError (List String) := do (← list v).mapM text

end Json

/-- A field of a record. A field that may be absent has a default. -/
structure FieldType where
  name : String
  optional : Bool
  check : Json → Except FieldError Unit

namespace FieldType

def required {α : Type} (name : String) (read : Json → Except FieldError α) : FieldType :=
  ⟨name, false, fun v => (read v).map fun _ => ()⟩

def withDefault {α : Type} (name : String) (read : Json → Except FieldError α) : FieldType :=
  ⟨name, true, fun v => (read v).map fun _ => ()⟩

end FieldType

structure RecordType where
  name : String
  fields : List FieldType
  closed : Bool

namespace RecordType

def checkMember (r : RecordType) (key : String) (v : Json) : Except FieldError Unit :=
  match r.fields.find? (·.name == key) with
  | some field => field.check v
  | none => if r.closed then .error (.unknown key (r.fields.map (·.name))) else .ok ()

def checkPresent (members : List (String × Json)) (field : FieldType) : Except FieldError Unit :=
  if field.optional || (Json.member? field.name members).isSome then .ok ()
  else .error (.missing field.name)

/-- Gives the items of an array, from the given position on, the names of the fields. -/
def nameItems (r : RecordType) : Nat → List FieldType → List Json →
    Except FieldError (List (String × Json))
  | _, [], _ => .ok []
  | position, field :: fields, [] =>
    if field.optional then nameItems r (position + 1) fields []
    else .error (.tooShort position r.name r.fields.length)
  | position, field :: fields, v :: items => do
    field.check v
    return (field.name, v) :: (← nameItems r (position + 1) fields items)

def members (r : RecordType) : Json → Except FieldError (List (String × Json))
  | .obj members => do
    members.forM fun (key, v) => r.checkMember key v
    r.fields.forM (checkPresent members)
    return members
  | .arr items => do
    let members ← r.nameItems 0 r.fields items
    if r.fields.length < items.length then throw (.tooLong items.length)
    return members
  | v => .error (.wrongType v (.record r.name))

end RecordType

def readField {α : Type} (members : List (String × Json)) (name : String)
    (read : Json → Except FieldError α) : Except FieldError α :=
  match Json.member? name members with
  | some v => read v
  | none => .error (.missing name)

def readFieldOr {α : Type} (default : α) (members : List (String × Json)) (name : String)
    (read : Json → Except FieldError α) : Except FieldError α :=
  match Json.member? name members with
  | some v => read v
  | none => .ok default

end LabelGrammar
