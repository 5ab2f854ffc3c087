import LabelGrammar.Grammar.Kind

/-! # Rules

What a grammar node matches, apart from its children. The fields of a leaf are checked when it is
made and when one of them is edited.
-/

namespace LabelGrammar

/-- The rule of a node without children. -/
inductive Leaf where
  | string (pattern typeName : String)
  | rest (typeName : String)
  | substring (length : Nat) (typeName : String)
  deriving DecidableEq, Repr

/-- How a node combines its children. -/
inductive Shape where
  | sequence
  | choice
  deriving DecidableEq, Repr

inductive Rule where
  | leaf (leaf : Leaf)
  | group (shape : Shape)
  deriving DecidableEq, Repr

def Leaf.kind : Leaf → Kind
  | .string _ _ => .string
  | .rest _ => .rest
  | .substring _ _ => .substring

def Leaf.typeName : Leaf → String
  | .string _ typeName => typeName
  | .rest typeName => typeName
  | .substring _ typeName => typeName

def Shape.kind : Shape → Kind
  | .sequence => .sequence
  | .choice => .choice

def Rule.kind : Rule → Kind
  | .leaf l => l.kind
  | .group s => s.kind

inductive Field where
  | pattern
  | typeName
  | length
  deriving DecidableEq, Repr

def Field.name : Field → String
  | .pattern => "s"
  | .typeName => "type_name"
  | .length => "length"

/-- A node breaks a rule that concerns it alone. -/
inductive ValidationError where
  | emptyField (field : Field)
  | nonPositiveLength (value : Int)
  | fieldNotApplicable (field : Field) (kind : Kind)
  | notAContainer (kind : Kind)
  | flavorMismatch (flavor : Flavor) (kind : Kind)
  deriving DecidableEq, Repr

def ValidationError.message : ValidationError → String
  | .emptyField field => s!"field `{field.name}` must not be empty"
  | .nonPositiveLength value => s!"field `length` must be greater than zero, got {value}"
  | .fieldNotApplicable field kind => s!"field `{field.name}` does not apply to a {kind.name} node"
  | .notAContainer kind => s!"a {kind.name} node cannot hold children"
  | .flavorMismatch flavor kind =>
    s!"block flavor `{flavor.tag}` does not denote a {kind.name} node"

def nonEmpty (field : Field) (value : String) : Except ValidationError String :=
  if value = "" then .error (.emptyField field) else .ok value

def positiveLength (value : Int) : Except ValidationError Nat :=
  if value ≤ 0 then .error (.nonPositiveLength value) else .ok value.toNat

def checkFlavor (flavor : Flavor) (kind : Kind) : Except ValidationError Flavor :=
  if flavor.denotes kind then .ok flavor else .error (.flavorMismatch flavor kind)

namespace Leaf

/-- A string rule; the pattern is checked first. -/
def makeString (pattern typeName : String) : Except ValidationError Leaf := do
  return .string (← nonEmpty .pattern pattern) (← nonEmpty .typeName typeName)

def makeRest (typeName : String) : Except ValidationError Leaf := do
  return .rest (← nonEmpty .typeName typeName)

def makeSubstring (length : Int) (typeName : String) : Except ValidationError Leaf := do
  return .substring (← positiveLength length) (← nonEmpty .typeName typeName)

end Leaf

inductive FieldEdit where
  | pattern (value : String)
  | typeName (value : String)
  | length (value : Int)
  deriving DecidableEq, Repr

namespace FieldEdit

def field : FieldEdit → Field
  | .pattern _ => .pattern
  | .typeName _ => .typeName
  | .length _ => .length

def applyLeaf (edit : FieldEdit) (leaf : Leaf) : Except ValidationError Leaf :=
  match edit, leaf with
  | .pattern value, .string _ type => (nonEmpty .pattern value).map (.string · type)
  | .typeName value, .string text _ => (nonEmpty .typeName value).map (.string text)
  | .typeName value, .rest _ => (nonEmpty .typeName value).map .rest
  | .typeName value, .substring size _ => (nonEmpty .typeName value).map (.substring size)
  | .length value, .substring _ type => (positiveLength value).map (.substring · type)
  | edit, leaf => .error (.fieldNotApplicable edit.field leaf.kind)

def apply (edit : FieldEdit) (rule : Rule) : Except ValidationError Rule :=
  match rule with
  | .leaf l => (edit.applyLeaf l).map .leaf
  | .group s => .error (.fieldNotApplicable edit.field s.kind)

theorem kind_of_applyLeaf {edit : FieldEdit} {leaf updated : Leaf}
    (h : edit.applyLeaf leaf = .ok updated) : updated.kind = leaf.kind := by
  cases edit with
  | pattern value =>
    cases leaf <;> simp only [applyLeaf] at h <;> first
      | cases h
      | (cases hv : nonEmpty .pattern value <;> rw [hv] at h <;> cases h; rfl)
  | typeName value =>
    cases leaf <;> simp only [applyLeaf] at h <;>
      (cases hv : nonEmpty .typeName value <;> rw [hv] at h <;> cases h; rfl)
  | length value =>
    cases leaf <;> simp only [applyLeaf] at h <;> first
      | cases h
      | (cases hv : positiveLength value <;> rw [hv] at h <;> cases h; rfl)

end FieldEdit

end LabelGrammar
