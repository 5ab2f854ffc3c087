/-! # Kinds of grammar nodes

The closed set of kinds, and the flavors of editor blocks. A flavor is an open tag; the kind it
denotes is named by the part before its first hyphen.
-/

namespace LabelGrammar

/-- An opaque, stable identifier of a grammar node. -/
abbrev NodeId := String

inductive Kind where
  | sequence
  | choice
  | string
  | rest
  | substring
  deriving DecidableEq, Repr

namespace Kind

def all : List Kind := [sequence, choice, string, rest, substring]

def name : Kind → String
  | sequence => "sequence"
  | choice => "choice"
  | string => "string"
  | rest => "rest"
  | substring => "substring_n"

def ofName? (name : String) : Option Kind := all.find? (·.name == name)

def isContainer : Kind → Bool
  | sequence | choice => true
  | string | rest | substring => false

theorem ofName?_name (k : Kind) : ofName? k.name = some k := by cases k <;> rfl

theorem name_of_ofName? {s : String} {k : Kind} (h : ofName? s = some k) : k.name = s := by
  have := List.find?_some h
  simpa using this

end Kind

/-- The tag of an editor block. -/
structure Flavor where
  tag : String
  deriving DecidableEq, Repr

namespace Flavor

def base (f : Flavor) : String := String.ofList (f.tag.toList.takeWhile (· != '-'))

def kind? (f : Flavor) : Option Kind := Kind.ofName? f.base

def denotes (f : Flavor) (k : Kind) : Bool := f.kind? == some k

def rootSequence : Flavor := ⟨"sequence"⟩

def innerSequence : Flavor := ⟨"sequence-inner"⟩

def importedString : Flavor := ⟨"string-url"⟩

/-- The flavor of a block for which nothing else was recorded. Only that of a sequence depends on
its position. -/
def default (k : Kind) (atRoot : Bool) : Flavor :=
  match k with
  | .sequence => if atRoot then rootSequence else innerSequence
  | k => ⟨k.name⟩

theorem denotes_default (k : Kind) (atRoot : Bool) : (default k atRoot).denotes k = true := by
  cases k <;> cases atRoot <;> decide

end Flavor

end LabelGrammar
