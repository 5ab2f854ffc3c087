import LabelGrammar.Number.Float64
import LabelGrammar.Number.Limits
import LabelGrammar.Text.Lower

/-! # Setting values

A tree of tables, lists and plain values. A plain value is read as a text or as a number, as far
as its type can be converted.
-/

namespace LabelGrammar

inductive Setting where
  | absent
  | bool (value : Bool)
  | int (value : Int)
  | float (value : Float64)
  | text (value : String)
  | list (items : List Setting)
  | table (entries : List (String × Setting))
  deriving Repr

namespace Setting

def entries : Setting → List (String × Setting)
  | .table entries => entries
  | _ => []

def items : Setting → List Setting
  | .list items => items
  | _ => []

def find? (key : String) : List (String × Setting) → Option Setting
  | [] => none
  | (k, v) :: rest => if k = key then some v else find? key rest

def update (key : String) (f : Option Setting → Setting) :
    List (String × Setting) → List (String × Setting)
  | [] => [(key, f none)]
  | (k, v) :: rest => if k = key then (k, f (some v)) :: rest else (k, v) :: update key f rest

theorem find?_update_self (key : String) (f : Option Setting → Setting)
    (entries : List (String × Setting)) :
    find? key (update key f entries) = some (f (find? key entries)) := by
  induction entries with
  | nil => simp [update, find?]
  | cons e rest ih =>
    obtain ⟨k, v⟩ := e
    by_cases h : k = key <;> simp [update, find?, h, ih]

theorem find?_update_of_ne {key other : String} (h : other ≠ key) (f : Option Setting → Setting)
    (entries : List (String × Setting)) :
    find? other (update key f entries) = find? other entries := by
  induction entries with
  | nil => simp [update, find?, h.symm]
  | cons e rest ih =>
    obtain ⟨k, v⟩ := e
    by_cases hk : k = key
    · subst hk; simp [update, find?, h.symm]
    · simp [update, find?, hk, ih]

def text? : Setting → Option String
  | .bool true => some "true"
  | .bool false => some "false"
  | .int i => some (toString i)
  | .float x => some x.plain
  | .text s => some s
  | .absent | .list _ | .table _ => none

/-- The number that a text stands for. Words for truth values stand for one and zero. -/
def naturalOfText? (s : String) : Option Nat :=
  if ["true", "on", "yes"].contains (Text.lower s) then some 1
  else if ["false", "off", "no"].contains (Text.lower s) then some 0
  else Digits.natural? s.toList

def number? : Setting → Option Nat
  | .bool b => some b.toNat
  | .int i => if 0 ≤ i then some i.toNat else none
  | .float x => some (x.toNatural Limits.maxNatural64)
  | .text s => naturalOfText? s
  | .absent | .list _ | .table _ => none

def natural? (limit : Nat) (v : Setting) : Option Nat :=
  v.number?.filter (· ≤ limit)

/-- The values of a record with the given keys: those of a table, or the first items of a list. -/
def record? (keys : List String) : Setting → Option (List Setting)
  | .table entries => keys.mapM fun key => find? key entries
  | .list items => if keys.length ≤ items.length then some (items.take keys.length) else none
  | _ => none

end Setting

end LabelGrammar
