import LabelGrammar.Number.Binary64

/-! # JSON values

Integers are kept apart from other numbers. The members of an object stand in a list. A value
that was read has them sorted by key, each key once; a value to be written has them in the order
of writing.
-/

namespace LabelGrammar

inductive Json where
  | null
  | bool (value : Bool)
  | int (value : Int)
  | float (value : Binary64)
  | str (value : String)
  | arr (items : List Json)
  | obj (members : List (String × Json))
  deriving Repr

namespace Json

/-- Puts a member at its place in a list sorted by key, over an earlier one of that key. -/
def putMember (key : String) (value : Json) : List (String × Json) → List (String × Json)
  | [] => [(key, value)]
  | (k, v) :: rest =>
    if key = k then (key, value) :: rest
    else if key < k then (key, value) :: (k, v) :: rest
    else (k, v) :: putMember key value rest

def member? (key : String) : List (String × Json) → Option Json
  | [] => none
  | (k, v) :: rest => if key = k then some v else member? key rest

/-- Members sorted by key; the last of several with one key counts. -/
def sortMembers (members : List (String × Json)) : List (String × Json) :=
  members.foldl (fun sorted (k, v) => putMember k v sorted) []

mutual

def sorted : Json → Json
  | .null => .null
  | .bool b => .bool b
  | .int i => .int i
  | .float x => .float x
  | .str s => .str s
  | .arr items => .arr (sortedItems items)
  | .obj members => .obj (sortMembers (sortedMembers members))

def sortedItems : List Json → List Json
  | [] => []
  | v :: rest => sorted v :: sortedItems rest

def sortedMembers : List (String × Json) → List (String × Json)
  | [] => []
  | (k, v) :: rest => (k, sorted v) :: sortedMembers rest

end

theorem sortedItems_eq_map (items : List Json) : sortedItems items = items.map sorted := by
  induction items with
  | nil => rfl
  | cons v rest ih => simp [sortedItems, ih]

theorem sortedMembers_eq_map (members : List (String × Json)) :
    sortedMembers members = members.map fun m => (m.1, m.2.sorted) := by
  induction members with
  | nil => rfl
  | cons m rest ih => simp [sortedMembers, ih]

theorem member?_putMember_self (key : String) (value : Json) (members : List (String × Json)) :
    member? key (putMember key value members) = some value := by
  induction members with
  | nil => simp [putMember, member?]
  | cons m rest ih =>
    obtain ⟨k, v⟩ := m
    simp only [putMember]
    split
    · simp [member?]
    · split <;> simp_all [member?]

theorem member?_putMember_of_ne {key other : String} (h : other ≠ key) (value : Json)
    (members : List (String × Json)) :
    member? other (putMember key value members) = member? other members := by
  induction members with
  | nil => simp [putMember, member?, h]
  | cons m rest ih =>
    obtain ⟨k, v⟩ := m
    simp only [putMember]
    split
    · subst_vars; simp [member?, h]
    · split
      · simp [member?, h]
      · simp [member?, ih]

end Json

end LabelGrammar
