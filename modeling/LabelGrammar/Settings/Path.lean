import LabelGrammar.Number.Limits
import LabelGrammar.Settings.Value

/-! # Setting paths

A path leads through tables by key and through lists by index, as in `servers[0].name`. Setting a
value makes the tables and lists on the way, in place of anything else found there. A table is
merged into the one at its place, entry by entry.
-/

namespace LabelGrammar

inductive SettingStep where
  | key (name : String)
  /-- A negative index counts from the end of the list. -/
  | item (index : Int)
  deriving DecidableEq, Repr

namespace Setting

mutual

def merge (old : Option Setting) : Setting → Setting
  | .table entries => mergeEntries (old.getD (.table [])) entries
  | v => v

/-- Merges entries into a value. Keys lose their case. -/
def mergeEntries (old : Setting) : List (String × Setting) → Setting
  | [] => old
  | (key, v) :: rest =>
    mergeEntries (.table (update (Text.lower key) (fun old => merge old v) old.entries)) rest

end

/-- Changes the item at an index, after filling the list up to there. -/
def updateItem (index : Int) (f : Setting → Setting) (items : List Setting) : List Setting :=
  match if 0 ≤ index then index else items.length + index with
  | .negSucc _ => items
  | .ofNat n =>
    (items ++ List.replicate (n + 1 - items.length) Setting.absent).modify n f

def setAt (v : Setting) : List SettingStep → Setting → Setting
  | [], _ => v
  | [.key name], old =>
    .table (update (Text.lower name) (fun old => merge old v) old.entries)
  | .key name :: step :: way, old =>
    .table (update (Text.lower name) (fun old => setAt v (step :: way) (old.getD .absent))
      old.entries)
  | .item index :: way, old => .list (updateItem index (setAt v way) old.items)

end Setting

namespace SettingStep

inductive Reading where
  | name (reversed : List Char)
  | index (reversed : List Char)
  | closed

def isNameChar (c : Char) : Bool := c.isAlphanum || c == '_' || c == '-' || c == ' '

/-- The index between brackets. Blanks may surround it. -/
def index? (cs : List Char) : Option Int := do
  let isBlank (c : Char) : Bool := c == ' ' || c == '\t'
  let cs := ((cs.dropWhile isBlank).reverse.dropWhile isBlank).reverse
  let i ← if cs.head? == some '+' then none else Digits.integer? cs
  if Limits.isInteger64 i then some i else none

def ofName? (reversed : List Char) : Option SettingStep :=
  if reversed.isEmpty then none else some (.key (String.ofList reversed.reverse))

def readPath : Reading → List Char → Option (List SettingStep)
  | .name reversed, [] => (ofName? reversed).map ([·])
  | .name reversed, '.' :: cs => do return (← ofName? reversed) :: (← readPath (.name []) cs)
  | .name reversed, '[' :: cs => do return (← ofName? reversed) :: (← readPath (.index []) cs)
  | .name reversed, c :: cs => if isNameChar c then readPath (.name (c :: reversed)) cs else none
  | .index _, [] => none
  | .index reversed, ']' :: cs => do
    return .item (← index? reversed.reverse) :: (← readPath .closed cs)
  | .index reversed, c :: cs => readPath (.index (c :: reversed)) cs
  | .closed, [] => some []
  | .closed, '.' :: cs => readPath (.name []) cs
  | .closed, '[' :: cs => readPath (.index []) cs
  | .closed, _ :: _ => none

def parsePath? (path : String) : Option (List SettingStep) := readPath (.name []) path.toList

example : parsePath? "a.b-c[ -1 ].d" = some [.key "a", .key "b-c", .item (-1), .key "d"] := by
  decide

example : parsePath? "a..b" = none := by decide

end SettingStep

end LabelGrammar
