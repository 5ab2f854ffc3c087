import LabelGrammar.Number.Limits
import LabelGrammar.Settings.Value

/-! # Settings from environment variables

A variable whose name starts with `POINTLABEL_` sets the key that the rest of the name spells, in
either case, with a double underscore between two parts of the key.
-/

namespace LabelGrammar.Environment

def marker : List Char := "pointlabel_".toList

def dotted : List Char → List Char
  | [] => []
  | '_' :: '_' :: cs => '.' :: dotted cs
  | c :: cs => c :: dotted cs

def key? (name : String) : Option String :=
  let cs := (Text.lower name).toList
  if marker.isPrefixOf cs then some (String.ofList (dotted (cs.drop marker.length))) else none

/-- The value of a variable: a truth value, an integer of 64 bits or another number if it reads
as one, else a text. -/
def value (s : String) : Setting :=
  let cs := s.toList
  let integer? := (Digits.integer? cs).filter Limits.isInteger64
  if Text.lower s == "true" then .bool true
  else if Text.lower s == "false" then .bool false
  else match integer?, Float64.parse? cs with
    | some i, _ => .int i
    | none, some x => .float x
    | none, none => .text s

def settings (environment : List (String × String)) : List (String × Setting) :=
  environment.filterMap fun (name, s) => (key? name).map fun key => (key, value s)

example : key? "PointLabel_Tokenizer__MAX_RETRIES" = some "tokenizer.max_retries" := by
  decide +kernel

example : key? "POINTLABEL" = none := by decide +kernel

end LabelGrammar.Environment
