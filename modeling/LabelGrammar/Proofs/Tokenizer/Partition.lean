import LabelGrammar.Proofs.Tokenizer.Sources

/-! # Tokens divide a label

The values of the tokens of a label, one after the other, are its start. A text that is kept as
bytes can be cut behind what was matched, since that is always a whole number of its characters.
-/

namespace LabelGrammar

/-- What is left of a text from a byte on. A text is cut only between its characters and at its
ends. -/
def cutAt? (text : String) (byte : Nat) : Option String :=
  if h : (⟨byte⟩ : String.Pos.Raw).IsValid text then some (text.sliceFrom ⟨⟨byte⟩, h⟩).copy
  else none

theorem cutAt?_append (value left : String) :
    cutAt? (value ++ left) value.utf8ByteSize = some left := by
  have h : (⟨value.utf8ByteSize⟩ : String.Pos.Raw).IsValid (value ++ left) :=
    String.Pos.Raw.isValid_iff_exists_append.2 ⟨value, left, rfl, rfl⟩
  have hs : (⟨_, h⟩ : (value ++ left).Pos).Splits value left := ⟨rfl, rfl⟩
  rw [cutAt?, dif_pos h, hs.copy_sliceFrom_eq]

namespace Piece

def byteSize (p : Piece) : Nat := (String.ofList p.value).utf8ByteSize

def byteSizes : List Piece → Nat
  | [] => 0
  | p :: pieces => p.byteSize + byteSizes pieces

theorem byteSizes_eq (pieces : List Piece) :
    byteSizes pieces = (String.ofList (consumed pieces)).utf8ByteSize := by
  induction pieces with
  | nil => rfl
  | cons p pieces ih =>
    rw [byteSizes, ih, consumed_cons, String.ofList_append, String.utf8ByteSize_append]
    rfl

theorem Sourced.cutAt?_eq {φ : Type} {nodes : List (Tree φ)} {target : String}
    {pieces : List Piece} (h : Sourced nodes target.toList pieces) :
    cutAt? target (byteSizes pieces) =
      some (String.ofList (target.toList.drop (consumed pieces).length)) := by
  have ht : target = String.ofList (consumed pieces) ++
      String.ofList (target.toList.drop (consumed pieces).length) := by
    rw [← String.ofList_append, h.append_drop, String.ofList_toList]
  rw [byteSizes_eq]
  conv_lhs => rw [ht]
  exact cutAt?_append _ _

end Piece

open Piece

namespace Tree

variable {φ : Type}

mutual

/-- The pieces of a text that a tree matches, where the text is kept as bytes. There is no answer
if a sequence would have to cut a text outside its bounds or within a character. -/
def runBytes (target : String) : Tree φ → Option (List Piece)
  | .leaf id _ l => some [l.run id target.toList]
  | .group _ _ .sequence children => runAllBytes target children
  | .group id _ .choice children => do
    match ← runFirstBytes target children with
    | .ok pieces => return pieces
    | .error errors => return [.failed id (" | ".intercalate errors)]

def runAllBytes (target : String) : List (Tree φ) → Option (List Piece)
  | [] => some []
  | t :: ts => do
    let pieces ← runBytes target t
    if (firstError? pieces).isSome then return pieces
    let left ← cutAt? target (byteSizes pieces)
    return pieces ++ (← runAllBytes left ts)

def runFirstBytes (target : String) :
    List (Tree φ) → Option (Except (List String) (List Piece))
  | [] => some (.error [])
  | t :: ts => do
    let pieces ← runBytes target t
    match firstError? pieces with
    | some e => return (← runFirstBytes target ts).mapError (e :: ·)
    | none => if pieces.isEmpty then runFirstBytes target ts else return .ok pieces

end

section Children

variable {ts : List (Tree φ)}
  (h : ∀ t ∈ ts, ∀ target : String, t.runBytes target = some (t.run target.toList))
include h

theorem runAllBytes_eq (target : String) :
    runAllBytes target ts = some (runAll target.toList ts) := by
  induction ts generalizing target with
  | nil => rfl
  | cons t ts ih =>
    rw [List.forall_mem_cons] at h
    have hcut := (t.sourced_run target.toList).cutAt?_eq
    simp only [runAllBytes, runAll, h.1, Option.bind_eq_bind, Option.bind_some]
    split
    · rfl
    · rw [hcut, Option.bind_some, ih h.2, String.toList_ofList]
      rfl

theorem runFirstBytes_eq (target : String) :
    runFirstBytes target ts = some (runFirst target.toList ts) := by
  induction ts with
  | nil => rfl
  | cons t ts ih =>
    rw [List.forall_mem_cons] at h
    simp only [runFirstBytes, runFirst, h.1, ih h.2, Option.bind_eq_bind, Option.bind_some]
    cases firstError? (t.run target.toList) with
    | some e => rfl
    | none => cases (t.run target.toList).isEmpty <;> rfl

end Children

/-- No cut goes wrong, and it makes no difference that texts are cut at bytes. -/
theorem runBytes_eq (t : Tree φ) (target : String) :
    t.runBytes target = some (t.run target.toList) := by
  induction t using children_induction generalizing target with
  | step t ih =>
    cases t with
    | leaf id flavor l => rfl
    | group id flavor shape ts =>
      rw [children] at ih
      cases shape with
      | sequence => rw [runBytes, run, runAllBytes_eq ih]
      | choice =>
        rw [runBytes, run, runFirstBytes_eq ih]
        rw [Option.bind_eq_bind, Option.bind_some]
        cases runFirst target.toList ts <;> rfl

end Tree

namespace WireResult

def spelled (r : WireResult) : String := String.join (r.tokens.map fun token => token.value.getD "")

/-- The tokens of a result divide the start of a label among them. -/
structure Divides (r : WireResult) (label : String) : Prop where
  spelled : ∃ left, label = r.spelled ++ left
  length : ∀ token ∈ r.tokens, token.length = token.value.elim 0 String.length
  success_iff : r.success = true ↔ (∀ token ∈ r.tokens, token.error = none) ∧ r.spelled = label

end WireResult

namespace Tree

variable {φ : Type}

variable (t : Tree φ) (label : String)

theorem toList_spelled_evaluate :
    (t.evaluate label).spelled.toList = consumed (t.run label.toList) := by
  have hv (p : Piece) : (p.toWireToken.value.getD "").toList = p.value := p.toList_value
  rw [WireResult.spelled, String.toList_join, evaluate, List.map_map, List.flatMap_map, consumed]
  exact List.flatMap_congr fun p _ => hv p

theorem eq_spelled_append : label = (t.evaluate label).spelled ++
    String.ofList (label.toList.drop (consumed (t.run label.toList)).length) := by
  rw [← String.toList_inj, String.toList_append, toList_spelled_evaluate, String.toList_ofList]
  exact (t.sourced_run label.toList).append_drop.symm

/-- As much was matched as the label holds if and only if it was the label. -/
theorem length_consumed_eq_iff :
    (consumed (t.run label.toList)).length = label.length ↔ (t.evaluate label).spelled = label := by
  rw [← toList_spelled_evaluate, String.length_toList]
  constructor
  · intro hl
    have ha := t.eq_spelled_append label
    have hleft := congrArg String.length ha
    rw [String.length_append, ← hl, Nat.left_eq_add, String.length_eq_zero_iff] at hleft
    rwa [hleft, String.append_empty, eq_comm] at ha
  · exact congrArg String.length

theorem errors_evaluate_eq_nil_iff :
    (t.evaluate label).errors = [] ↔ ∀ token ∈ (t.evaluate label).tokens, token.error = none := by
  have he (p : Piece) : p.toWireToken.error = p.error? := by cases p <;> rfl
  simp only [evaluate, List.filterMap_eq_nil_iff, List.forall_mem_map, he]

/-- The values of the tokens of a label are its start, and all of it if and only if matching
succeeds. Whatever is cut on the way is cut between characters. -/
theorem divides_evaluate :
    (t.evaluate label).Divides label ∧ t.runBytes label = some (t.run label.toList) := by
  refine ⟨?_, t.runBytes_eq label⟩
  constructor
  case spelled => exact ⟨_, t.eq_spelled_append label⟩
  case length =>
    intro token ht
    obtain ⟨p, -, rfl⟩ := List.mem_map.1 ht
    cases p <;> simp [toWireToken]
  case success_iff =>
    rw [← errors_evaluate_eq_nil_iff, ← length_consumed_eq_iff]
    simp [evaluate]

/-- Lengths count characters, and cuts count bytes. -/
example : (Tree.group "a" () .sequence [.leaf "b" () (.substring 2 "x"),
      .leaf "c" () (.string "Ω" "y"), .leaf "d" () (.string "m" "z")]).runBytes "°CΩ" =
    some [.matched "b" "x" ['°', 'C'], .matched "c" "y" ['Ω'], .failed "d" "Expected m, got "] :=
  by decide

end Tree

end LabelGrammar
