import LabelGrammar.Proofs.Tokenizer.Matching

/-! # How matching fails

Matching stops at the first node that fails, so that a result has at most one error, which its last
token carries. The error of a choice is made of those of its children, each of which has one or
none.
-/

namespace LabelGrammar

def WireToken.failure (id : NodeId) (error : String) : WireToken :=
  ⟨none, none, 0, some id, some error⟩

/-- The result of a child that a choice passes over: it has one error, or nothing at all. -/
def WireResult.PassedOver (r : WireResult) : Prop :=
  (∃ error, r.errors = [error]) ∨ r.errors = [] ∧ r.tokens = []

namespace Tree

variable {φ : Type}

/-- Matching a tree stops at a node: where it starts, or in a sequence behind what its first
children matched. Told are the tokens of what matched and what was left of the text. -/
inductive StopsAt : Tree φ → List Char → List WireToken → List Char → Tree φ → Prop where
  | here {u : Tree φ} {text : List Char} : u.kind ≠ .sequence → StopsAt u text [] text u
  | head {id : NodeId} {flavor : φ} {t u : Tree φ} {ts : List (Tree φ)} {text left : List Char}
      {tokens : List WireToken} : StopsAt t text tokens left u →
      StopsAt (.group id flavor .sequence (t :: ts)) text tokens left u
  | tail {id : NodeId} {flavor : φ} {t u : Tree φ} {ts : List (Tree φ)}
      {text between left : List Char} {first tokens : List WireToken} :
      t.Matches text first between →
      StopsAt (.group id flavor .sequence ts) between tokens left u →
      StopsAt (.group id flavor .sequence (t :: ts)) text (first ++ tokens) left u

/-- A leaf has an error of its own. A choice has those of its children on the same text, each of
which was passed over, in their order. -/
inductive Complains (text : List Char) : Tree φ → String → Prop where
  | leaf {id : NodeId} {flavor : φ} {l : Leaf} {error : String} :
      l.run id text = .failed id error → Complains text (.leaf id flavor l) error
  | choice {id : NodeId} {flavor : φ} {ts : List (Tree φ)} :
      (∀ c ∈ ts, (c.evaluate (String.ofList text)).PassedOver) →
      Complains text (.group id flavor .choice ts)
        (" | ".intercalate (ts.flatMap fun c => (c.evaluate (String.ofList text)).errors))

/-- Results for a label: those of a match, and those with one error in the last token, which is
that of the node at which matching stops. -/
inductive Tells (t : Tree φ) (label : String) : WireResult → Prop where
  | clean {success : Bool} {left : List Char} {tokens : List WireToken} :
      t.Matches label.toList tokens left → (∀ token ∈ tokens, token.error = none) →
      Tells t label ⟨success, [], tokens⟩
  | failed {u : Tree φ} {left : List Char} {tokens : List WireToken} {error : String} :
      t.StopsAt label.toList tokens left u → u.Complains left error →
      (∀ token ∈ tokens, token.error = none) →
      Tells t label ⟨false, [error], tokens ++ [.failure u.id error]⟩

end Tree

open Piece

namespace Piece

variable {pieces : List Piece} {id : NodeId} {error : String}

theorem filterMap_error?_eq_nil (h : firstError? pieces = none) :
    pieces.filterMap error? = [] :=
  List.filterMap_eq_nil_iff.2 (List.findSome?_eq_none_iff.1 h)

theorem error_eq_none_of_clean (h : firstError? pieces = none) :
    ∀ token ∈ pieces.map toWireToken, token.error = none := by
  rw [firstError?, List.findSome?_eq_none_iff] at h
  rw [List.forall_mem_map]
  intro p hp
  cases p with
  | matched => rfl
  | failed id error => exact h _ hp

theorem filterMap_error?_concat (h : firstError? pieces = none) :
    (pieces ++ [Piece.failed id error]).filterMap error? = [error] := by
  rw [List.filterMap_append, filterMap_error?_eq_nil h]
  rfl

end Piece

namespace Tree

variable {φ : Type} {t : Tree φ} {ts : List (Tree φ)} {text : List Char} {error : String}

def Fails (t : Tree φ) (text : List Char) (error : String) : Prop :=
  ∃ pieces left u, t.run text = pieces ++ [Piece.failed u.id error] ∧ firstError? pieces = none ∧
    t.StopsAt text (pieces.map toWireToken) left u ∧ u.Complains left error

theorem kind_leaf_ne_sequence (id : NodeId) (flavor : φ) (l : Leaf) :
    (leaf id flavor l).kind ≠ .sequence := by cases l <;> rintro ⟨⟩

theorem Fails.errors_evaluate (h : t.Fails text error) :
    (t.evaluate (String.ofList text)).errors = [error] := by
  obtain ⟨pieces, left, u, hr, hc, -⟩ := h
  rw [evaluate, String.toList_ofList, hr]
  exact filterMap_error?_concat hc

theorem evaluate_of_run_eq_nil (h : t.run text = []) :
    (t.evaluate (String.ofList text)).errors = [] ∧
      (t.evaluate (String.ofList text)).tokens = [] := by
  rw [evaluate, String.toList_ofList, h]
  exact ⟨rfl, rfl⟩

theorem fails_leaf (id : NodeId) (flavor : φ) (l : Leaf)
    (he : firstError? (run text (.leaf id flavor l)) = some error) :
    (leaf id flavor l).Fails text error := by
  have hk := kind_leaf_ne_sequence id flavor l
  have hm := madeBy_run id flavor l text
  rw [run] at he
  generalize hp : l.run id text = p at hm he
  cases hm with
  | leaf => cases he
  | failed e =>
    obtain rfl := Option.some.inj he
    exact ⟨[], text, _, by rw [run, hp]; rfl, rfl, .here hk, .leaf hp⟩

theorem clean_of_runFirst {pieces : List Piece} (h : runFirst text ts = .ok pieces) :
    firstError? pieces = none ∧ pieces ≠ [] := by
  induction ts with
  | nil => cases h
  | cons t ts ih =>
    rw [runFirst] at h
    split at h
    · exact ih (mapError_eq_ok_iff.1 h)
    · next he =>
      split at h
      · exact ih h
      · next hp =>
        obtain rfl := Except.ok.inj h
        exact ⟨he, by simpa using hp⟩

section Children

variable (h : ∀ t ∈ ts, ∀ text error, firstError? (t.run text) = some error → t.Fails text error)
include h

theorem fails_runAll (id : NodeId) (flavor : φ)
    (he : firstError? (runAll text ts) = some error) :
    (group id flavor .sequence ts).Fails text error := by
  induction ts generalizing text with
  | nil => cases he
  | cons t ts ih =>
    rw [List.forall_mem_cons] at h
    rw [Fails, run]
    rw [runAll] at he ⊢
    cases ht : firstError? (t.run text) with
    | some e =>
      simp only [ht, Option.isSome_some, if_true] at he ⊢
      obtain rfl := Option.some.inj he
      obtain ⟨pieces, left, u, hr, hc, hs, hu⟩ := h.1 _ _ ht
      exact ⟨pieces, left, u, hr, hc, .head hs, hu⟩
    | none =>
      simp only [ht, Option.isSome_none, Bool.false_eq_true, if_false] at he ⊢
      rw [firstError?_append, ht, Option.none_or] at he
      obtain ⟨pieces, left, u, hr, hc, hs, hu⟩ := ih h.2 he
      have hm := (matches_iff t text _ _).2 (yields_of_clean ht text)
      refine ⟨t.run text ++ pieces, left, u, ?_, ?_, ?_, hu⟩
      · rw [run] at hr
        rw [hr, List.append_assoc]
      · rw [firstError?_append, ht, hc, Option.none_or]
      · rw [List.map_append]
        exact .tail hm hs

/-- If a choice fails, it has the errors of all its children. -/
theorem errors_of_runFirst {errors : List String} (hr : runFirst text ts = .error errors) :
    errors = ts.flatMap (fun c => (c.evaluate (String.ofList text)).errors) ∧
      ∀ c ∈ ts, (c.evaluate (String.ofList text)).PassedOver := by
  induction ts generalizing errors with
  | nil =>
    obtain rfl := Except.error.inj hr
    simp
  | cons t ts ih =>
    rw [List.forall_mem_cons] at h
    rw [runFirst] at hr
    rw [List.flatMap_cons, List.forall_mem_cons]
    cases ht : firstError? (t.run text) with
    | some e =>
      simp only [ht] at hr
      have he := (h.1 _ _ ht).errors_evaluate
      cases hts : runFirst text ts with
      | ok pieces =>
        rw [hts] at hr
        cases hr
      | error errors' =>
        rw [hts] at hr
        obtain rfl := Except.error.inj hr
        obtain ⟨rfl, hall⟩ := ih h.2 hts
        exact ⟨by rw [he]; rfl, .inl ⟨e, he⟩, hall⟩
    | none =>
      simp only [ht] at hr
      cases hp : t.run text with
      | cons p pieces =>
        rw [hp] at hr
        cases hr
      | nil =>
        rw [hp] at hr
        obtain ⟨rfl, hall⟩ := ih h.2 hr
        have he := evaluate_of_run_eq_nil hp
        exact ⟨by rw [he.1]; rfl, .inr he, hall⟩

theorem fails_choice (id : NodeId) (flavor : φ)
    (he : firstError? (run text (.group id flavor .choice ts)) = some error) :
    (group id flavor .choice ts).Fails text error := by
  rw [run] at he
  cases hr : runFirst text ts with
  | ok pieces =>
    simp only [hr] at he
    rw [(clean_of_runFirst hr).1] at he
    cases he
  | error errors =>
    simp only [hr] at he
    obtain rfl := Option.some.inj he
    obtain ⟨rfl, hall⟩ := errors_of_runFirst h hr
    refine ⟨[], text, _, ?_, rfl, .here (by rintro ⟨⟩), .choice hall⟩
    simp only [run, hr]
    rfl

end Children

/-- A tree whose pieces have an error fails with it, at the node of its last piece. -/
theorem fails_run (t : Tree φ) (text : List Char) (error : String)
    (he : firstError? (t.run text) = some error) : t.Fails text error := by
  induction t using children_induction generalizing text error with
  | step t ih =>
    cases t with
    | leaf id flavor l => exact fails_leaf id flavor l he
    | group id flavor shape ts =>
      rw [children] at ih
      cases shape with
      | sequence => exact fails_runAll ih id flavor (by rwa [run] at he)
      | choice => exact fails_choice ih id flavor he

/-- A result has at most one error. If it has one, it fails, and its last token is that of the node
at which matching stopped, behind the tokens of what matched before. -/
theorem tells_evaluate (t : Tree φ) (label : String) : t.Tells label (t.evaluate label) := by
  cases he : firstError? (t.run label.toList) with
  | none =>
    have hm := (matches_iff t _ _ _).2 (yields_of_clean he label.toList)
    rw [evaluate, filterMap_error?_eq_nil he]
    exact .clean hm (error_eq_none_of_clean he)
  | some error =>
    obtain ⟨pieces, left, u, hr, hc, hs, hu⟩ := t.fails_run _ _ he
    rw [evaluate, hr, filterMap_error?_concat hc, List.map_append]
    exact .failed hs hu (error_eq_none_of_clean hc)

example : (Tree.group "a" () .sequence [.leaf "b" () (.string "A" "x"), .group "c" () .choice
      [.leaf "d" () (.string "B" "y"), .group "e" () .sequence [],
        .group "f" () .choice [.leaf "g" () (.string "C" "z"), .leaf "h" () (.substring 2 "z")]]
    ]).evaluate "AD" =
    let error := "Expected B, got D | Expected C, got D | Expected 2 characters, got D"
    ⟨false, [error], [⟨some "x", some "A", 1, some "b", none⟩, .failure "c" error]⟩ := by decide

end Tree

end LabelGrammar
