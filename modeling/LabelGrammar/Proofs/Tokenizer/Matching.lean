import LabelGrammar.Proofs.Tokenizer.Sources

/-! # What a grammar matches

When a tree matches a text is said here without pieces and errors, by recursion on the tree. An
evaluation reports no error if and only if the tree matches the label, and then it reports the
tokens of the only match.
-/

namespace LabelGrammar

/-- A leaf takes a value from the start of a text. -/
def Leaf.Splits (text value left : List Char) : Leaf → Prop
  | .string pattern _ => value = pattern.toList ∧ text = value ++ left
  | .rest _ => value = text ∧ left = []
  | .substring length _ => value.length = length ∧ text = value ++ left

def Leaf.token (id : NodeId) (value : List Char) (l : Leaf) : WireToken :=
  ⟨some l.typeName, some (String.ofList value), value.length, some id, none⟩

namespace Tree

variable {φ : Type}

mutual

/-- A tree matches a text with tokens and leaves a remainder. -/
def Matches (text : List Char) (tokens : List WireToken) (left : List Char) : Tree φ → Prop
  | .leaf id _ l => ∃ value, l.Splits text value left ∧ tokens = [l.token id value]
  | .group _ _ .sequence ts => MatchesAll text tokens left ts
  | .group _ _ .choice ts => MatchesFirst text tokens left ts

def MatchesAll (text : List Char) (tokens : List WireToken) (left : List Char) :
    List (Tree φ) → Prop
  | [] => tokens = [] ∧ left = text
  | t :: ts => ∃ first between rest, Matches text first between t ∧
      MatchesAll between rest left ts ∧ tokens = first ++ rest

/-- A tree matches with a token, and none before it does. -/
def MatchesFirst (text : List Char) (tokens : List WireToken) (left : List Char) :
    List (Tree φ) → Prop
  | [] => False
  | t :: ts => tokens ≠ [] ∧ Matches text tokens left t ∨
      (∀ tokens' left', Matches text tokens' left' t → tokens' = []) ∧
        MatchesFirst text tokens left ts

end

end Tree

namespace Piece

variable {text left : List Char} {tokens : List WireToken} {pieces more : List Piece}

structure Yields (pieces : List Piece) (text : List Char) (tokens : List WireToken)
    (left : List Char) : Prop where
  clean : firstError? pieces = none
  tokens : tokens = pieces.map toWireToken
  left : left = text.drop (consumed pieces).length

theorem yields_of_clean (h : firstError? pieces = none) (text : List Char) :
    Yields pieces text (pieces.map toWireToken) (text.drop (consumed pieces).length) :=
  ⟨h, rfl, rfl⟩

theorem Yields.eq_nil_iff (h : Yields pieces text tokens left) : tokens = [] ↔ pieces = [] := by
  rw [h.tokens, List.map_eq_nil_iff]

theorem yields_append : Yields (pieces ++ more) text tokens left ↔
    ∃ first between rest, Yields pieces text first between ∧ Yields more between rest left ∧
      tokens = first ++ rest := by
  constructor
  · rintro ⟨hclean, rfl, rfl⟩
    rw [firstError?_append, Option.or_eq_none_iff] at hclean
    refine ⟨_, _, _, yields_of_clean hclean.1 text, ⟨hclean.2, rfl, ?_⟩, List.map_append⟩
    rw [consumed_append, List.length_append, List.drop_drop]
  · rintro ⟨_, _, _, ⟨hclean, rfl, rfl⟩, ⟨hclean', rfl, rfl⟩, rfl⟩
    refine ⟨?_, List.map_append.symm, ?_⟩
    · rw [firstError?_append, Option.or_eq_none_iff]
      exact ⟨hclean, hclean'⟩
    · rw [consumed_append, List.length_append, List.drop_drop]

theorem not_yields_failed {id : NodeId} {error : String} :
    ¬ Yields [.failed id error] text tokens left := fun h => by cases h.clean

theorem yields_matched {id : NodeId} {typeName : String} {value : List Char} :
    Yields [.matched id typeName value] text tokens left ↔
      tokens = [(Piece.matched id typeName value).toWireToken] ∧ left = text.drop value.length := by
  have hc : consumed [.matched id typeName value] = value := List.append_nil value
  constructor
  · rintro ⟨-, ht, hl⟩
    exact ⟨ht, by rw [hl, hc]⟩
  · rintro ⟨ht, hl⟩
    exact ⟨rfl, ht, by rw [hl, hc]⟩

end Piece

open Piece

namespace Tree

variable {φ : Type} {text left : List Char} {tokens : List WireToken} {ts : List (Tree φ)}

theorem yields_leaf {id : NodeId} {l : Leaf} :
    (∃ value, l.Splits text value left ∧ tokens = [l.token id value]) ↔
      Yields [l.run id text] text tokens left := by
  cases l with
  | string pattern typeName =>
    simp only [Leaf.run]
    split
    · next hp =>
      rw [List.isPrefixOf_iff_prefix] at hp
      rw [yields_matched]
      constructor
      · rintro ⟨_, ⟨rfl, rfl⟩, rfl⟩
        exact ⟨rfl, (List.drop_left ..).symm⟩
      · rintro ⟨rfl, rfl⟩
        exact ⟨_, ⟨rfl, (List.prefix_iff_eq_append.1 hp).symm⟩, rfl⟩
    · next hp =>
      rw [List.isPrefixOf_iff_prefix] at hp
      constructor
      · rintro ⟨_, ⟨rfl, rfl⟩, -⟩
        exact (hp (List.prefix_append ..)).elim
      · exact fun h => (not_yields_failed h).elim
  | rest typeName =>
    simp only [Leaf.run]
    rw [yields_matched, List.drop_length]
    constructor
    · rintro ⟨_, ⟨rfl, rfl⟩, rfl⟩
      exact ⟨rfl, rfl⟩
    · rintro ⟨rfl, rfl⟩
      exact ⟨text, ⟨rfl, rfl⟩, rfl⟩
  | substring length typeName =>
    simp only [Leaf.run]
    split
    · next hl =>
      rw [yields_matched, hl]
      constructor
      · rintro ⟨value, ⟨rfl, rfl⟩, rfl⟩
        rw [List.take_left, List.drop_left]
        exact ⟨rfl, rfl⟩
      · rintro ⟨rfl, rfl⟩
        exact ⟨_, ⟨hl, (List.take_append_drop ..).symm⟩, rfl⟩
    · next hl =>
      constructor
      · rintro ⟨value, ⟨rfl, rfl⟩, -⟩
        rw [List.take_left] at hl
        exact (hl rfl).elim
      · exact fun h => (not_yields_failed h).elim

section Children

variable (h : ∀ t ∈ ts, ∀ text tokens left,
  t.Matches text tokens left ↔ Yields (t.run text) text tokens left)
include h

theorem matchesAll_iff :
    MatchesAll text tokens left ts ↔ Yields (runAll text ts) text tokens left := by
  induction ts generalizing text tokens with
  | nil =>
    rw [MatchesAll, runAll]
    constructor
    · rintro ⟨rfl, rfl⟩
      exact ⟨rfl, rfl, rfl⟩
    · rintro ⟨-, rfl, rfl⟩
      exact ⟨rfl, rfl⟩
  | cons t ts ih =>
    rw [List.forall_mem_cons] at h
    rw [MatchesAll, runAll]
    simp only [h.1, ih h.2]
    split
    · next he =>
      rw [Option.isSome_iff_ne_none] at he
      constructor
      · rintro ⟨_, _, _, ht, -⟩
        exact (he ht.clean).elim
      · exact fun ht => (he ht.clean).elim
    · rw [yields_append]
      constructor
      · rintro ⟨first, between, rest, ht, hts, rfl⟩
        obtain rfl := ht.left
        exact ⟨_, _, _, ht, hts, rfl⟩
      · rintro ⟨first, between, rest, ht, hts, rfl⟩
        obtain rfl := ht.left
        exact ⟨_, _, _, ht, hts, rfl⟩

theorem matchesFirst_iff :
    MatchesFirst text tokens left ts ↔
      ∃ pieces, runFirst text ts = .ok pieces ∧ Yields pieces text tokens left := by
  induction ts with
  | nil => simp [MatchesFirst, runFirst]
  | cons t ts ih =>
    rw [List.forall_mem_cons] at h
    rw [MatchesFirst, runFirst]
    simp only [h.1, ih h.2]
    cases he : firstError? (t.run text) with
    | some e =>
      have hn (tokens : List WireToken) (left : List Char) :
          ¬ Yields (t.run text) text tokens left := fun ht => by
        rw [ht.clean] at he
        cases he
      simp [hn, mapError_eq_ok_iff]
    | none =>
      have ht := yields_of_clean he text
      by_cases hp : t.run text = []
      · have hn (tokens : List WireToken) (left : List Char)
            (h : Yields (t.run text) text tokens left) : tokens = [] := h.eq_nil_iff.2 hp
        simp only [hp, List.isEmpty_nil, if_true]
        rw [hp] at hn
        constructor
        · rintro (⟨hne, h⟩ | ⟨-, h⟩)
          · exact (hne (hn _ _ h)).elim
          · exact h
        · exact fun h => .inr ⟨hn, h⟩
      · have hne : (t.run text).isEmpty = false := by simpa using hp
        simp only [hne, Bool.false_eq_true, if_false, Except.ok.injEq, exists_eq_left']
        constructor
        · rintro (⟨-, h⟩ | ⟨hn, -⟩)
          · exact h
          · exact (hp (ht.eq_nil_iff.1 (hn _ _ ht))).elim
        · exact fun h => .inl ⟨fun hnil => hp (h.eq_nil_iff.1 hnil), h⟩

end Children

theorem matches_iff (t : Tree φ) (text : List Char) (tokens : List WireToken) (left : List Char) :
    t.Matches text tokens left ↔ Yields (t.run text) text tokens left := by
  induction t using children_induction generalizing text tokens left with
  | step t ih =>
    cases t with
    | leaf id flavor l =>
      rw [Matches, run]
      exact yields_leaf
    | group id flavor shape ts =>
      rw [children] at ih
      cases shape with
      | sequence =>
        rw [Matches, run]
        exact matchesAll_iff ih
      | choice =>
        rw [Matches, run, matchesFirst_iff ih]
        cases runFirst text ts with
        | ok pieces => simp
        | error errors => simp [not_yields_failed]

end Tree

/-- A result says of a label whether a tree matches it, and how. -/
structure WireResult.Reports {φ : Type} (r : WireResult) (t : Tree φ) (label : String) : Prop where
  errors_eq_nil_iff : r.errors = [] ↔ ∃ tokens left, t.Matches label.toList tokens left
  unique {tokens tokens' : List WireToken} {left left' : List Char} :
    t.Matches label.toList tokens left → t.Matches label.toList tokens' left' →
      tokens = tokens' ∧ left = left'
  tokens {tokens : List WireToken} {left : List Char} :
    t.Matches label.toList tokens left → r.tokens = tokens
  success_iff {tokens : List WireToken} {left : List Char} :
    t.Matches label.toList tokens left → (r.success = true ↔ left = [])

namespace Tree

variable {φ : Type}

theorem errors_evaluate_iff {t : Tree φ} {label : String} :
    (t.evaluate label).errors = [] ↔ firstError? (t.run label.toList) = none := by
  rw [firstError?, List.findSome?_eq_none_iff]
  exact List.filterMap_eq_nil_iff

/-- The result for a label reports no error if and only if there is a match, which is the only one
then; it has just the tokens of the match, and succeeds if and only if nothing is left. -/
theorem reports_evaluate (t : Tree φ) (label : String) : (t.evaluate label).Reports t label := by
  constructor
  case errors_eq_nil_iff =>
    simp only [errors_evaluate_iff, matches_iff]
    constructor
    · exact fun h => ⟨_, _, yields_of_clean h _⟩
    · rintro ⟨_, _, h⟩
      exact h.clean
  case unique =>
    intro tokens tokens' left left' h h'
    rw [matches_iff] at h h'
    exact ⟨h.tokens.trans h'.tokens.symm, h.left.trans h'.left.symm⟩
  case tokens =>
    intro tokens left h
    rw [matches_iff] at h
    exact h.tokens.symm
  case success_iff =>
    intro tokens left h
    rw [matches_iff] at h
    have he : (t.evaluate label).errors = [] := errors_evaluate_iff.2 h.clean
    have hl := congrArg List.length (t.sourced_run label.toList).append_drop
    have hs : (t.evaluate label).success =
        ((t.evaluate label).errors.isEmpty &&
          (consumed (t.run label.toList)).length == label.length) := rfl
    rw [List.length_append, ← h.left, String.length_toList] at hl
    rw [hs, he, List.isEmpty_nil, Bool.true_and, beq_iff_eq, ← List.length_eq_zero_iff]
    omega

/-- A choice that matched is not asked again, although another child of it would let the sequence
go on. -/
example : (Tree.group "a" () .sequence [.group "b" () .choice
      [.leaf "c" () (.string "A" "x"), .leaf "d" () (.string "AB" "y")],
    .leaf "e" () (.string "C" "z")]).evaluate "ABC" =
    ⟨false, ["Expected C, got B"], [⟨some "x", some "A", 1, some "c", none⟩,
      ⟨none, none, 0, some "e", some "Expected C, got B"⟩]⟩ := by decide

end Tree

end LabelGrammar
