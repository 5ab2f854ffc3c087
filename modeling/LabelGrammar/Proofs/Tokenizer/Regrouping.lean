import LabelGrammar.Proofs.Tokenizer.Failures

/-! # Regrouping a grammar

Sequences within sequences and choices within choices can be opened, and sequences without effect
left out. Two trees that differ in this way give the same result for every label, also if it fails.
-/

namespace LabelGrammar

/-- A text that is joined of others can stand for them where all are joined. -/
theorem intercalate_splice (separator : String) {es : List String} (h : es ≠ [])
    (before after : List String) :
    separator.intercalate (before ++ separator.intercalate es :: after) =
      separator.intercalate (before ++ (es ++ after)) := by
  induction before with
  | nil =>
    cases after with
    | nil => simp
    | cons e after =>
      have ha : e :: after ≠ [] := List.cons_ne_nil e after
      rw [List.nil_append, List.nil_append, String.intercalate_cons_of_ne_nil ha,
        String.intercalate_append_of_ne_nil h ha]
  | cons e before ih =>
    have hs : before ++ separator.intercalate es :: after ≠ [] := by simp
    have ht : before ++ (es ++ after) ≠ [] := by simp [h]
    rw [List.cons_append, List.cons_append, String.intercalate_cons_of_ne_nil hs,
      String.intercalate_cons_of_ne_nil ht, ih]

open Piece

namespace Tree

variable {φ : Type}

def Bare (t : Tree φ) : Prop := ∀ u ∈ t.subtrees, u.kind = .sequence

/-- One tree is another one with some of its nodes grouped differently, at one place. -/
inductive Regroups : Tree φ → Tree φ → Prop where
  /-- The children of a sequence join those of the sequence around it. -/
  | spliceSequence {id id' : NodeId} {flavor flavor' : φ} {before ts after : List (Tree φ)} :
      Regroups (.group id flavor .sequence (before ++ .group id' flavor' .sequence ts :: after))
        (.group id flavor .sequence (before ++ (ts ++ after)))
  /-- An only child stands for its sequence. -/
  | unwrap {id : NodeId} {flavor : φ} {t : Tree φ} : Regroups (.group id flavor .sequence [t]) t
  /-- A child of sequences only is left out. -/
  | drop {id : NodeId} {flavor : φ} {shape : Shape} {before after : List (Tree φ)} {c : Tree φ} :
      c.Bare → Regroups (.group id flavor shape (before ++ c :: after))
        (.group id flavor shape (before ++ after))
  /-- The children of a choice join those of the choice around it. One of them has to matter. -/
  | spliceChoice {id id' : NodeId} {flavor flavor' : φ} {before ts after : List (Tree φ)} :
      (∃ c ∈ ts, ¬ c.Bare) →
      Regroups (.group id flavor .choice (before ++ .group id' flavor' .choice ts :: after))
        (.group id flavor .choice (before ++ (ts ++ after)))
  | inside {id : NodeId} {flavor : φ} {shape : Shape} {before after : List (Tree φ)}
      {t u : Tree φ} : Regroups t u →
      Regroups (.group id flavor shape (before ++ t :: after))
        (.group id flavor shape (before ++ u :: after))

variable {t u : Tree φ} {ts us : List (Tree φ)} {text : List Char}

theorem bare_iff : t.Bare ↔ t.kind = .sequence ∧ ∀ c ∈ t.children, c.Bare := by
  simp only [Bare, t.subtrees_eq, List.forall_mem_cons, List.forall_mem_flatMap]

theorem runAll_eq_nil_iff (h : ∀ t ∈ ts, ∀ text, t.run text = [] ↔ t.Bare) :
    runAll text ts = [] ↔ ∀ t ∈ ts, t.Bare := by
  induction ts generalizing text with
  | nil => simp [runAll]
  | cons t ts ih =>
    rw [List.forall_mem_cons] at h ⊢
    rw [← h.1 text, runAll]
    split
    · next he =>
      have hne : t.run text ≠ [] := by
        intro hp
        rw [hp] at he
        cases he
      simp [hne]
    · rw [List.append_eq_nil_iff, ih h.2]

/-- A tree makes no piece of a text if and only if it has neither a leaf nor a choice. -/
theorem run_eq_nil_iff (t : Tree φ) (text : List Char) : t.run text = [] ↔ t.Bare := by
  induction t using children_induction generalizing text with
  | step t ih =>
    cases t with
    | leaf id flavor l =>
      have hb : ¬ (leaf id flavor l).Bare :=
        fun h => kind_leaf_ne_sequence id flavor l (bare_iff.1 h).1
      simp [run, hb]
    | group id flavor shape ts =>
      cases shape with
      | sequence =>
        rw [run, bare_iff]
        exact (runAll_eq_nil_iff ih).trans (and_iff_right rfl).symm
      | choice =>
        have hk : (group id flavor .choice ts).kind ≠ .sequence := by rintro ⟨⟩
        have hb : ¬ (group id flavor .choice ts).Bare := fun h => hk (bare_iff.1 h).1
        rw [run, iff_false_right hb]
        split
        · next hr => exact (clean_of_runFirst hr).2
        · exact List.cons_ne_nil _ _

theorem runAll_congr (h : ∀ text, runAll text ts = runAll text us) (before : List (Tree φ)) :
    runAll text (before ++ ts) = runAll text (before ++ us) := by
  induction before generalizing text with
  | nil => exact h text
  | cons c before ih => simp only [List.cons_append, runAll, ih]

theorem runFirst_congr (h : runFirst text ts = runFirst text us) (before : List (Tree φ)) :
    runFirst text (before ++ ts) = runFirst text (before ++ us) := by
  induction before with
  | nil => exact h
  | cons c before ih => simp only [List.cons_append, runFirst, ih]

theorem runAll_cons_of_nil (h : t.run text = []) : runAll text (t :: ts) = runAll text ts := by
  simp [runAll, h, firstError?, consumed]

theorem runFirst_cons_of_nil (h : t.run text = []) :
    runFirst text (t :: ts) = runFirst text ts := by
  simp [runFirst, h, firstError?]

theorem runAll_singleton : runAll text [t] = t.run text := by
  simp [runAll]

theorem runAll_splice (id : NodeId) (flavor : φ) :
    runAll text (.group id flavor .sequence ts :: us) = runAll text (ts ++ us) := by
  rw [runAll, run]
  induction ts generalizing text with
  | nil => simp [runAll, firstError?, consumed]
  | cons t ts ih =>
    rw [List.cons_append, runAll, runAll]
    cases ht : firstError? (t.run text) with
    | some e => simp [ht]
    | none =>
      simp only [Option.isSome_none, Bool.false_eq_true, if_false]
      rw [firstError?_append, ht, Option.none_or, consumed_append, List.length_append,
        ← List.drop_drop, ← ih]
      split
      · rfl
      · rw [List.append_assoc]

theorem runFirst_append : runFirst text (ts ++ us) =
    match runFirst text ts with
    | .ok pieces => .ok pieces
    | .error errors => (runFirst text us).mapError (errors ++ ·) := by
  induction ts with
  | nil => cases h : runFirst text us <;> simp [runFirst, Except.mapError, h]
  | cons t ts ih =>
    rw [List.cons_append, runFirst, runFirst, ih]
    split
    · cases runFirst text ts with
      | ok pieces => rfl
      | error errors => cases runFirst text us <;> rfl
    · split <;> rfl

theorem errors_ne_nil (hm : ∃ c ∈ ts, ¬ c.Bare) {errors : List String}
    (hr : runFirst text ts = .error errors) : errors ≠ [] := by
  obtain ⟨c, hc, hb⟩ := hm
  obtain ⟨rfl, hall⟩ := errors_of_runFirst (fun t _ => t.fails_run) hr
  intro hn
  rcases hall c hc with ⟨e, he⟩ | ⟨-, ht⟩
  · cases he.symm.trans (List.flatMap_eq_nil_iff.1 hn c hc)
  · apply hb
    rw [evaluate, String.toList_ofList] at ht
    exact (c.run_eq_nil_iff text).1 (List.map_eq_nil_iff.1 ht)

/-- What a choice makes of the outcome of its children. -/
def choose (id : NodeId) : Except (List String) (List Piece) → List Piece
  | .ok pieces => pieces
  | .error errors => [.failed id (" | ".intercalate errors)]

theorem run_choice (id : NodeId) (flavor : φ) :
    run text (.group id flavor .choice ts) = choose id (runFirst text ts) := by
  rw [run]
  cases runFirst text ts <;> rfl

/-- A choice among other children has the effect that its own children would have. -/
theorem choose_splice (id id' : NodeId) (flavor : φ) (hm : ∃ c ∈ ts, ¬ c.Bare)
    (before after : List (Tree φ)) :
    choose id (runFirst text (before ++ .group id' flavor .choice ts :: after)) =
      choose id (runFirst text (before ++ (ts ++ after))) := by
  rw [runFirst_append, runFirst_append, runFirst, run_choice, runFirst_append]
  cases hr : runFirst text ts with
  | ok pieces =>
    obtain ⟨hc, hp⟩ := clean_of_runFirst hr
    simp [choose, hc, hp]
  | error errors =>
    have hs := intercalate_splice " | " (errors_ne_nil hm hr)
    cases runFirst text before with
    | ok pieces => rfl
    | error errors' =>
      cases runFirst text after with
      | ok pieces => rfl
      | error errors'' => simp [choose, firstError?, error?, Except.mapError, hs]

theorem Regroups.run_eq (h : t.Regroups u) (text : List Char) : t.run text = u.run text := by
  induction h generalizing text with
  | spliceSequence => rw [run, run, runAll_congr fun text => runAll_splice _ _]
  | unwrap => rw [run, runAll_singleton]
  | @drop _ _ shape before after c hc =>
    have hn (text : List Char) := (c.run_eq_nil_iff text).2 hc
    cases shape with
    | sequence => rw [run, run, runAll_congr fun text => runAll_cons_of_nil (hn text)]
    | choice => rw [run_choice, run_choice, runFirst_congr (runFirst_cons_of_nil (hn text))]
  | spliceChoice hm => rw [run_choice, run_choice, choose_splice _ _ _ hm]
  | @inside _ _ shape before after t u _ ih =>
    cases shape with
    | sequence =>
      rw [run, run, runAll_congr fun text => ?_]
      rw [runAll, runAll, ih]
    | choice =>
      rw [run_choice, run_choice, runFirst_congr ?_]
      rw [runFirst, runFirst, ih]

/-- Regrouping a tree at any of its nodes does not change what it makes of a label, that is its
tokens with their sources, its errors and its success. -/
theorem evaluate_of_regroups (h : t.Regroups u) (label : String) :
    t.evaluate label = u.evaluate label := by
  rw [evaluate, evaluate, h.run_eq]

/-- A choice is opened within a sequence, where both choices fail. -/
theorem evaluate_of_regroups_spliceChoice :
    let string := fun id pattern => Tree.leaf id () (.string pattern "x")
    let inner := [Tree.group "d" () .sequence [], string "e" "B", string "f" "C"]
    let t := Tree.group "a" () .sequence
      [string "b" "A", .group "c" () .choice [.group "g" () .choice inner, string "h" "D"]]
    let u := Tree.group "a" () .sequence
      [string "b" "A", .group "c" () .choice (inner ++ [string "h" "D"])]
    t.Regroups u ∧ t.evaluate "AE" = u.evaluate "AE" ∧
      (u.evaluate "AE").errors = ["Expected B, got E | Expected C, got E | Expected D, got E"] := by
  intro string inner t u
  have hm : ∃ c ∈ inner, ¬ c.Bare := by
    refine ⟨string "e" "B", by simp [inner], fun h => ?_⟩
    cases h _ (self_mem_subtrees _)
  have hc := @Regroups.spliceChoice Unit "c" "g" () () [] inner [string "h" "D"] hm
  have h : t.Regroups u := @Regroups.inside _ "a" () .sequence [string "b" "A"] [] _ _ hc
  exact ⟨h, evaluate_of_regroups h "AE", by decide⟩

/-- A choice without anything to choose is an alternative all the same, with an empty error. -/
example :
    (Tree.group "a" () .choice [.group "b" () .choice [], .leaf "c" () (.string "A" "x")]).evaluate
      "B" ≠ (Tree.group "a" () .choice [.leaf "c" () (.string "A" "x")]).evaluate "B" := by
  decide

end Tree

end LabelGrammar
