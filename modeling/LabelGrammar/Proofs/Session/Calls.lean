import LabelGrammar.Proofs.Workspace.Admission
import LabelGrammar.Session.Editor

/-! # Calls of a session

A run of a session is a list of calls. What each of them can do is said once, in a lemma with a case
for its acceptance and one for its refusal.
-/

namespace LabelGrammar

theorem Workspace.Admits.clear {t : Tree Flavor} (h : empty.Admits t) (w : Workspace) :
    w.clear.Admits t where
  nodup := h.nodup
  fresh _ _ := rfl
  denotes := h.denotes
  restLast := h.restLast

namespace Editor

variable {σ : Type} [Store σ]

/-- A call of an operation of a session. An evaluation comes with its transport, and an edit may
be any operation on the workspace. -/
inductive Call : Type 1 where
  | edit {ε α : Type} (action : Action ε α)
  | setCorpus (corpus : Corpus)
  | loadGrammar (text : String)
  | importPairs (pairs : List Pair) (place : Option Attachment) (flavor : Flavor)
      (offers : List NodeId)
  | reset
  | prepareEvaluation
  | applyEvaluation (number : RequestNumber) (outcome : Outcome)
  | evaluate {τ : Type} (transport : Transport τ) (policy : RetryPolicy) (s : τ)

def after (e : Editor σ) : Call → Editor σ
  | .edit action => (e.edit action).2
  | .setCorpus corpus => e.setCorpus corpus
  | .loadGrammar text => (e.loadGrammar text).2
  | .importPairs pairs place flavor offers => (e.importPairs pairs place flavor offers).2
  | .reset => e.reset
  | .prepareEvaluation => e.prepareEvaluation.2
  | .applyEvaluation number outcome => (e.applyEvaluation number outcome).2
  | .evaluate transport policy s => (e.evaluate transport policy s).2.1

def run (e : Editor σ) (calls : List Call) : Editor σ := calls.foldl after e

theorem edit_cases {ε α : Type} (action : Action ε α) (e : Editor σ) :
    (∃ a, (action.run e.workspace).1 = .ok a ∧
      e.edit action = (.ok a, save { e with workspace := (action.run e.workspace).2 })) ∨
    ∃ error, e.edit action = (.error error,
      { e with workspace := (action.run e.workspace).2.rollBack e.workspace }) := by
  unfold edit
  rcases action.run e.workspace with ⟨error | a, w⟩
  · exact .inr ⟨error, rfl⟩
  · exact .inl ⟨a, rfl, rfl⟩

/-- A grammar is refused before the workspace is cleared, or it is inserted. -/
theorem loadGrammar_cases (text : String) (e : Editor σ) :
    (∃ error, e.loadGrammar text = (.error error, e)) ∨
    ∃ t, Document.parse text = .ok t ∧ Workspace.empty.Admits t ∧
      e.loadGrammar text = (.ok t.id, save { e with workspace := e.workspace.clear.place t }) := by
  unfold loadGrammar
  cases hp : Document.parse text with
  | error error => exact .inl ⟨error, rfl⟩
  | ok t =>
    cases hw : Workspace.ofTree t with
    | error error => exact .inl ⟨.workspace error, by simp only [hw]⟩
    | ok w =>
      have ha := Workspace.admits_of_ofTree hw
      refine .inr ⟨t, rfl, ha, ?_⟩
      simp only [hw, Workspace.run_insertTree (ha.clear e.workspace)]

theorem importPairs_cases (pairs : List Pair) (place : Option Attachment) (flavor : Flavor)
    (offers : List NodeId) (e : Editor σ) :
    let result := (Workspace.importPairs pairs place flavor offers).run e.workspace
    (∃ id, e.importPairs pairs place flavor offers =
      (.ok id, save { e with workspace := result.2 })) ∨
    ∃ error, result.1 = .error error ∧ e.importPairs pairs place flavor offers =
      (.error error, { e with workspace := result.2 }) := by
  unfold importPairs
  rcases (Workspace.importPairs pairs place flavor offers).run e.workspace with ⟨error | id, w⟩
  · exact .inr ⟨error, rfl, rfl⟩
  · exact .inl ⟨id, rfl⟩

theorem prepareEvaluation_cases (e : Editor σ) :
    (∃ error, e.prepareEvaluation = (.error error, e)) ∨
    ∃ request, e.prepareEvaluation = (.ok ⟨⟨e.numbering.count + 1⟩, request⟩,
      { e.save with numbering := ⟨e.numbering.count + 1⟩ }) := by
  unfold prepareEvaluation
  cases e.workspace.toDocument .external with
  | error error => exact .inl ⟨_, rfl⟩
  | ok grammar => exact .inr ⟨_, rfl⟩

omit [Store σ] in
theorem applyEvaluation_cases (number : RequestNumber) (outcome : Outcome) (e : Editor σ) :
    (number.value = e.numbering.count ∧
      e.applyEvaluation number outcome = (true, { e with outcome := some outcome })) ∨
    number.value ≠ e.numbering.count ∧ e.applyEvaluation number outcome = (false, e) := by
  unfold applyEvaluation Numbering.isCurrent
  by_cases h : number.value = e.numbering.count
  · exact .inl ⟨h, by simp [h]⟩
  · exact .inr ⟨h, by simp [h]⟩

theorem store_prepareEvaluation (e : Editor σ) :
    (e.after .prepareEvaluation).store = e.store ∨
      ∃ saved, (e.after .prepareEvaluation).store = Saved.save saved e.store := by
  rw [after]
  rcases e.prepareEvaluation_cases with ⟨error, hr⟩ | ⟨request, hr⟩
  · rw [hr]
    exact .inl rfl
  · rw [hr]
    exact .inr ⟨_, rfl⟩

theorem store_applyEvaluation (number : RequestNumber) (outcome : Outcome) (e : Editor σ) :
    (e.after (.applyEvaluation number outcome)).store = e.store := by
  rw [after]
  rcases e.applyEvaluation_cases number outcome with ⟨-, h⟩ | ⟨-, h⟩
  · rw [h]
  · rw [h]

omit [Store σ] in
theorem applyEvaluation_eq_true_iff {number : RequestNumber} {outcome : Outcome} {e : Editor σ} :
    (e.applyEvaluation number outcome).1 = true ↔ number.value = e.numbering.count := by
  rcases e.applyEvaluation_cases number outcome with ⟨hn, h⟩ | ⟨hn, h⟩
  · simp [h, hn]
  · simp [h, hn]

theorem evaluate_cases {τ : Type} (transport : Transport τ) (policy : RetryPolicy) (e : Editor σ)
    (s : τ) :
    (∃ error, e.prepareEvaluation = (.error error, e) ∧
      e.evaluate transport policy s = (.error error, e, s)) ∨
    ∃ pending, e.prepareEvaluation = (.ok pending, e.after .prepareEvaluation) ∧
      (e.evaluate transport policy s).2.1 = (e.after .prepareEvaluation).after
        (.applyEvaluation pending.number (transport.send policy pending.request s).1) := by
  unfold evaluate
  rcases e.prepareEvaluation_cases with ⟨error, h⟩ | ⟨request, h⟩
  · exact .inl ⟨error, h, by simp only [h]⟩
  · refine .inr ⟨_, by rw [after, h], ?_⟩
    simp only [after, h]

/-- A call saves the session at most once. -/
theorem store_after (c : Call) (e : Editor σ) : (e.after c).store = e.store ∨
    ∃ saved, (e.after c).store = Saved.save saved e.store := by
  cases c with
  | edit action =>
    rw [after]
    rcases e.edit_cases action with ⟨a, -, hr⟩ | ⟨error, hr⟩
    · rw [hr]
      exact .inr ⟨_, rfl⟩
    · rw [hr]
      exact .inl rfl
  | setCorpus | reset => exact .inr ⟨_, rfl⟩
  | loadGrammar text =>
    rw [after]
    rcases e.loadGrammar_cases text with ⟨error, hr⟩ | ⟨t, -, -, hr⟩
    · rw [hr]
      exact .inl rfl
    · rw [hr]
      exact .inr ⟨_, rfl⟩
  | importPairs pairs place flavor offers =>
    rw [after]
    rcases e.importPairs_cases pairs place flavor offers with ⟨id, hr⟩ | ⟨error, -, hr⟩
    · rw [hr]
      exact .inr ⟨_, rfl⟩
    · rw [hr]
      exact .inl rfl
  | prepareEvaluation => exact e.store_prepareEvaluation
  | applyEvaluation number outcome => exact .inl (e.store_applyEvaluation number outcome)
  | evaluate transport policy s =>
    rw [after]
    rcases e.evaluate_cases transport policy s with ⟨error, hp, hr⟩ | ⟨pending, hp, hr⟩
    · rw [hr]
      exact .inl rfl
    · rw [hr, store_applyEvaluation]
      exact e.store_prepareEvaluation

/-- What saving keeps of a store holds after any calls. -/
theorem store_run {P : σ → Prop} (hP : ∀ {s}, P s → ∀ saved, P (Saved.save saved s)) {e : Editor σ}
    (h : P e.store) (calls : List Call) : P (e.run calls).store := by
  induction calls generalizing e with
  | nil => exact h
  | cons c calls ih =>
    refine ih ?_
    rcases e.store_after c with hs | ⟨saved, hs⟩
    · rwa [hs]
    · rw [hs]
      exact hP h saved

end Editor

end LabelGrammar
