import LabelGrammar.Proofs.Session.Synchrony
import LabelGrammar.Proofs.Workspace.Issued

/-! # Calls that a session refuses

A call that fails leaves a session and its store as they were, except that ids stay issued that it
drew or admitted before it failed.
-/

namespace LabelGrammar

/-- An operation that is made of calls, each of which may depend on what came before. -/
def Action.Composed {ε α : Type} (action : Action ε α) : Prop :=
  ∀ w, ∃ calls : List Workspace.Call, (action.run w).2 = calls.foldl Workspace.after w

theorem Action.Scripted.composed {ε α : Type} {action : Action ε α} (h : Scripted action) :
    Composed action := by
  intro w
  obtain ⟨calls, -, hw⟩ := h w
  exact ⟨calls, hw⟩

namespace Workspace

variable {w : Workspace}

theorem Reachable.foldl_after (h : Reachable w) (calls : List Call) :
    Reachable (calls.foldl after w) :=
  List.foldlRecOn (motive := Reachable) calls _ h fun _ hv c _ => .call c hv

theorem Reachable.run (h : Reachable w) {ε α : Type} {action : Action ε α}
    (ha : action.Composed) : Reachable (action.run w).2 := by
  obtain ⟨calls, hw⟩ := ha w
  rw [hw]
  exact h.foldl_after calls

end Workspace

namespace Editor

variable {σ : Type}

/-- Another session has the same blocks, labels, store, numbers and result; further ids may have
been issued. -/
structure Unchanged (e e' : Editor σ) : Prop where
  workspace : e.workspace.Issues e'.workspace
  corpus : e'.corpus = e.corpus
  store : e'.store = e.store
  numbering : e'.numbering = e.numbering
  outcome : e'.outcome = e.outcome

theorem Unchanged.of_issues {e : Editor σ} {w : Workspace} (h : e.workspace.Issues w) :
    e.Unchanged { e with workspace := w } := ⟨h, rfl, rfl, rfl, rfl⟩

variable [Store σ]

/-- An edit is made of calls to the workspace. -/
def Call.Composed : Call → Prop
  | .edit action => action.Composed
  | _ => True

/-- The sessions that calls lead to from any store, which may be exchanged for another one
meanwhile. -/
inductive Reachable : Editor σ → Prop where
  | opened (store : σ) : Reachable (opened store)
  | call {e : Editor σ} {c : Call} : Reachable e → c.Composed → Reachable (e.after c)
  | exchange {e : Editor σ} (store : σ) : Reachable e → Reachable { e with store }

/-- What fails changes nothing but the issued ids, and these only by ids that the call drew or
admitted. A grammar that an empty workspace accepts does not fail on a cleared one. -/
structure Atomic (e : Editor σ) : Prop where
  edit {ε α : Type} (action : Action ε α) (error : ε) : (e.edit action).1 = .error error →
    e.Unchanged (e.edit action).2 ∧
    ∀ calls, (action.run e.workspace).2 = calls.foldl Workspace.after e.workspace →
      ∀ id ∈ (e.edit action).2.workspace.issued,
        id ∈ e.workspace.issued ∨ e.workspace.Obtained calls id
  loadGrammar (text : String) (error : GrammarError) :
    (e.loadGrammar text).1 = .error error → (e.loadGrammar text).2 = e
  importPairs (pairs : List Pair) (place : Option Attachment) (flavor : Flavor)
    (offers : List NodeId) (error : ImportError) :
    (e.importPairs pairs place flavor offers).1 = .error error →
    (e.importPairs pairs place flavor offers).2 =
      { e with workspace := e.workspace.draw offers ((Workspace.validRows pairs).length + 1) }
  prepareEvaluation (error : EvaluationError) :
    e.prepareEvaluation.1 = .error error → e.prepareEvaluation.2 = e
  cleared (t : Tree Flavor) (v : Workspace) : Workspace.ofTree t = .ok v →
    (Workspace.insertTree t none).run e.workspace.clear = (.ok t.id, e.workspace.clear.place t)

variable {e : Editor σ}

theorem workspace_prepareEvaluation (e : Editor σ) :
    e.prepareEvaluation.2.workspace = e.workspace := by
  rcases e.prepareEvaluation_cases with ⟨error, hr⟩ | ⟨request, hr⟩
  · rw [hr]
  · rw [hr]
    rfl

omit [Store σ] in
theorem workspace_applyEvaluation (e : Editor σ) (number : RequestNumber) (outcome : Outcome) :
    (e.applyEvaluation number outcome).2.workspace = e.workspace := by
  rcases e.applyEvaluation_cases number outcome with ⟨-, hr⟩ | ⟨-, hr⟩
  · rw [hr]
  · rw [hr]

/-- Every call of a session makes calls to its workspace, or none. -/
theorem reachable_after (h : e.workspace.Reachable) {c : Call} (hc : c.Composed) :
    (e.after c).workspace.Reachable := by
  cases c with
  | edit action =>
    rcases e.edit_cases action with ⟨a, -, hr⟩ | ⟨error, hr⟩
    · rw [after, hr]
      exact h.run hc
    · rw [after, hr]
      exact .rollBack (h.run hc) h
  | setCorpus corpus => exact h
  | loadGrammar text =>
    rcases e.loadGrammar_cases text with ⟨error, hr⟩ | ⟨t, -, ha, hr⟩
    · rwa [after, hr]
    · have hi := Workspace.Reachable.call (.insertTree t none) (.call .clear h)
      rw [Workspace.after, Workspace.after, Workspace.run_insertTree (ha.clear e.workspace)] at hi
      rw [after, hr]
      exact hi
  | importPairs pairs place flavor offers =>
    have hi := Workspace.Reachable.call (.importPairs pairs place flavor offers) h
    rcases e.importPairs_cases pairs place flavor offers with ⟨id, hr⟩ | ⟨error, -, hr⟩
    · rw [after, hr]
      exact hi
    · rw [after, hr]
      exact hi
  | reset => exact .call .clear h
  | prepareEvaluation => rwa [after, workspace_prepareEvaluation]
  | applyEvaluation number outcome => rwa [after, workspace_applyEvaluation]
  | evaluate transport policy s =>
    rcases e.evaluate_cases transport policy s with ⟨error, -, hr⟩ | ⟨pending, -, hr⟩
    · rwa [after, hr]
    · rwa [after, hr, after, after, workspace_applyEvaluation, workspace_prepareEvaluation]

theorem Reachable.workspace (h : Reachable e) : e.workspace.Reachable := by
  induction h with
  | opened store => exact .load store
  | call _ hc ih => exact reachable_after ih hc
  | exchange store _ ih => exact ih

theorem edit_refused {F : Forest} (h : Represents e.workspace F) {ε α : Type}
    {action : Action ε α} {error : ε} (he : (e.edit action).1 = .error error) :
    e.Unchanged (e.edit action).2 ∧
    ∀ calls, (action.run e.workspace).2 = calls.foldl Workspace.after e.workspace →
      ∀ id ∈ (e.edit action).2.workspace.issued,
        id ∈ e.workspace.issued ∨ e.workspace.Obtained calls id := by
  rcases e.edit_cases action with ⟨a, -, hr⟩ | ⟨_, hr⟩
  · rw [hr] at he
    cases he
  · rw [hr]
    refine ⟨.of_issues (Workspace.issues_retire ..), ?_⟩
    rintro calls hc id hi
    rcases Workspace.mem_issued_retire hi with hi | hi
    · exact .inl hi
    · rw [hc] at hi
      exact Workspace.mem_issued_foldl_after h hi

/-- Whatever calls came and whatever the store holds by now, a call that fails leaves the session
and the store as they were. -/
theorem atomic_of_calls (h : Reachable e) : e.Atomic := by
  obtain ⟨F, hF⟩ := h.workspace.represents
  constructor
  case edit =>
    intro ε α action error
    exact edit_refused hF
  case loadGrammar =>
    intro text error he
    rcases e.loadGrammar_cases text with ⟨_, hr⟩ | ⟨t, -, -, hr⟩
    · rw [hr]
    · rw [hr] at he
      cases he
  case importPairs =>
    intro pairs place flavor offers error he
    rcases e.importPairs_cases pairs place flavor offers with ⟨id, hr⟩ | ⟨_, hx, hr⟩
    · rw [hr] at he
      cases he
    · rw [hr, Workspace.run_importPairs_refused hF hx]
  case prepareEvaluation =>
    intro error he
    rcases e.prepareEvaluation_cases with ⟨_, hr⟩ | ⟨request, hr⟩
    · rw [hr]
    · rw [hr] at he
      cases he
  case cleared =>
    intro t v ht
    exact Workspace.run_insertTree ((Workspace.admits_of_ofTree ht).clear e.workspace)

def addLoop : Action WorkspaceError Unit := do
  addRoot
  Workspace.connect "a" ⟨"a", none⟩

theorem atomic_addRoot :
    let e := (opened (⟨[(Saved.stateKey, "no grammar")]⟩ : MemoryStore)).run [.edit addRoot]
    (e.edit addLoop).1 = .error (.cycle "a" "a") ∧ e.Unchanged (e.edit addLoop).2 ∧
      e.workspace.issued = ["a", "b"] ∧
      (e.edit addLoop).2.workspace.issued = ["a", "b", "aa", "aaa"] ∧
      (e.loadGrammar "[]").2 = e := by
  have h : Reachable ((opened (⟨[(Saved.stateKey, "no grammar")]⟩ : MemoryStore)).run
    [.edit addRoot]) := .call (c := .edit addRoot) (.opened _) scripted_addRoot.composed
  refine ⟨by decide, ((atomic_of_calls h).edit addLoop (.cycle "a" "a") (by decide)).1, ?_, ?_, ?_⟩
  · decide
  · decide
  · exact (atomic_of_calls h).loadGrammar "[]" (.malformed .root .notAnObject) rfl

end Editor

end LabelGrammar
