import LabelGrammar.Proofs.Session.Calls
import LabelGrammar.Proofs.Session.Restore

/-! # Sessions and their stores

A store never falls behind its session: whatever calls came, what is loaded from it is what the
session holds, unless a tree has more than 42 levels.
-/

namespace LabelGrammar

open Forest

/-- An operation that is made of calls, each of which may depend on what came before. What enters
the workspace passes its checks. -/
def Action.Scripted {ε α : Type} (action : Action ε α) : Prop :=
  ∀ w, ∃ calls : List Workspace.Call, (∀ c ∈ calls, c.FieldsValid) ∧
    (action.run w).2 = calls.foldl Workspace.after w

namespace Action.Scripted

variable {ε α β : Type}

theorem of_call {action : Action ε α} {c : Workspace.Call} (hc : c.FieldsValid)
    (h : ∀ w, (action.run w).2 = w.after c) : Scripted action :=
  fun w => ⟨[c], by simpa using hc, h w⟩

theorem bind {action : Action ε α} {f : α → Action ε β} (ha : Scripted action)
    (hf : ∀ a, Scripted (f a)) : Scripted (action >>= f) := by
  intro w
  obtain ⟨calls, hc, hw⟩ := ha w
  rw [run_bind]
  split
  · next a v hr =>
    obtain ⟨calls', hc', hv⟩ := hf a v
    rw [hr] at hw
    refine ⟨calls ++ calls', List.forall_mem_append.2 ⟨hc, hc'⟩, ?_⟩
    rw [hv, List.foldl_append, ← hw]
  · next e v hr =>
    rw [hr] at hw
    exact ⟨calls, hc, hw⟩

end Action.Scripted

/-- No tree of a workspace has more than 42 levels. -/
def Workspace.Shallow (w : Workspace) : Prop := ∀ F, w.forest = .ok F → ∀ t ∈ F, t.height ≤ 42

/-- Two sessions have the same top level, blocks, trees and labels. -/
structure Saved.Same (saved other : Saved) : Prop where
  topLevel : saved.workspace.topLevel = other.workspace.topLevel
  find? (id : NodeId) : saved.workspace.find? id = other.workspace.find? id
  forest : saved.workspace.forest = other.workspace.forest
  corpus : saved.corpus = other.corpus

theorem Represents.foldl_after {w : Workspace} {F : Forest} (h : Represents w F)
    (calls : List Workspace.Call) : ∃ G, Represents (calls.foldl Workspace.after w) G := by
  apply List.foldlRecOn (motive := fun v => ∃ G, Represents v G) calls _ ⟨F, h⟩
  rintro v ⟨G, hG⟩ c -
  exact hG.after c

theorem Workspace.FieldsValid.foldl_after {w : Workspace} (h : w.FieldsValid)
    {calls : List Workspace.Call} (hc : ∀ c ∈ calls, c.FieldsValid) :
    (calls.foldl Workspace.after w).FieldsValid := by
  apply List.foldlRecOn (motive := Workspace.FieldsValid) calls _ h
  intro v hv c hm
  exact hv.after (hc c hm)

namespace Editor

def Call.FieldsValid : Call → Prop
  | .edit action => action.Scripted
  | _ => True

variable {σ : Type} [Store σ]

def saved (e : Editor σ) : Saved := ⟨e.workspace, e.corpus⟩

/-- The session holds a forest, which its store holds as well if no tree is too high. -/
structure Synced (e : Editor σ) : Prop where
  fields : e.workspace.FieldsValid
  stored : ∃ F, Represents e.workspace F ∧ ((∀ t ∈ F, t.height ≤ 42) →
    Represents (Saved.load e.store).workspace F ∧ (Saved.load e.store).corpus = e.corpus)

namespace Synced

variable {e e' : Editor σ}

theorem opened (store : σ) : Synced (opened store) where
  fields := Workspace.fieldsValid_load store
  stored := by
    obtain ⟨F, hF⟩ := (Workspace.Reachable.load store).represents
    exact ⟨F, hF, fun _ => ⟨hF, rfl⟩⟩

theorem of_issues (h : Synced e) (hw : e.workspace.Issues e'.workspace)
    (hc : e'.corpus = e.corpus) (hs : e'.store = e.store) : Synced e' where
  fields := by
    intro b hb
    rw [hw.blocks] at hb
    exact h.fields b hb
  stored := by
    obtain ⟨F, hF, hl⟩ := h.stored
    rw [hc, hs]
    exact ⟨F, hF.of_issues hw, hl⟩

theorem same (h : Synced e) (hs : e.workspace.Shallow) : (Saved.load e.store).Same e.saved := by
  obtain ⟨F, hF, hl⟩ := h.stored
  obtain ⟨hr, hc⟩ := hl (hs F hF.forest_eq)
  exact ⟨hr.topLevel.trans hF.topLevel.symm, hF.find?_eq hr, hr.forest_eq.trans hF.forest_eq.symm,
    hc⟩

theorem save {F : Forest} (hs : Saved.Keeps e.store) (hF : Represents e.workspace F)
    (hw : e.workspace.FieldsValid) : Synced e.save where
  fields := hw
  stored := by
    refine ⟨F, hF, fun hh => ⟨?_, hs.loadCorpus_save _⟩⟩
    exact Saved.loadWorkspace_of_height_le (hs.state hF.toDocuments_eq e.corpus)
      (fun t ht => hF.storable hw ht) hF.legal hF.nodup hh

theorem edit {ε α : Type} {action : Action ε α} (h : Synced e) (hs : Saved.Keeps e.store)
    (ha : action.Scripted) : Synced (e.edit action).2 := by
  rcases e.edit_cases action with ⟨a, -, hr⟩ | ⟨error, hr⟩
  · obtain ⟨calls, hc, hw⟩ := ha e.workspace
    obtain ⟨F, hF, -⟩ := h.stored
    obtain ⟨G, hG⟩ := hF.foldl_after calls
    rw [hr, hw]
    exact save hs hG (h.fields.foldl_after hc)
  · rw [hr]
    exact h.of_issues (Workspace.issues_retire ..) rfl rfl

theorem loadGrammar (h : Synced e) (hs : Saved.Keeps e.store) (text : String) :
    Synced (e.loadGrammar text).2 := by
  rcases e.loadGrammar_cases text with ⟨error, hr⟩ | ⟨t, hp, ha, hr⟩
  · rw [hr]
    exact h
  · rw [hr]
    refine save hs ((Represents.clear e.workspace).place (ha.clear e.workspace)) ?_
    have hc : e.workspace.clear.FieldsValid := fun b hb => by cases hb
    exact hc.append (Document.storable_of_parse hp).fields rfl

theorem importPairs (h : Synced e) (hs : Saved.Keeps e.store) (pairs : List Pair)
    (place : Option Attachment) (flavor : Flavor) (offers : List NodeId) :
    Synced (e.importPairs pairs place flavor offers).2 := by
  obtain ⟨F, hF, -⟩ := h.stored
  rcases e.importPairs_cases pairs place flavor offers with ⟨id, hr⟩ | ⟨error, he, hr⟩
  · obtain ⟨G, hG⟩ := hF.exists_importPairs pairs place flavor offers
    rw [hr]
    exact save hs hG
      (Workspace.FieldsValid.keeps_importPairs pairs place flavor offers _ h.fields).1
  · rw [hr]
    exact h.of_issues (hF.importPairs_refused he) rfl rfl

theorem prepareEvaluation (h : Synced e) (hs : Saved.Keeps e.store) :
    Synced e.prepareEvaluation.2 := by
  rcases e.prepareEvaluation_cases with ⟨error, hr⟩ | ⟨request, hr⟩
  · rw [hr]
    exact h
  · obtain ⟨F, hF, -⟩ := h.stored
    rw [hr]
    exact (save hs hF h.fields).of_issues (.refl _) rfl rfl

theorem applyEvaluation (h : Synced e) (number : RequestNumber) (outcome : Outcome) :
    Synced (e.applyEvaluation number outcome).2 := by
  rcases e.applyEvaluation_cases number outcome with ⟨-, hr⟩ | ⟨-, hr⟩
  · rw [hr]
    exact h.of_issues (.refl _) rfl rfl
  · rw [hr]
    exact h

theorem after (h : Synced e) (hs : Saved.Keeps e.store) {c : Call} (hc : c.FieldsValid) :
    Synced (e.after c) := by
  cases c with
  | edit action => exact h.edit hs hc
  | setCorpus corpus =>
    obtain ⟨F, hF, -⟩ := h.stored
    exact save (e := { e with corpus }) hs hF h.fields
  | loadGrammar text => exact h.loadGrammar hs text
  | importPairs pairs place flavor offers => exact h.importPairs hs pairs place flavor offers
  | reset =>
    exact save (e := { e with workspace := e.workspace.clear, corpus := .empty, outcome := none })
      hs (Represents.clear e.workspace) fun b hb => by cases hb
  | prepareEvaluation => exact h.prepareEvaluation hs
  | applyEvaluation number outcome => exact h.applyEvaluation number outcome
  | evaluate transport policy s =>
    rw [Editor.after]
    rcases e.evaluate_cases transport policy s with ⟨error, -, hr⟩ | ⟨pending, -, hr⟩
    · rw [hr]
      exact h
    · rw [hr]
      exact (h.prepareEvaluation hs).applyEvaluation _ _

theorem run {P : σ → Prop} (hP : Saved.Durable P) (h : Synced e) (hs : P e.store)
    {calls : List Call} (hc : ∀ c ∈ calls, c.FieldsValid) : Synced (e.run calls) := by
  induction calls generalizing e with
  | nil => exact h
  | cons c calls ih =>
    rw [List.forall_mem_cons] at hc
    exact ih (h.after (hP.keeps hs) hc.1) (store_run hP.save hs [c]) hc.2

end Synced

/-- A store that keeps sessions holds this one, and so does a session that is opened with it,
before or after closing. -/
theorem same_of_durable {P : σ → Prop} (hP : Saved.Durable P) {store : σ} (hs : P store)
    {calls : List Call} (hc : ∀ c ∈ calls, c.FieldsValid)
    (hw : ((opened store).run calls).workspace.Shallow) :
    let e := (opened store).run calls
    (Saved.load e.store).Same e.saved ∧ (opened e.store).saved.Same e.saved ∧
      (opened e.close).saved.Same e.saved := by
  have he := (Synced.opened store).run hP hs hc
  obtain ⟨F, hF, -⟩ := he.stored
  have hl := he.same hw
  have hstore : P ((opened store).run calls).store := store_run hP.save hs calls
  exact ⟨hl, hl, (Synced.save (hP.keeps hstore) hF he.fields).same hw⟩

/-- Whatever a store held at first and whatever calls came since, it holds the session, and so
does a session that is opened with it, before or after closing. -/
theorem same_run [ReliableStore σ] (store : σ) {calls : List Call}
    (hc : ∀ c ∈ calls, c.FieldsValid) (hs : ((opened store).run calls).workspace.Shallow) :
    let e := (opened store).run calls
    (Saved.load e.store).Same e.saved ∧ (opened e.store).saved.Same e.saved ∧
      (opened e.close).saved.Same e.saved :=
  same_of_durable Saved.durable trivial hc hs

/-- A rest is added below a new sequence. -/
def addRoot : Action WorkspaceError Unit := do
  let root ← Workspace.addBlock (.group .sequence) none ["a"]
  let child ← Workspace.addBlock (.leaf (.rest "room")) none ["b"]
  Workspace.connect child ⟨root, none⟩

theorem scripted_addRoot : addRoot.Scripted := by
  have hrest : (Rule.leaf (.rest "room")).Valid := by decide
  refine .bind (.of_call (c := .addBlock ..) (Rule.valid_group _) fun _ => rfl) fun root => ?_
  refine .bind (.of_call (c := .addBlock ..) hrest fun _ => rfl) fun child => ?_
  exact .of_call (c := .connect ..) trivial fun _ => rfl

theorem same_run_addRoot :
    let e := (opened (⟨[(Saved.stateKey, "no grammar")]⟩ : MemoryStore)).run
      [.edit addRoot, .setCorpus ⟨["101"]⟩,
        .edit (addRoot >>= fun _ => Workspace.connect "a" ⟨"a", none⟩), .prepareEvaluation]
    e.workspace.topLevel = ["a"] ∧ (Saved.load e.store).Same e.saved ∧
      (opened e.store).saved.Same e.saved ∧ (opened e.close).saved.Same e.saved := by
  refine ⟨rfl, same_run _ ?_ ?_⟩
  · rintro c hc
    simp only [List.mem_cons, List.not_mem_nil, or_false] at hc
    rcases hc with rfl | rfl | rfl | rfl
    · exact scripted_addRoot
    · trivial
    · exact .bind scripted_addRoot fun _ => .of_call (c := .connect ..) trivial fun _ => rfl
    · trivial
  · intro F hF
    obtain rfl := Except.ok.inj hF
    decide

end Editor

end LabelGrammar
