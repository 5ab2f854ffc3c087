import LabelGrammar.Proofs.Session.Synchrony
import LabelGrammar.Store.Faulty

/-! # Sessions over failing stores

A session reads its store only when it is opened. It goes on after a failed write as after one that
went through, and what fails under one key is no hindrance to the other.
-/

namespace LabelGrammar

open Saved

namespace Saved

variable {σ τ : Type} [Store σ] [Store τ] {s : σ} {s' : τ}

theorem loadWorkspace_congr (h : Store.get s' stateKey = Store.get s stateKey) :
    loadWorkspace s' = loadWorkspace s := by
  rw [loadWorkspace, readText?, h, loadWorkspace, readText?]

theorem loadCorpus_congr (h : Store.get s' labelsKey = Store.get s labelsKey) :
    loadCorpus s' = loadCorpus s := by
  rw [loadCorpus, readText?, h, loadCorpus, readText?]

end Saved

namespace Editor

variable {σ τ : Type}

/-- Two sessions that differ in their stores at most. -/
structure Alike (e : Editor σ) (e' : Editor τ) : Prop where
  workspace : e.workspace = e'.workspace
  corpus : e.corpus = e'.corpus
  numbering : e.numbering = e'.numbering
  outcome : e.outcome = e'.outcome

def Agree {α : Type} (r : α × Editor σ) (r' : α × Editor τ) : Prop := r.1 = r'.1 ∧ r.2.Alike r'.2

variable [Store σ] [Store τ]

namespace Alike

variable {e : Editor σ} {e' : Editor τ}

theorem opened {s : σ} {s' : τ} (h : load s = load s') : Alike (opened s) (opened s') :=
  ⟨congrArg Saved.workspace h, congrArg Saved.corpus h, rfl, rfl⟩

theorem edit (h : Alike e e') {ε α : Type} (action : Action ε α) :
    Agree (e.edit action) (e'.edit action) := by
  unfold Editor.edit
  rw [h.workspace]
  split
  · exact ⟨rfl, rfl, h.corpus, h.numbering, h.outcome⟩
  · exact ⟨rfl, rfl, h.corpus, h.numbering, h.outcome⟩

theorem loadGrammar (h : Alike e e') (text : String) :
    Agree (e.loadGrammar text) (e'.loadGrammar text) := by
  unfold Editor.loadGrammar
  rw [h.workspace]
  split
  · exact ⟨rfl, h⟩
  split
  · exact ⟨rfl, h⟩
  split
  · exact ⟨rfl, rfl, h.corpus, h.numbering, h.outcome⟩
  · exact ⟨rfl, rfl, h.corpus, h.numbering, h.outcome⟩

theorem importPairs (h : Alike e e') (pairs : List Pair) (place : Option Attachment)
    (flavor : Flavor) (offers : List NodeId) :
    Agree (e.importPairs pairs place flavor offers) (e'.importPairs pairs place flavor offers) := by
  unfold Editor.importPairs
  rw [h.workspace]
  split
  · exact ⟨rfl, rfl, h.corpus, h.numbering, h.outcome⟩
  · exact ⟨rfl, rfl, h.corpus, h.numbering, h.outcome⟩

theorem prepareEvaluation (h : Alike e e') : Agree e.prepareEvaluation e'.prepareEvaluation := by
  unfold Editor.prepareEvaluation
  rw [h.workspace]
  split
  · exact ⟨rfl, h⟩
  · simp only [Editor.save, h.numbering, h.corpus]
    exact ⟨rfl, h.workspace, rfl, rfl, h.outcome⟩

omit [Store σ] [Store τ] in
theorem applyEvaluation (h : Alike e e') (number : RequestNumber) (outcome : Outcome) :
    Agree (e.applyEvaluation number outcome) (e'.applyEvaluation number outcome) := by
  unfold Editor.applyEvaluation
  rw [h.numbering]
  split
  · exact ⟨rfl, h.workspace, h.corpus, rfl, rfl⟩
  · exact ⟨rfl, h⟩

theorem evaluate (h : Alike e e') {υ : Type} (transport : Transport υ) (policy : RetryPolicy)
    (s : υ) :
    let r := e.evaluate transport policy s
    let r' := e'.evaluate transport policy s
    r.1 = r'.1 ∧ r.2.2 = r'.2.2 ∧ r.2.1.Alike r'.2.1 := by
  obtain ⟨hp, ha⟩ := h.prepareEvaluation
  unfold Editor.evaluate
  rcases hr : e.prepareEvaluation with ⟨result, d⟩
  rcases hr' : e'.prepareEvaluation with ⟨result', d'⟩
  rw [hr, hr'] at hp ha
  obtain rfl : result = result' := hp
  cases result with
  | error error => exact ⟨rfl, rfl, ha⟩
  | ok pending => exact ⟨rfl, rfl, (ha.applyEvaluation pending.number _).2⟩

theorem after (h : Alike e e') (c : Call) : Alike (e.after c) (e'.after c) := by
  cases c with
  | edit action => exact (h.edit action).2
  | setCorpus corpus => exact ⟨h.workspace, rfl, h.numbering, h.outcome⟩
  | loadGrammar text => exact (h.loadGrammar text).2
  | importPairs pairs place flavor offers => exact (h.importPairs pairs place flavor offers).2
  | reset => exact ⟨congrArg Workspace.clear h.workspace, rfl, h.numbering, rfl⟩
  | prepareEvaluation => exact h.prepareEvaluation.2
  | applyEvaluation number outcome => exact (h.applyEvaluation number outcome).2
  | evaluate transport policy s => exact (h.evaluate transport policy s).2.2

/-- Whatever calls come, sessions over stores that held the same stay alike. -/
theorem run (h : Alike e e') (calls : List Call) : Alike (e.run calls) (e'.run calls) := by
  induction calls generalizing e e' with
  | nil => exact h
  | cons c calls ih => exact ih (h.after c)

end Alike

end Editor

namespace FaultyStore

variable {σ : Type} [Store σ] {s : FaultyStore σ} {key : String}

def withInner (s : FaultyStore σ) (inner : σ) : FaultyStore σ := { s with inner }

theorem set_eq (s : FaultyStore σ) (key value : String) : (Store.set s key value).2 =
    if s.fails .set key then s else s.withInner (Store.set s.inner key value).2 := by
  change (if s.fails .set key then _ else _ : Except StoreError Unit × FaultyStore σ).2 = _
  split <;> rfl

theorem remove_eq (s : FaultyStore σ) (key : String) : (Store.remove s key).2 =
    if s.fails .remove key then s else s.withInner (Store.remove s.inner key).2 := by
  change (if s.fails .remove key then _ else _ : Except StoreError Unit × FaultyStore σ).2 = _
  split <;> rfl

def Reads (s : FaultyStore σ) (key : String) : Prop := s.fails .get key = false

/-- Texts can be written and removed under a key. -/
def Writes (s : FaultyStore σ) (key : String) : Prop :=
  s.fails .set key = false ∧ s.fails .remove key = false

/-- What is under a key cannot be changed. -/
def Stuck (s : FaultyStore σ) (key : String) : Prop :=
  s.fails .set key = true ∧ s.fails .remove key = true

omit [Store σ] in
theorem fails_congr {s s' : FaultyStore σ} (h : s'.faults = s.faults) : s'.fails = s.fails := by
  funext action key
  rw [fails, h, fails]

theorem faults_set (s : FaultyStore σ) (key value : String) :
    (Store.set s key value).2.faults = s.faults := by
  rw [set_eq]
  split <;> rfl

theorem faults_remove (s : FaultyStore σ) (key : String) :
    (Store.remove s key).2.faults = s.faults := by
  rw [remove_eq]
  split <;> rfl

theorem faults_saveWorkspace (w : Workspace) (s : FaultyStore σ) :
    (saveWorkspace w s).faults = s.faults :=
  saveWorkspace_cases (P := fun s' : FaultyStore σ => s'.faults = s.faults) rfl
    (faults_remove s stateKey) (faults_set s stateKey) w

theorem faults_save (saved : Saved) (s : FaultyStore σ) : (save saved s).faults = s.faults :=
  (faults_set ..).trans (faults_saveWorkspace saved.workspace s)

theorem saveWorkspace_of_stuck (h : s.Stuck stateKey) (w : Workspace) : saveWorkspace w s = s :=
  saveWorkspace_cases (P := fun s' => s' = s) rfl (by rw [remove_eq, if_pos h.2])
    (fun text => by rw [set_eq, if_pos h.1]) w

theorem saveCorpus_of_fails (h : s.fails .set labelsKey = true) (corpus : Corpus) :
    saveCorpus corpus s = s := by
  rw [saveCorpus, set_eq, if_pos h]

/-- A session leaves a store as it is if nothing can be written there. -/
theorem store_run_of_stuck (hs : s.Stuck stateKey) (hl : s.fails .set labelsKey = true)
    {e : Editor (FaultyStore σ)} (he : e.store = s) (calls : List Editor.Call) :
    (e.run calls).store = s := by
  refine Editor.store_run (P := fun s' => s' = s) ?_ he calls
  rintro _ rfl saved
  rw [save, saveWorkspace_of_stuck hs, saveCorpus_of_fails hl]

theorem get_of_reads (h : s.Reads key) : Store.get s key = Store.get s.inner key :=
  if_neg (by rw [h]; exact Bool.false_ne_true)

structure SameUnder (key : String) (s s' : FaultyStore σ) : Prop where
  faults : s'.faults = s.faults
  inner : Store.get s'.inner key = Store.get s.inner key

theorem SameUnder.get_eq {s' : FaultyStore σ} (h : SameUnder key s s') (hr : s.Reads key) :
    Store.get s' key = Store.get s key := by
  have hr' : s'.Reads key := by rwa [Reads, fails_congr h.faults]
  rw [get_of_reads hr, get_of_reads hr', h.inner]

section Reliable

variable [ReliableStore σ]

theorem get_inner_saveCorpus (corpus : Corpus) (s : FaultyStore σ) :
    Store.get (saveCorpus corpus s).inner stateKey = Store.get s.inner stateKey := by
  rw [saveCorpus, set_eq]
  split
  · rfl
  · exact ReliableStore.get_set_of_ne _ (by decide) _

theorem SameUnder.save {s' : FaultyStore σ} (hs : s.Stuck stateKey)
    (h : SameUnder stateKey s s') (saved : Saved) : SameUnder stateKey s (saved.save s') where
  faults := (faults_save saved s').trans h.faults
  inner := by
    have hs' : s'.Stuck stateKey := by rwa [Stuck, fails_congr h.faults]
    rw [Saved.save, saveWorkspace_of_stuck hs', get_inner_saveCorpus, h.inner]

theorem get_save_labelsKey (hr : s.Reads labelsKey) (hw : s.fails .set labelsKey = false)
    (saved : Saved) :
    Store.get (save saved s) labelsKey = .ok (some saved.corpus.toJson.compact) := by
  have hr' : (save saved s).Reads labelsKey := by rwa [Reads, fails_congr (faults_save saved s)]
  have hw' : (saveWorkspace saved.workspace s).fails .set labelsKey = false := by
    rwa [fails_congr (faults_saveWorkspace saved.workspace s)]
  rw [get_of_reads hr', save, saveCorpus, set_eq, if_neg (by simp [hw'])]
  exact ReliableStore.get_set ..

theorem get_save_stateKey (hr : s.Reads stateKey) (hw : s.Writes stateKey) {w : Workspace}
    {ds : List Document} (hd : w.toDocuments = .ok ds) (corpus : Corpus) :
    Store.get (save ⟨w, corpus⟩ s) stateKey = .ok (stateText ds) := by
  have hr' : (save ⟨w, corpus⟩ s).Reads stateKey := by rwa [Reads, fails_congr (faults_save _ s)]
  rw [get_of_reads hr', save, get_inner_saveCorpus]
  simp only [saveWorkspace, hd]
  cases hs : stateText ds with
  | none =>
    rw [remove_eq, if_neg (by simp [hw.2])]
    exact ReliableStore.get_remove ..
  | some text =>
    change Store.get (Store.set s stateKey text).2.inner stateKey = _
    rw [set_eq, if_neg (by simp [hw.1])]
    exact ReliableStore.get_set ..

end Reliable

end FaultyStore

open FaultyStore

namespace Editor

variable {σ : Type} [Store σ] [ReliableStore σ] {s : FaultyStore σ} {calls : List Call}

omit [ReliableStore σ] in
theorem faults_run (s : FaultyStore σ) (calls : List Call) :
    ((opened s).run calls).store.faults = s.faults :=
  store_run (P := fun s' : FaultyStore σ => s'.faults = s.faults)
    (fun hs saved => (faults_save saved _).trans hs) rfl calls

omit [ReliableStore σ] in
/-- Failed writes do not disturb a session. -/
theorem alike_run (hs : s.Reads stateKey) (hl : s.Reads labelsKey) (calls : List Call) :
    Alike ((opened s).run calls) ((opened s.inner).run calls) := by
  have hload : load s = load s.inner := by
    rw [load, load, loadWorkspace_congr (get_of_reads hs), loadCorpus_congr (get_of_reads hl)]
  exact (Alike.opened hload).run calls

/-- What a session that is closed leaves in a store of which some writes fail. -/
structure Survives (s : FaultyStore σ) (e : Editor (FaultyStore σ)) : Prop where
  blocks : s.Writes stateKey → e.workspace.Shallow →
    (load e.close).workspace.topLevel = e.workspace.topLevel ∧
      ∀ id, (load e.close).workspace.find? id = e.workspace.find? id
  labels : s.fails .set labelsKey = false → (load e.close).corpus = e.corpus
  /-- Blocks that could not be saved leave those of before. -/
  stuck : s.Stuck stateKey → (load e.close).workspace = (load s).workspace

/-- Blocks are saved though labels cannot be, and labels though blocks cannot be. -/
theorem survives_run (hs : s.Reads stateKey) (hl : s.Reads labelsKey)
    (hc : ∀ c ∈ calls, c.FieldsValid) : Survives s ((opened s).run calls) := by
  have hf := fails_congr (faults_run s calls)
  constructor
  case blocks =>
    intro hw hshallow
    have ha := alike_run hs hl calls
    have he := (Synced.opened s.inner).run durable trivial hc
    obtain ⟨F, hF, -⟩ := he.stored
    have hv := he.fields
    rw [← ha.workspace] at hF hv
    have hget := get_save_stateKey (s := ((opened s).run calls).store) (by rwa [Reads, hf])
      (by rwa [Writes, hf]) hF.toDocuments_eq ((opened s).run calls).corpus
    have hr := loadWorkspace_of_height_le hget (fun t ht => hF.storable hv ht) hF.legal hF.nodup
      (hshallow F hF.forest_eq)
    exact ⟨hr.topLevel.trans hF.topLevel.symm, hF.find?_eq hr⟩
  case labels =>
    intro hw
    exact loadCorpus_of_get (get_save_labelsKey (by rwa [Reads, hf]) (by rwa [hf]) _)
  case stuck =>
    intro hstuck
    have hrun : SameUnder stateKey s ((opened s).run calls).store :=
      store_run (P := SameUnder stateKey s) (SameUnder.save hstuck) ⟨rfl, rfl⟩ calls
    have hclose := SameUnder.save hstuck hrun ((opened s).run calls).saved
    exact loadWorkspace_congr (hclose.get_eq hs)

end Editor

end LabelGrammar
