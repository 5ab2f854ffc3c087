import LabelGrammar.CommandLine.Run
import LabelGrammar.Proofs.Session.Synchrony

/-! # Looking at a session

A command that only looks closes the session as it was opened, and so saves what was loaded. That
is loaded again, but a text that could not be loaded is lost.
-/

namespace LabelGrammar

open Saved

/-- A command that changes nothing. -/
def Command.Looks : Command → Prop
  | .show | .export _ | .highlight _ => True
  | _ => False

variable {σ : Type} [Store σ]

/-- A text that is nested no more deeply than the reader allows holds no tree that is too high to
be saved. -/
theorem shallow_load (store : σ) :
    ∃ F, Represents (load store).workspace F ∧ ∀ t ∈ F, t.height ≤ 42 := by
  refine load_induction (P := fun w => ∃ F, Represents w F ∧ ∀ t ∈ F, t.height ≤ 42) store
    ⟨[], .empty, List.forall_mem_nil _⟩ ?_
  rintro w v j ho hd ⟨F, hF, hh⟩ hr
  obtain ⟨t, ht, hv⟩ := hF.insertBlock hr
  refine ⟨_, hv, List.forall_mem_append.2 ⟨hh, List.forall_mem_singleton.2 ?_⟩⟩
  have hl : 3 * t.height ≤ j.depth + 1 := Document.height_le_of_readNode ho ht
  rw [Json.depthLimit] at hd
  rw [Tree.height_settle]
  omega

section Keeps

variable {store : σ} (hs : Keeps store)
include hs

theorem same_load_save : (load (save (load store) store)).Same (load store) := by
  obtain ⟨F, hF, hh⟩ := shallow_load store
  have hw : (Editor.opened store).workspace.Shallow := by
    rintro G hG
    obtain rfl := Except.ok.inj (hF.forest_eq.symm.trans hG)
    exact hh
  have he : (Editor.opened store).save.Synced := .save hs hF (Editor.Synced.opened store).fields
  exact he.same hw

theorem get_save_stateKey_of_error {text : String} {error : GrammarError}
    (h : Store.get store stateKey = .ok (some text)) (hp : parseState text = .error error) :
    Store.get (save (load store) store) stateKey = .ok none := by
  have hw : (load store).workspace = .empty := by
    change loadWorkspace store = .empty
    rw [loadWorkspace_of_get_some h, hp]
    rfl
  have hd : (load store).workspace.toDocuments = .ok [] := by
    rw [hw]
    rfl
  exact hs.state hd (load store).corpus

theorem get_save_labelsKey_of_none {text : String}
    (h : Store.get store labelsKey = .ok (some text)) (hp : Corpus.parse? text = none) :
    Store.get (save (load store) store) labelsKey = .ok (some "[]") := by
  have hc : (load store).corpus = .empty := by
    change loadCorpus store = .empty
    rw [loadCorpus, readText?, h]
    simp only [Option.bind_some, hp, Option.getD_none]
  rw [hs.labels, hc]
  rfl

end Keeps

namespace Command

variable (c : Context) {command : Command}

theorem perform_of_looks (hc : command.Looks) (e : Editor σ) :
    (∃ error, command.perform c e = (.error error, e)) ∨
      ∃ text, command.perform c e = (.ok text, e) := by
  cases command with
  | «show» | highlight => exact .inr ⟨_, rfl⟩
  | «export» mode =>
    unfold perform
    cases hd : e.document mode with
    | ok d => exact .inr ⟨d.toJson.pretty ++ "\n", by simp only [hd]⟩
    | error error => exact .inl ⟨.grammar error, by simp only [hd]⟩
  | load | importTable | labels | evaluate | reset => cases hc

theorem run_of_looks (hc : command.Looks) (store : σ) :
    (∃ error, command.run c store = (.error error, store)) ∨
      ∃ text, command.run c store = (.ok text, save (Saved.load store) store) := by
  unfold run
  rcases perform_of_looks c hc (.opened store) with ⟨error, h⟩ | ⟨text, h⟩
  · rw [h]
    exact .inl ⟨error, rfl⟩
  · rw [h]
    exact .inr ⟨text, rfl⟩

/-- What a store holds after a command that only looks. -/
structure LooksAt (store : σ) (result : Printed) (store' : σ) : Prop where
  same : (Saved.load store').Same (Saved.load store)
  failed {error : CommandError} : result = .error error → store' = store
  saved {text : String} : result = .ok text → store' = save (Saved.load store) store
  /-- Blocks that could not be loaded count as none, which removes their text. -/
  state {text printed : String} {error : GrammarError} : result = .ok printed →
    Store.get store stateKey = .ok (some text) → parseState text = .error error →
    Store.get store' stateKey = .ok none
  labels {text printed : String} : result = .ok printed →
    Store.get store labelsKey = .ok (some text) → Corpus.parse? text = none →
    Store.get store' labelsKey = .ok (some "[]")

theorem looksAt_of_keeps (hc : command.Looks) {store : σ} (hs : Keeps store) :
    LooksAt store (command.run c store).1 (command.run c store).2 := by
  rcases run_of_looks c hc store with ⟨error, h⟩ | ⟨text, h⟩
  · rw [h]
    exact ⟨⟨rfl, fun _ => rfl, rfl, rfl⟩, fun _ => rfl, nofun, nofun, nofun⟩
  · rw [h]
    exact ⟨same_load_save hs, nofun, fun _ => rfl, fun _ => get_save_stateKey_of_error hs,
      fun _ => get_save_labelsKey_of_none hs⟩

/-- Whatever a store holds, a command that only looks keeps what is loaded from it. -/
theorem looksAt_run [ReliableStore σ] (hc : command.Looks) (store : σ) :
    LooksAt store (command.run c store).1 (command.run c store).2 :=
  looksAt_of_keeps c hc (keeps store)

/-- Texts that cannot be loaded are lost to a command that only prints. -/
theorem show_discards :
    let c : Context := ⟨⟨.default, "", ⟨"string"⟩, ""⟩, fun _ => .error .notFound, []⟩
    let store : MemoryStore := ⟨[(stateKey, "no grammar"), (labelsKey, "no labels")]⟩
    let r := Command.show.run c store
    Command.show.Looks ∧ r.1 = .ok "(empty workspace)\n0 point labels\n" ∧
      (Store.get store stateKey = .ok (some "no grammar") ∧
        parseState "no grammar" = .error (.malformed .root .notJson) ∧
        Store.get r.2 stateKey = .ok none) ∧
      Store.get store labelsKey = .ok (some "no labels") ∧
        Corpus.parse? "no labels" = none ∧ Store.get r.2 labelsKey = .ok (some "[]") :=
  ⟨trivial, rfl, ⟨rfl, rfl, rfl⟩, rfl, rfl, rfl⟩

/-- A sequence is still there after it was highlighted, a text without labels is not. -/
theorem looksAt_highlight :
    let sequence := "\x7b\"parser\":\"sequence\",\"args\":\x7b\"id\":\"a\",\"parsers\":[]\x7d\x7d"
    let c : Context := ⟨⟨.default, "", ⟨"string"⟩, ""⟩, fun _ => .error .notFound, []⟩
    let store : MemoryStore := ⟨[(stateKey, sequence), (labelsKey, "no labels")]⟩
    let r := (Command.highlight "a").run c store
    (Saved.load store).workspace.topLevel = ["a"] ∧ (Saved.load r.2).workspace.topLevel = ["a"] ∧
      Store.get r.2 labelsKey = .ok (some "[]") := by
  intro sequence c store r
  have hc : (Command.highlight "a").Looks := trivial
  have hl : LooksAt store r.1 r.2 := looksAt_run c hc store
  have ht : (Saved.load store).workspace.topLevel = ["a"] := by decide +kernel
  exact ⟨ht, hl.same.topLevel.trans ht, hl.labels rfl rfl rfl⟩

end Command

end LabelGrammar
