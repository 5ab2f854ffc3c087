import LabelGrammar.CommandLine.Program
import LabelGrammar.Proofs.Session.Requests
import LabelGrammar.Store.Memory

/-! # Failing commands

A command that fails has not touched its store. An evaluation saves before it asks, but whatever a
session was loaded from, what it asks of the tokenizer at hand is answered.
-/

namespace LabelGrammar

namespace Editor

variable {σ : Type} [Store σ] {e : Editor σ} {pending : PendingEvaluation}

theorem Synced.answered (h : Synced e) (hp : e.prepareEvaluation.1 = .ok pending) :
    ∃ results, localTokenizer pending.request = .ok results ∧
      results.length = pending.request.labels.length ∧ ∀ policy,
        Transport.local.send policy pending.request () =
          (.ok (results.map WireResult.toTokenization), ()) := by
  obtain ⟨F, hF, -⟩ := h.stored
  obtain ⟨t, ht, -, -, hq⟩ := prepareEvaluation_eq_ok hF hp
  have hr : localTokenizer pending.request = .ok (e.corpus.labels.map t.evaluate) := by
    rw [hq]
    exact localTokenizer_ofTree (hF.fieldsValid h.fields (Forest.tree_mem_subtrees ht)) _ _
  refine ⟨_, hr, by rw [hq]; exact List.length_map _, fun policy => ?_⟩
  have ha : Transport.local pending.request () = (.ok (e.corpus.labels.map t.evaluate), ()) :=
    congrArg (·, ()) hr
  rw [Transport.send_ok policy ha, hq, align_map, List.map_map]
  rfl

theorem Synced.evaluate_local (h : Synced e) (hp : e.prepareEvaluation.1 = .ok pending)
    (policy : RetryPolicy) : ∃ results, localTokenizer pending.request = .ok results ∧
      (e.evaluate .local policy ()).1 = .ok (results.map WireResult.toTokenization) := by
  obtain ⟨results, hr, -, hs⟩ := h.answered hp
  refine ⟨results, hr, ?_⟩
  rcases e.prepareEvaluation_cases with ⟨error, hq⟩ | ⟨request, hq⟩
  · rw [hq] at hp
    cases hp
  · rw [hq] at hp
    obtain rfl := Except.ok.inj hp
    simp only [evaluate, hq, hs]

end Editor

namespace Command

open Editor

variable {σ : Type} [Store σ] (c : Context) {e e' : Editor σ} {error : CommandError}

theorem store_loadFile {path : String} (h : loadFile c path e = (.error error, e')) :
    e'.store = e.store := by
  unfold loadFile at h
  split at h
  · cases h
    rfl
  · next text _ =>
    rcases e.loadGrammar_cases text with ⟨_, hr⟩ | ⟨_, -, -, hr⟩
    · simp only [hr] at h
      cases h
      rfl
    · simp only [hr] at h
      cases h

theorem store_importFile {path : String} {place : Option Attachment}
    (h : importFile c path place e = (.error error, e')) : e'.store = e.store := by
  unfold importFile at h
  split at h
  · cases h
    rfl
  · next pairs _ =>
    rcases e.importPairs_cases pairs place c.settings.childFlavor c.offers with
      ⟨_, hr⟩ | ⟨_, -, hr⟩
    · simp only [hr] at h
      cases h
    · simp only [hr] at h
      cases h
      rfl

theorem store_loadLabels {path : String} (h : loadLabels c path e = (.error error, e')) :
    e'.store = e.store := by
  unfold loadLabels at h
  split at h
  · cases h
    rfl
  · cases h

theorem store_evaluateHere {format : OutputFormat} (he : Synced e)
    (h : evaluateHere c format e = (.error error, e')) : e'.store = e.store := by
  unfold evaluateHere at h
  rcases e.evaluate_cases .local c.settings.retryPolicy () with ⟨_, -, hr⟩ | ⟨pending, hp, -⟩
  · simp only [hr] at h
    cases h
    rfl
  · obtain ⟨results, -, hr⟩ := he.evaluate_local (by rw [hp]) c.settings.retryPolicy
    split at h
    · cases h
    · next hs =>
      rw [hs] at hr
      cases hr

theorem store_perform {command : Command} (he : Synced e)
    (h : command.perform c e = (.error error, e')) : e'.store = e.store := by
  cases command with
  | «show» => cases h
  | «export» mode =>
    unfold perform at h
    cases hd : e.document mode with
    | ok d =>
      simp only [hd] at h
      cases h
    | error _ =>
      simp only [hd] at h
      cases h
      rfl
  | load path => exact store_loadFile c h
  | importTable path place => exact store_importFile c h
  | labels path => exact store_loadLabels c h
  | evaluate format => exact store_evaluateHere c he h
  | highlight id => cases h
  | reset => cases h

theorem store_run {command : Command} {store store' : σ}
    (h : command.run c store = (.error error, store')) : store' = store := by
  unfold run at h
  rcases hp : command.perform c (opened store) with ⟨_ | text, e⟩
  · rw [hp] at h
    cases h
    exact store_perform c (.opened store) hp
  · rw [hp] at h
    cases h

theorem run_evaluate {store : σ} {pending : PendingEvaluation} (format : OutputFormat)
    (hp : (opened store).prepareEvaluation.1 = .ok pending) :
    ∃ results, localTokenizer pending.request = .ok results ∧
      results.length = pending.request.labels.length ∧ ((Command.evaluate format).run c store).1 =
        .ok (format.render (results.map WireResult.toTokenization)) := by
  obtain ⟨results, hr, hl, -⟩ := (Synced.opened store).answered hp
  obtain ⟨_, hr', he⟩ := (Synced.opened store).evaluate_local hp c.settings.retryPolicy
  obtain rfl := Except.ok.inj (hr'.symm.trans hr)
  refine ⟨_, hr, hl, ?_⟩
  rcases hs : (opened store).evaluate .local c.settings.retryPolicy () with ⟨_ | outcome, e, _⟩
  · rw [hs] at he
    cases he
  · rw [hs] at he
    cases he
    simp only [run, perform, evaluateHere, hs]

end Command

namespace CommandLine

theorem disk_runWith {settings : Settings} {offers : List NodeId} {command : Command}
    {disk disk' : Disk} {exit : Exit}
    (h : runWith settings offers command disk = (exit, disk')) (hx : exit.code ≠ 0) :
    disk' = disk := by
  unfold runWith at h
  simp only at h
  split at h
  · cases h
    cases hx rfl
  · next hs =>
    cases h
    rw [Command.store_run _ hs]

theorem disk_run {arguments : List String} {environment : List (String × String)}
    {offers : List NodeId} {disk disk' : Disk} {exit : Exit}
    (h : run arguments environment offers disk = (exit, disk')) (hx : exit.code ≠ 0) :
    disk' = disk := by
  -- Any settings will do. Those of the call would be computed wherever the cases are compared.
  obtain ⟨settings, hs⟩ : ∃ settings : Invocation → Option Settings,
      ∀ call, settingsOf? call environment disk = settings call := ⟨_, fun _ => rfl⟩
  simp only [run, hs] at h
  split at h
  · cases h
    rfl
  · split at h
    · cases h
      rfl
    · exact disk_runWith h hx

end CommandLine

/-- A command that fails leaves the store as it was, and a program that fails leaves all files as
they were. An evaluation that saved a session does not fail: the tokenizer at hand has a result
for each label. -/
theorem unchanged_of_failure :
    (∀ {σ : Type} [Store σ] (c : Command.Context) (command : Command) (error : CommandError)
      (store store' : σ), command.run c store = (.error error, store') → store' = store) ∧
    (∀ (arguments : List String) (environment : List (String × String)) (offers : List NodeId)
      (disk disk' : Disk) (exit : CommandLine.Exit),
      CommandLine.run arguments environment offers disk = (exit, disk') → exit.code ≠ 0 →
        disk' = disk) ∧
    ∀ {σ : Type} [Store σ] (c : Command.Context) (format : OutputFormat) (store : σ)
      (pending : PendingEvaluation), (Editor.opened store).prepareEvaluation.1 = .ok pending →
      ∃ results, localTokenizer pending.request = .ok results ∧
        results.length = pending.request.labels.length ∧
        ((Command.evaluate format).run c store).1 =
          .ok (format.render (results.map WireResult.toTokenization)) := by
  refine ⟨?_, ?_, ?_⟩
  · intro σ _ c command error store store' h
    exact Command.store_run c h
  · intro arguments environment offers disk disk' exit h hx
    exact CommandLine.disk_run h hx
  · intro σ _ c format store pending hp
    exact Command.run_evaluate c format hp

/-- A missing grammar, a missing operand, and a sequence without children for one label. -/
theorem unchanged_of_failure_missing :
    let sequence := "\x7b\"parser\":\"sequence\",\"args\":\x7b\"id\":\"a\",\"parsers\":[]\x7d\x7d"
    let store : MemoryStore := ⟨[("state", sequence), ("pointLabels", "[\"101\"]")]⟩
    let c : Command.Context := ⟨⟨.default, "", ⟨"string"⟩, ""⟩, fun _ => .error .notFound, []⟩
    ((Command.load "g.json").run c store).2 = store ∧
    (CommandLine.run ["load"] [] [] .empty).2 = .empty ∧
    ∃ pending, (Editor.opened store).prepareEvaluation.1 = .ok pending ∧
      ∃ results, localTokenizer pending.request = .ok results ∧
        results.length = pending.request.labels.length ∧
        ((Command.evaluate .json).run c store).1 =
          .ok (OutputFormat.json.render (results.map WireResult.toTokenization)) := by
  intro sequence store c
  refine ⟨?_, ?_, ?_⟩
  · exact unchanged_of_failure.1 c (.load "g.json") (.unreadable "g.json" .notFound) store _ rfl
  · exact unchanged_of_failure.2.1 ["load"] [] [] .empty _ _ rfl (by decide +kernel)
  · have ho : (Editor.opened store).prepareEvaluation.1.isOk = true := by decide +kernel
    rcases (Editor.opened store).prepareEvaluation_cases with ⟨error, h⟩ | ⟨request, h⟩
    · rw [h] at ho
      cases ho
    · have hp := congrArg Prod.fst h
      exact ⟨_, hp, unchanged_of_failure.2.2 c .json store _ hp⟩

end LabelGrammar
