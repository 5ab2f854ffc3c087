import LabelGrammar.Proofs.Session.Refusals

/-! # Ids are drawn once

A run of a workspace is told by its events: ids that are drawn, and workspaces that come about,
those within an edit that fails included. An id that is drawn was neither drawn nor live before.
-/

namespace LabelGrammar

namespace Workspace

inductive Event where
  | drawn (id : NodeId)
  | held (w : Workspace)

namespace Event

def taken : Event → List NodeId
  | .drawn id => [id]
  | .held w => w.issued

/-- An event can come before another one: what was taken is not drawn, and stays taken. -/
def Before (event : Event) : Event → Prop
  | .drawn id => id ∉ event.taken
  | .held w => event.taken ⊆ w.issued

theorem Before.of_subset {e e' next : Event} (hs : e.taken ⊆ e'.taken) (h : e'.Before next) :
    e.Before next := by
  cases next with
  | drawn id => exact fun hm => h (hs hm)
  | held w => exact List.Subset.trans hs h

end Event

def trace (w : Workspace) (c : Call) : List Event :=
  (w.draws c).map .drawn ++ [.held (w.after c)]

def traceAll (w : Workspace) : List Call → List Event
  | [] => []
  | c :: calls => w.trace c ++ traceAll (w.after c) calls

structure Spans (w : Workspace) (events : List Event) (v : Workspace) : Prop where
  ordered : events.Pairwise Event.Before
  fresh : ∀ e ∈ events, (Event.held w).Before e
  taken : ∀ e ∈ events, e.Before (.held v)
  held : ∀ u, .held u ∈ events → u.Reachable
  grows : w.issued ⊆ v.issued
  reachable : v.Reachable

namespace Spans

variable {w v x : Workspace} {events events' : List Event}

theorem refl (h : w.Reachable) : Spans w [] w where
  ordered := .nil
  fresh := by simp
  taken := by simp
  held := by simp
  grows := List.Subset.refl _
  reachable := h

theorem single (hi : w.issued ⊆ v.issued) (hv : v.Reachable) : Spans w [.held v] v where
  ordered := List.pairwise_singleton _ _
  fresh := by
    rintro e he
    obtain rfl := List.mem_singleton.1 he
    exact hi
  taken := by
    rintro e he
    obtain rfl := List.mem_singleton.1 he
    exact List.Subset.refl _
  held := by simpa using hv
  grows := hi
  reachable := hv

theorem trans (h : Spans w events v) (h' : Spans v events' x) : Spans w (events ++ events') x where
  ordered := by
    refine List.pairwise_append.2 ⟨h.ordered, h'.ordered, fun e he next hn => ?_⟩
    have ht : e.taken ⊆ (Event.held v).taken := h.taken e he
    exact (h'.fresh next hn).of_subset ht
  fresh := by
    have hg : (Event.held w).taken ⊆ (Event.held v).taken := h.grows
    exact List.forall_mem_append.2 ⟨h.fresh, fun e he => (h'.fresh e he).of_subset hg⟩
  taken := List.forall_mem_append.2
    ⟨fun e he => List.Subset.trans (h.taken e he) h'.grows, h'.taken⟩
  held u hu := (List.mem_append.1 hu).elim (h.held u) (h'.held u)
  grows := List.Subset.trans h.grows h'.grows
  reachable := h'.reachable

theorem draws {ids : List NodeId} (hn : ids.Nodup) (hf : ∀ id ∈ ids, id ∉ w.issued)
    (hi : w.issued ++ ids ⊆ v.issued) (hv : v.Reachable) : Spans w (ids.map .drawn) v where
  ordered := by
    refine List.pairwise_map.2 (hn.imp fun {i j} hne => ?_)
    exact fun hm => hne (List.mem_singleton.1 hm).symm
  fresh := by
    rintro _ he
    obtain ⟨id, hm, rfl⟩ := List.mem_map.1 he
    exact hf id hm
  taken := by
    rintro _ he
    obtain ⟨id, hm, rfl⟩ := List.mem_map.1 he
    rintro i hid
    obtain rfl := List.mem_singleton.1 hid
    exact hi (List.mem_append_right _ hm)
  held := by simp
  grows := (List.append_subset.1 hi).1
  reachable := hv

theorem trace (h : w.Reachable) (c : Call) : Spans w (w.trace c) (w.after c) := by
  obtain ⟨F, hF⟩ := h.represents
  obtain ⟨hn, hf⟩ := w.nodup_draws c
  have hi : w.issued ++ w.draws c ⊆ (w.after c).issued := by
    rw [issued_after hF]
    exact List.subset_append_left _ _
  exact (draws hn hf hi (h.call c)).trans (single (List.Subset.refl _) (h.call c))

theorem traceAll (h : w.Reachable) (calls : List Call) :
    Spans w (w.traceAll calls) (calls.foldl after w) := by
  induction calls generalizing w with
  | nil => exact refl h
  | cons c calls ih => exact (trace h c).trans (ih (h.call c))

end Spans

end Workspace

namespace Editor

variable {σ : Type} [Store σ] {e : Editor σ}

/-- The calls that a call of a session makes to its workspace. An edit may make any that lead to
what it leaves. -/
inductive Traces (e : Editor σ) : Call → List Workspace.Call → Prop where
  | edit {ε α : Type} {action : Action ε α} {calls : List Workspace.Call} :
      (action.run e.workspace).2 = calls.foldl Workspace.after e.workspace →
      Traces e (.edit action) calls
  | setCorpus (corpus : Corpus) : Traces e (.setCorpus corpus) []
  | loadGrammar {text : String} {t : Tree Flavor} {id : NodeId} : Document.parse text = .ok t →
      (e.loadGrammar text).1 = .ok id → Traces e (.loadGrammar text) [.clear, .insertTree t none]
  | refused {text : String} {error : GrammarError} : (e.loadGrammar text).1 = .error error →
      Traces e (.loadGrammar text) []
  | importPairs (pairs : List Pair) (place : Option Attachment) (flavor : Flavor)
      (offers : List NodeId) :
      Traces e (.importPairs pairs place flavor offers) [.importPairs pairs place flavor offers]
  | reset : Traces e .reset [.clear]
  | prepareEvaluation : Traces e .prepareEvaluation []
  | applyEvaluation (number : RequestNumber) (outcome : Outcome) :
      Traces e (.applyEvaluation number outcome) []
  | evaluate {τ : Type} (transport : Transport τ) (policy : RetryPolicy) (s : τ) :
      Traces e (.evaluate transport policy s) []

theorem exists_traces (e : Editor σ) {c : Call} (hc : c.Composed) : ∃ calls, e.Traces c calls := by
  cases c with
  | edit action => exact (hc e.workspace).imp fun calls h => .edit h
  | setCorpus corpus => exact ⟨_, .setCorpus corpus⟩
  | loadGrammar text =>
    rcases e.loadGrammar_cases text with ⟨error, hr⟩ | ⟨t, hp, -, hr⟩
    · exact ⟨_, .refused (congrArg Prod.fst hr)⟩
    · exact ⟨_, .loadGrammar hp (congrArg Prod.fst hr)⟩
  | importPairs pairs place flavor offers => exact ⟨_, .importPairs pairs place flavor offers⟩
  | reset => exact ⟨_, .reset⟩
  | prepareEvaluation => exact ⟨_, .prepareEvaluation⟩
  | applyEvaluation number outcome => exact ⟨_, .applyEvaluation number outcome⟩
  | evaluate transport policy s => exact ⟨_, .evaluate transport policy s⟩

theorem workspace_evaluate {τ : Type} (transport : Transport τ) (policy : RetryPolicy)
    (e : Editor σ) (s : τ) : (e.evaluate transport policy s).2.1.workspace = e.workspace := by
  rcases e.evaluate_cases transport policy s with ⟨error, -, hr⟩ | ⟨pending, -, hr⟩
  · rw [hr]
  · rw [hr, after, after, workspace_applyEvaluation, workspace_prepareEvaluation]

/-- A session is left with what its calls made of its workspace, unless it goes back to the blocks
of before. -/
theorem Traces.workspace_after {c : Call} {calls : List Workspace.Call} (h : e.Traces c calls) :
    let v := calls.foldl Workspace.after e.workspace
    (e.after c).workspace = v ∨ (e.after c).workspace = v.rollBack e.workspace := by
  cases h with
  | @edit _ _ action _ hw =>
    rcases e.edit_cases action with ⟨a, -, hr⟩ | ⟨error, hr⟩
    · left
      rw [after, hr, ← hw]
      rfl
    · right
      rw [after, hr, ← hw]
  | setCorpus corpus => exact .inl rfl
  | @loadGrammar text t id hp hl =>
    rcases e.loadGrammar_cases text with ⟨error, hr⟩ | ⟨u, hu, ha, hr⟩
    · rw [hr] at hl
      cases hl
    · obtain rfl := Except.ok.inj (hp.symm.trans hu)
      left
      rw [after, hr, List.foldl_cons, List.foldl_cons, Workspace.after, Workspace.after,
        Workspace.run_insertTree (ha.clear e.workspace)]
      rfl
  | @refused text error hl =>
    rcases e.loadGrammar_cases text with ⟨error, hr⟩ | ⟨u, -, -, hr⟩
    · left
      rw [after, hr]
      rfl
    · rw [hr] at hl
      cases hl
  | importPairs pairs place flavor offers =>
    left
    rcases e.importPairs_cases pairs place flavor offers with ⟨id, hr⟩ | ⟨error, -, hr⟩
    · rw [after, hr]
      rfl
    · rw [after, hr]
      rfl
  | reset => exact .inl rfl
  | prepareEvaluation => exact .inl (workspace_prepareEvaluation e)
  | applyEvaluation number outcome => exact .inl (workspace_applyEvaluation e number outcome)
  | evaluate transport policy s => exact .inl (workspace_evaluate transport policy e s)

end Editor

namespace Workspace

variable {w v : Workspace} {events : List Event}

/-- The runs of a workspace with their events, by calls to itself and to sessions that hold it. -/
inductive Run (w : Workspace) : List Event → Workspace → Prop where
  | start : Run w [.held w] w
  | call {events : List Event} {v : Workspace} (c : Call) : Run w events v →
      Run w (events ++ v.trace c) (v.after c)
  | session {σ : Type} [Store σ] {events : List Event} {e : Editor σ} {c : Editor.Call}
      {calls : List Call} : Run w events e.workspace → e.Traces c calls →
      Run w (events ++ e.workspace.traceAll calls ++ [.held (e.after c).workspace])
        (e.after c).workspace

theorem Run.exists_session {σ : Type} [Store σ] {e : Editor σ} {c : Editor.Call}
    (h : Run w events e.workspace) (hc : c.Composed) :
    ∃ events', Run w (events ++ events') (e.after c).workspace := by
  obtain ⟨calls, ht⟩ := e.exists_traces hc
  have hs := Run.session h ht
  rw [List.append_assoc] at hs
  exact ⟨_, hs⟩

theorem Spans.session {σ : Type} [Store σ] {e : Editor σ} {c : Editor.Call} {calls : List Call}
    (h : e.workspace.Reachable) (ht : e.Traces c calls) :
    Spans e.workspace (e.workspace.traceAll calls ++ [.held (e.after c).workspace])
      (e.after c).workspace := by
  have hs := Spans.traceAll h calls
  rcases ht.workspace_after with hv | hv
  · rw [hv]
    exact hs.trans (single (List.Subset.refl _) hs.reachable)
  · rw [hv]
    refine hs.trans (single (fun i hi => ?_) (hs.reachable.rollBack h))
    exact Represents.mem_retire hi

theorem Run.spans (hw : w.Reachable) (h : Run w events v) : Spans w events v := by
  induction h with
  | start => exact .single (List.Subset.refl _) hw
  | call c _ ih => exact ih.trans (.trace ih.reachable c)
  | session _ ht ih =>
    rw [List.append_assoc]
    exact ih.trans (.session ih.reachable ht)

end Workspace

end LabelGrammar
