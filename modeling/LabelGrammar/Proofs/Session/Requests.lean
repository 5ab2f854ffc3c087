import LabelGrammar.Proofs.Session.Refusals
import LabelGrammar.Proofs.Tokenizer.Presentation
import LabelGrammar.Proofs.Workspace.Suited

/-! # Requests of a session

Only a grammar whose root is a sequence leaves a session, and whatever led to it, it is one that a
tokenizer can rely on. A session that has no such grammar does nothing.
-/

namespace LabelGrammar

open Forest

/-- What a tokenizer can rely on in a request. -/
structure EvaluationRequest.Sound (r : EvaluationRequest) : Prop where
  sequence : r.grammar.kind = .sequence
  unflavored : ∀ n ∈ r.grammar.subtrees, n.flavor = none
  keyless : ¬ r.toJson.Uses "uiParser"
  nodup : r.grammar.ids.Nodup
  restLast {n c : Document} {i : Nat} : n ∈ r.grammar.subtrees → n.children[i]? = some c →
    c.kind = .rest → i + 1 = n.children.length

theorem Tree.Legal.restLast {atRoot : Bool} {t u c : Tree Flavor} {i : Nat} (h : t.Legal atRoot)
    (hu : u ∈ t.subtrees) (hc : u.children[i]? = some c) (hk : c.kind = .rest) :
    i + 1 = u.children.length := by
  obtain ⟨_, hl⟩ := h.subtree hu
  have hr := restBeforeEnd_eq_false_iff.1 hl.fits.restLast i (by simp [hc, hk])
  rwa [List.length_map] at hr

theorem Tree.alike_withDefaults (t : Tree Flavor) (atRoot : Bool) :
    (t.withDefaults atRoot).Alike t :=
  (alike_iff_map_eq ()).2 (map_withDefaults _ _ (fun _ _ => rfl) atRoot t)

namespace EvaluationRequest

variable {t : Tree Flavor} (mode : Mode) (labels : List String)

theorem grammar_make : (make (.ofTree mode t) labels).grammar = t.map fun _ => none := by
  rw [make_ofTree, Document.ofTree_external]

theorem sound_make {atRoot : Bool} (hk : t.kind = .sequence) (hn : t.ids.Nodup)
    (hl : t.Legal atRoot) : (make (.ofTree mode t) labels).Sound := by
  constructor
  case sequence => rw [grammar_make, Tree.kind_map, hk]
  case unflavored => exact Document.flavor_of_withoutFlavors _
  case keyless => exact not_uses_make _ labels
  case nodup => rwa [grammar_make, Tree.ids_map]
  case restLast =>
    intro n c i hm hc hr
    rw [grammar_make, Tree.subtrees_map] at hm
    obtain ⟨u, hu, rfl⟩ := List.mem_map.1 hm
    rw [Tree.children_map, List.getElem?_map, Option.map_eq_some_iff] at hc
    obtain ⟨d, hd, rfl⟩ := hc
    rw [Tree.children_map, List.length_map]
    exact hl.restLast hu hd (by simpa using hr)

theorem alike_make : (make (.ofTree mode t) labels).grammar.Alike t := by
  rw [grammar_make, Tree.alike_iff_map_eq (), Tree.map_map, Function.comp_def]

theorem toTree_make (h : t.FieldsValid) :
    ∃ u, Document.toTree (make (.ofTree mode t) labels).grammar.toValue = .ok u ∧ u.Alike t := by
  rw [grammar_make]
  exact ⟨_, Document.readNode_map_none h .root true, t.alike_withDefaults true⟩

end EvaluationRequest

theorem Workspace.toDocument_external_of_ne {w : Workspace} {root : Block}
    (hr : w.root? = some root) (hk : root.kind ≠ .sequence) :
    w.toDocument .external = .error (.invalidRoot (some root.kind)) := by
  simp [toDocument, hr, hk, bind, Except.bind, throw, throwThe, MonadExceptOf.throw]

/-- A tokenizer gets the document of the root if that is a sequence, and none otherwise. -/
theorem Represents.toDocument_cases {w : Workspace} {F : Forest} (h : Represents w F) :
    (∃ t ∈ F, w.root? = some (t.block none) ∧ t.kind = .sequence ∧
      w.toDocument .external = .ok (.ofTree .external t)) ∨
    (∀ root, w.root? = some root → root.kind ≠ .sequence) ∧
      w.toDocument .external = .error (.invalidRoot (w.root?.map Block.kind)) := by
  cases hr : w.root? with
  | none =>
    right
    constructor
    · rintro root ⟨⟩
    · rw [Workspace.toDocument, hr]
      rfl
  | some root =>
    obtain ⟨t, ht, rfl⟩ := h.root_eq hr
    by_cases hk : (t.block none).kind = .sequence
    · left
      have hs := h.snapshot_block (tree_mem_subtrees ht) none
      exact ⟨t, ht, rfl, by rwa [Tree.kind_block] at hk, Workspace.toDocument_external hr hk hs⟩
    · right
      constructor
      · rintro root ⟨⟩
        exact hk
      · exact Workspace.toDocument_external_of_ne hr hk

namespace Editor

variable {σ : Type} [Store σ] {e : Editor σ} {F : Forest}

theorem prepareEvaluation_eq_ok (h : Represents e.workspace F) {pending : PendingEvaluation}
    (hp : e.prepareEvaluation.1 = .ok pending) :
    ∃ t ∈ F, e.workspace.root? = some (t.block none) ∧ t.kind = .sequence ∧
      pending.request = .make (.ofTree .external t) e.corpus.labels := by
  rcases h.toDocument_cases with ⟨t, ht, hr, hk, hd⟩ | ⟨-, hd⟩
  · rw [prepareEvaluation, hd] at hp
    obtain rfl := Except.ok.inj hp
    exact ⟨t, ht, hr, hk, rfl⟩
  · rw [prepareEvaluation, hd] at hp
    cases hp

theorem prepareEvaluation_eq_error (h : Represents e.workspace F) {error : EvaluationError}
    (hp : e.prepareEvaluation.1 = .error error) :
    (∀ root, e.workspace.root? = some root → root.kind ≠ .sequence) ∧
      ∃ cause, error = .grammar cause ∧ cause = .invalidRoot (e.workspace.root?.map Block.kind) ∧
        e.workspace.toDocument .external = .error cause := by
  rcases h.toDocument_cases with ⟨t, -, -, -, hd⟩ | ⟨hr, hd⟩
  · rw [prepareEvaluation, hd] at hp
    cases hp
  · rw [prepareEvaluation, hd] at hp
    obtain rfl := Except.error.inj hp
    exact ⟨hr, _, rfl, rfl, hd⟩

/-- What a session asks of a tokenizer, and what it does if it has nothing to ask. -/
structure Guarded (e : Editor σ) : Prop where
  prepared_iff : (∃ pending, e.prepareEvaluation.1 = .ok pending) ↔
    ∃ root, e.workspace.root? = some root ∧ root.kind = .sequence
  request {pending : PendingEvaluation} : e.prepareEvaluation.1 = .ok pending →
    pending.request.labels = e.corpus.labels ∧ pending.request.Sound
  /-- The grammar is read back as the root, but for flavors. -/
  readBack {pending : PendingEvaluation} {root : Block} :
    e.prepareEvaluation.1 = .ok pending → e.workspace.root? = some root →
    ∃ t, e.workspace.snapshot root.id = .ok t ∧ pending.request.grammar.Alike t ∧
      (t.FieldsValid → ∃ u, Document.toTree pending.request.grammar.toValue = .ok u ∧ u.Alike t)
  /-- No number is issued, nothing is saved and no tokenizer is called. -/
  refused {error : EvaluationError} : e.prepareEvaluation.1 = .error error →
    error = .grammar (.invalidRoot (e.workspace.root?.map Block.kind)) ∧
    e.prepareEvaluation.2 = e ∧
    (∀ {τ : Type} (transport : Transport τ) (policy : RetryPolicy) (s : τ),
      e.evaluate transport policy s = (.error error, e, s)) ∧
    ∀ {τ : Type} (transport : Transport τ) (policy : RetryPolicy) (labels : List String) (s : τ),
      transport.evaluateWorkspace policy e.workspace labels s = (.error error, s)

/-- Whatever calls led to it, a session asks for nothing but sound requests. -/
theorem guarded_of_reachable (h : Reachable e) : e.Guarded := by
  obtain ⟨F, hF⟩ := h.workspace.represents
  constructor
  case prepared_iff =>
    constructor
    · rintro ⟨pending, hp⟩
      obtain ⟨t, -, hr, hk, -⟩ := prepareEvaluation_eq_ok hF hp
      exact ⟨_, hr, by rwa [Tree.kind_block]⟩
    · rintro ⟨root, hr, hk⟩
      cases hp : e.prepareEvaluation.1 with
      | ok pending => exact ⟨pending, rfl⟩
      | error error => exact ((prepareEvaluation_eq_error hF hp).1 root hr hk).elim
  case request =>
    intro pending hp
    obtain ⟨t, ht, -, hk, hq⟩ := prepareEvaluation_eq_ok hF hp
    have hn : t.ids.Nodup := hF.nodup.sublist (Forest.ids_sublist (tree_mem_subtrees ht))
    rw [hq]
    exact ⟨rfl, EvaluationRequest.sound_make .external _ hk hn (hF.legal t ht)⟩
  case readBack =>
    intro pending root hp hr
    obtain ⟨t, ht, ht', -, hq⟩ := prepareEvaluation_eq_ok hF hp
    obtain rfl := Option.some.inj (ht'.symm.trans hr)
    rw [hq]
    refine ⟨t, hF.snapshot_block (tree_mem_subtrees ht) none, ?_, ?_⟩
    · exact EvaluationRequest.alike_make .external _
    · exact EvaluationRequest.toTree_make .external _
  case refused =>
    intro error hp
    obtain ⟨-, cause, rfl, rfl, hd⟩ := prepareEvaluation_eq_error hF hp
    have hp : e.prepareEvaluation =
        (.error (.grammar (.invalidRoot (e.workspace.root?.map Block.kind))), e) := by
      rw [prepareEvaluation, hd]
    refine ⟨rfl, by rw [hp], ?_, ?_⟩
    · intro τ transport policy s
      rw [evaluate, hp]
    · intro τ transport policy labels s
      rw [Transport.evaluateWorkspace, hd]

def deleteRoot : Action WorkspaceError (Tree Flavor) := do
  Workspace.disconnect "b"
  Workspace.delete "a"

theorem guarded_addRoot :
    let e := (opened (⟨[]⟩ : MemoryStore)).run [.edit addRoot, .setCorpus ⟨["101"]⟩]
    let e' := e.after (.edit deleteRoot)
    (∃ pending, e.prepareEvaluation.1 = .ok pending ∧ pending.request.labels = ["101"] ∧
      pending.request.Sound) ∧
    (e'.prepareEvaluation.1 = .error (.grammar (.invalidRoot (some .rest))) ∧
      e'.prepareEvaluation.2 = e') := by
  have h : Reachable ((opened (⟨[]⟩ : MemoryStore)).run [.edit addRoot, .setCorpus ⟨["101"]⟩]) :=
    .call (c := .setCorpus _) (.call (c := .edit addRoot) (.opened _) scripted_addRoot.composed)
      trivial
  have hd : deleteRoot.Scripted :=
    .bind (.of_call (c := .disconnect "b") trivial fun _ => rfl) fun _ =>
      .of_call (c := .delete "a") trivial fun _ => rfl
  have h' := Reachable.call (c := .edit deleteRoot) h hd.composed
  constructor
  · obtain ⟨pending, hp⟩ := (guarded_of_reachable h).prepared_iff.2 ⟨_, rfl, by decide⟩
    exact ⟨pending, hp, (guarded_of_reachable h).request hp⟩
  · exact ⟨rfl, ((guarded_of_reachable h').refused rfl).2.1⟩

end Editor

end LabelGrammar
