import LabelGrammar.Proofs.Tokenizer.Retry
import LabelGrammar.Proofs.Workspace.Fields

/-! # Requests to the tokenizer at hand

A request holds no flavors, so the grammar that is read from it has those of the positions. Since
matching looks at no flavor, the answers are those of the tree itself.
-/

namespace LabelGrammar

namespace Tree

variable {φ ψ : Type}

section Map

variable {f : φ → ψ} {ts : List (Tree φ)}
  (h : ∀ t ∈ ts, ∀ target, (t.map f).run target = t.run target)
include h

theorem runAll_map (target : List Char) : runAll target (ts.map (map f)) = runAll target ts := by
  induction ts generalizing target with
  | nil => rfl
  | cons t ts ih =>
    rw [List.forall_mem_cons] at h
    rw [List.map_cons, runAll, runAll, h.1]
    simp only [ih h.2]

theorem runFirst_map (target : List Char) :
    runFirst target (ts.map (map f)) = runFirst target ts := by
  induction ts with
  | nil => rfl
  | cons t ts ih =>
    rw [List.forall_mem_cons] at h
    rw [List.map_cons, runFirst, runFirst, h.1, ih h.2]

end Map

theorem run_map (f : φ → ψ) (t : Tree φ) (target : List Char) :
    (t.map f).run target = t.run target := by
  induction t using children_induction generalizing target with
  | step t ih =>
    cases t with
    | leaf id flavor l => rfl
    | group id flavor shape ts =>
      rw [children] at ih
      rw [map, mapAll_eq_map]
      cases shape with
      | sequence => rw [run, run, runAll_map ih]
      | choice => rw [run, run, runFirst_map ih]

theorem evaluate_map (f : φ → ψ) (t : Tree φ) (label : String) :
    (t.map f).evaluate label = t.evaluate label := by
  rw [evaluate, evaluate, run_map]

mutual

/-- The tree with the flavors that are read where none is recorded. -/
def withDefaults (atRoot : Bool) : Tree φ → Tree Flavor
  | .leaf id _ l => .leaf id (.default l.kind atRoot) l
  | .group id _ shape ts => .group id (.default shape.kind atRoot) shape (withDefaultsAll ts)

def withDefaultsAll : List (Tree φ) → List (Tree Flavor)
  | [] => []
  | t :: ts => withDefaults false t :: withDefaultsAll ts

end

theorem withDefaultsAll_eq_map (ts : List (Tree φ)) :
    withDefaultsAll ts = ts.map (withDefaults false) := by
  induction ts with
  | nil => rfl
  | cons t ts ih => rw [withDefaultsAll, ih, List.map_cons]

theorem map_withDefaults (f : Flavor → ψ) (g : φ → ψ) (h : ∀ a b, f a = g b) (atRoot : Bool)
    (t : Tree φ) : (t.withDefaults atRoot).map f = t.map g := by
  induction t using children_induction generalizing atRoot with
  | step t ih =>
    cases t with
    | leaf id flavor l => rw [withDefaults, map, map, h]
    | group id flavor shape ts =>
      rw [withDefaults, map, map, h, withDefaultsAll_eq_map, mapAll_eq_map, mapAll_eq_map,
        List.map_map]
      exact congrArg _ (List.map_congr_left fun c hc => ih c hc false)

theorem evaluate_withDefaults (atRoot : Bool) (t : Tree φ) (label : String) :
    (t.withDefaults atRoot).evaluate label = t.evaluate label := by
  have hm : (t.withDefaults atRoot).map (fun _ => ()) = t.map fun _ => () :=
    map_withDefaults _ _ (fun _ _ => rfl) atRoot t
  rw [← evaluate_map (fun _ => ()), hm, evaluate_map]

end Tree

namespace Document

theorem withoutFlavors_ofNode (mode : Mode) (atRoot : Bool) (t : Tree Flavor) :
    (ofNode mode atRoot t).withoutFlavors = t.map fun _ => none := by
  induction t using Tree.children_induction generalizing atRoot with
  | step t ih =>
    cases t with
    | leaf id flavor l => rfl
    | group id flavor shape ts =>
      rw [ofNode, ofNodes_eq_map, withoutFlavors, Tree.map, Tree.map, Tree.mapAll_eq_map,
        Tree.mapAll_eq_map, List.map_map]
      exact congrArg _ (List.map_congr_left fun c hc => ih c hc false)

/-- A document without flavors is read as the tree with the flavors of its positions. -/
theorem readNode_map_none {φ : Type} {t : Tree φ} (h : t.FieldsValid) (place : Place)
    (atRoot : Bool) :
    readNode place atRoot (toJson (t.map fun _ => none)).sorted = .ok (t.withDefaults atRoot) := by
  induction t using Tree.children_induction generalizing place atRoot with
  | step t ih =>
    cases t with
    | leaf id flavor l =>
      rw [Tree.map, toJson, Tree.withDefaults]
      refine readNode_leaf place ?_ (Flavor.denotes_default _ _) (Tree.fieldsValid_leaf.1 h)
      cases l <;> rfl
    | group id flavor shape ts =>
      have hts := Tree.fieldsValid_group.1 h
      rw [Tree.map, toJson, Tree.withDefaults, Tree.mapAll_eq_map, toJsonAll_eq_map,
        Tree.withDefaultsAll_eq_map]
      refine readNode_group place ?_ (Flavor.denotes_default _ _) ?_
      · cases shape <;> rfl
      · rw [List.map_map, List.map_map]
        exact readItems_map (fun c hc place => ih c hc (hts c hc) place false) place 0

end Document

theorem localTokenizer_ofTree {t : Tree Flavor} (h : t.FieldsValid) (mode : Mode)
    (labels : List String) :
    localTokenizer (.make (.ofTree mode t) labels) = .ok (labels.map t.evaluate) := by
  have hr : Document.toTree (Document.ofTree mode t).withoutFlavors.toValue =
      .ok (t.withDefaults true) := by
    rw [Document.ofTree, Document.withoutFlavors_ofNode]
    exact Document.readNode_map_none h .root true
  rw [localTokenizer, EvaluationRequest.make, hr]
  simp only [funext (t.evaluate_withDefaults true)]

theorem align_map (grammar : Document) (labels : List String) (f : String → WireResult) :
    align (.make grammar labels) (labels.map f) =
      .ok (labels.map fun label => (f label).toTokenization) := by
  have hl : (labels.map f).length = (EvaluationRequest.make grammar labels).labels.length :=
    List.length_map _
  rw [align, if_pos hl, List.map_map]
  rfl

theorem Represents.root_eq {w : Workspace} {F : Forest} (h : Represents w F) {root : Block}
    (hr : w.root? = some root) : ∃ t ∈ F, root = t.block none := by
  rw [Workspace.root?, h.topLevel] at hr
  cases F with
  | nil => cases hr
  | cons t F =>
    have hf := h.find?_tree (List.mem_cons_self (a := t))
    exact ⟨t, List.mem_cons_self, Option.some.inj (hr.symm.trans hf)⟩

theorem Workspace.toDocument_external {w : Workspace} {root : Block} {t : Tree Flavor}
    (hr : w.root? = some root) (hk : root.kind = .sequence) (ht : w.snapshot root.id = .ok t) :
    w.toDocument .external = .ok (.ofTree .external t) := by
  simp only [Workspace.toDocument, hr, hk, ht]
  rfl

theorem Represents.evaluateWorkspace_local {w : Workspace} {F : Forest} {t : Tree Flavor}
    (h : Represents w F) (hv : w.FieldsValid) (ht : t ∈ F) (hr : w.root? = some (t.block none))
    (hk : t.kind = .sequence) (policy : RetryPolicy) (labels : List String) :
    Transport.local.evaluateWorkspace policy w labels () =
      (.ok (labels.map fun label => (t.evaluate label).toTokenization), ()) := by
  have hm := Forest.tree_mem_subtrees ht
  have hs := h.snapshot_block hm none
  have hl : Transport.local (.make (.ofTree .external t) labels) () =
      (.ok (labels.map t.evaluate), ()) :=
    congrArg (·, ()) (localTokenizer_ofTree (h.fieldsValid hv hm) .external labels)
  rw [Transport.evaluateWorkspace, Workspace.toDocument_external hr (by rwa [Tree.kind_block]) hs]
  exact (Transport.send_ok policy hl).trans (by rw [align_map])

/-- The tokenizer at hand answers every request with the results of the tree, and whatever is
asked of it for a workspace with a sequence as its root is answered with those of the root. -/
theorem localTokenizer_agrees :
    (∀ (t : Tree Flavor) (mode : Mode) (labels : List String), t.FieldsValid →
      localTokenizer (.make (.ofTree mode t) labels) = .ok (labels.map t.evaluate)) ∧
    ∀ (w : Workspace) (root : Block), w.Reachable → w.FieldsValid → w.root? = some root →
      root.kind = .sequence → ∃ t, w.snapshot root.id = .ok t ∧
        ∀ (policy : RetryPolicy) (labels : List String),
          Transport.local.evaluateWorkspace policy w labels () =
            (.ok (labels.map fun label => (t.evaluate label).toTokenization), ()) := by
  constructor
  · intro t mode labels h
    exact localTokenizer_ofTree h mode labels
  · intro w root hw hv hr hk
    obtain ⟨F, hF⟩ := hw.represents
    obtain ⟨t, ht, rfl⟩ := hF.root_eq hr
    rw [Tree.kind_block] at hk
    exact ⟨t, hF.snapshot_block (Forest.tree_mem_subtrees ht) none,
      hF.evaluateWorkspace_local hv ht hr hk⟩

def Tree.misflavored : Tree Flavor :=
  .group "a" ⟨"string"⟩ .choice
    [.leaf "a" ⟨""⟩ (.string "1" "floor"),
      .group "b" ⟨"rest"⟩ .sequence
        [.leaf "a" ⟨"sequence"⟩ (.rest "room"), .leaf "b" ⟨"rest"⟩ (.substring 1 "wing")]]

theorem localTokenizer_agrees_misflavored :
    localTokenizer (.make (.ofTree .internal .misflavored) ["1", "2"]) =
      .ok [⟨true, [], [⟨some "floor", some "1", 1, some "a", none⟩]⟩,
        ⟨false, ["Expected 1, got 2 | Expected 1 characters, got "],
          [⟨none, none, 0, some "a", some "Expected 1, got 2 | Expected 1 characters, got "⟩]⟩] ∧
    Transport.local.evaluateWorkspace .default .restBelowSequence ["101"] () =
      (.ok [⟨true, [], [⟨"101", 3, "room", some "b", none⟩]⟩], ()) := by
  constructor
  · exact localTokenizer_agrees.1 .misflavored .internal ["1", "2"] (by decide)
  · obtain ⟨_, ht, hl⟩ := localTokenizer_agrees.2 .restBelowSequence _ .restBelowSequence
      (by decide) rfl (by decide)
    obtain rfl := Except.ok.inj ht
    exact hl .default ["101"]

end LabelGrammar
