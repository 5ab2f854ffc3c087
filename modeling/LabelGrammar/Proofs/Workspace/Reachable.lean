import LabelGrammar.Proofs.Json.Reader
import LabelGrammar.Proofs.Workspace.Operations
import LabelGrammar.Proofs.Workspace.WellFormed
import LabelGrammar.Session.Saved

/-! # Reachable workspaces

Every workspace that operations lead to represents a forest, whether they were accepted or not and
in whatever order they came.
-/

namespace LabelGrammar

namespace Workspace

inductive Call where
  | freshId (offers : List NodeId)
  | addBlock (rule : Rule) (flavor : Option Flavor) (offers : List NodeId)
  | insertTree (t : Tree Flavor) (place : Option Attachment)
  | connect (child : NodeId) (place : Attachment)
  | disconnect (id : NodeId)
  | delete (id : NodeId)
  | edit (id : NodeId) (edit : FieldEdit)
  | clear
  | importPairs (pairs : List Pair) (place : Option Attachment) (flavor : Flavor)
      (offers : List NodeId)

/-- The workspace after a call, whether it was accepted or refused. -/
def after (w : Workspace) : Call → Workspace
  | .freshId offers => ((Workspace.freshId offers : Action WorkspaceError NodeId).run w).2
  | .addBlock rule flavor offers => ((Workspace.addBlock rule flavor offers).run w).2
  | .insertTree t place => ((Workspace.insertTree t place).run w).2
  | .connect child place => ((Workspace.connect child place).run w).2
  | .disconnect id => ((Workspace.disconnect id).run w).2
  | .delete id => ((Workspace.delete id).run w).2
  | .edit id edit => ((Workspace.edit id edit).run w).2
  | .clear => w.clear
  | .importPairs pairs place flavor offers =>
    ((Workspace.importPairs pairs place flavor offers).run w).2

/-- The workspaces that calls lead to from the empty one, from that of a tree, or from what a
store holds. A workspace may also go back to another one, such as an earlier copy of itself. -/
inductive Reachable : Workspace → Prop where
  | empty : Reachable .empty
  | ofTree {t : Tree Flavor} {w : Workspace} : Workspace.ofTree t = .ok w → Reachable w
  | load {σ : Type} [Store σ] (s : σ) : Reachable (Saved.load s).workspace
  | call {w : Workspace} (c : Call) : Reachable w → Reachable (w.after c)
  | rollBack {w earlier : Workspace} :
      Reachable w → Reachable earlier → Reachable (w.rollBack earlier)

end Workspace

namespace Represents

variable {w v : Workspace} {F : Forest}

theorem after (h : Represents w F) (c : Workspace.Call) : ∃ G, Represents (w.after c) G := by
  cases c with
  | freshId offers => exact ⟨F, h.retire [w.pick offers]⟩
  | addBlock rule flavor offers =>
    rcases h.run_addBlock rule flavor offers with ⟨e, hr⟩ | ⟨v, hr, hv⟩
    · exact ⟨F, by rwa [Workspace.after, hr]⟩
    · exact ⟨_, by rwa [Workspace.after, hr]⟩
  | insertTree t place => exact h.exists_insertTree t place
  | connect child place =>
    rcases h.run_connect child place with ⟨e, hr⟩ | ⟨t, -, -, u, -, -, -, hr, hv⟩
    · exact ⟨F, by rwa [Workspace.after, hr]⟩
    · exact ⟨_, by rwa [Workspace.after, hr]⟩
  | disconnect id =>
    rcases h.run_disconnect id with ⟨e, hr⟩ | ⟨t, -, -, hr⟩ | ⟨v, -, u, -, -, hr, hv⟩
    · exact ⟨F, by rwa [Workspace.after, hr]⟩
    · exact ⟨F, by rwa [Workspace.after, hr]⟩
    · exact ⟨_, by rwa [Workspace.after, hr]⟩
  | delete id =>
    rcases h.run_delete id with ⟨e, hr⟩ | ⟨u, -, -, v, hr, hv⟩
    · exact ⟨F, by rwa [Workspace.after, hr]⟩
    · exact ⟨_, by rwa [Workspace.after, hr]⟩
  | edit id edit =>
    rcases h.run_edit id edit with ⟨e, hr⟩ | ⟨flavor, l, l', -, -, v, hr, hv⟩
    · exact ⟨F, by rwa [Workspace.after, hr]⟩
    · exact ⟨_, by rwa [Workspace.after, hr]⟩
  | clear => exact ⟨[], clear w⟩
  | importPairs pairs place flavor offers => exact h.exists_importPairs pairs place flavor offers

theorem insertBlock (h : Represents w F) {j : Json} (hr : Saved.insertBlock w j = .ok v) :
    ∃ t, Document.toTree j = .ok t ∧ Represents v (F ++ [t.settle true]) := by
  unfold Saved.insertBlock at hr
  cases ht : Document.toTree j with
  | error e => rw [ht] at hr; cases hr
  | ok t =>
    by_cases ha : w.Admits t
    · simp only [ht, bind, Except.bind, Workspace.run_insertTree ha] at hr
      obtain rfl := Except.ok.inj hr
      exact ⟨t, rfl, h.place ha⟩
    · obtain ⟨e, hn⟩ := Workspace.run_insertTree_of_not ha
      simp only [ht, bind, Except.bind, hn] at hr
      cases hr

end Represents

namespace Saved

variable {P : Workspace → Prop} {w v : Workspace}

theorem foldlM_insertBlock {js : List Json}
    (insert : ∀ {w v : Workspace} {j : Json}, j ∈ js → P w → insertBlock w j = .ok v → P v)
    (h : P w) (hr : js.foldlM insertBlock w = .ok v) : P v := by
  induction js generalizing w with
  | nil =>
    obtain rfl : w = v := Except.ok.inj hr
    exact h
  | cons j js ih =>
    rw [List.foldlM_cons] at hr
    cases hj : insertBlock w j with
    | error e => rw [hj] at hr; cases hr
    | ok x =>
      rw [hj] at hr
      exact ih (fun hm => insert (List.mem_cons_of_mem j hm)) (insert List.mem_cons_self h hj) hr

theorem of_mem_blocksOf {text : String} {u j : Json} (hu : Json.parse? text = some u)
    (hj : j ∈ blocksOf u) : j.Ordered ∧ j.depth ≤ Json.depthLimit := by
  have ho := Json.ordered_of_parse? hu
  have hd := Json.depth_le_of_parse? hu
  unfold blocksOf at hj
  split at hj
  · next items =>
    cases ho with
    | arr hi =>
      have hl := ((Json.depth_arr_add_le (n := 0)).1 hd).2 j hj
      exact ⟨hi j hj, by omega⟩
  · obtain rfl := List.mem_singleton.1 hj
    exact ⟨ho, hd⟩

theorem parseState_induction {text : String} (empty : P .empty)
    (insert : ∀ {w v : Workspace} {j : Json}, j.Ordered → j.depth ≤ Json.depthLimit → P w →
      insertBlock w j = .ok v → P v)
    (hr : parseState text = .ok w) : P w := by
  unfold parseState at hr
  cases hu : Json.parse? text with
  | none => rw [hu] at hr; cases hr
  | some u =>
    rw [hu] at hr
    refine foldlM_insertBlock (fun hj => ?_) empty hr
    obtain ⟨ho, hd⟩ := of_mem_blocksOf hu hj
    exact insert ho hd

/-- What is true of the empty workspace and kept by the insertion of documents is true of
whatever a store holds. -/
theorem load_induction {σ : Type} [Store σ] (s : σ) (empty : P .empty)
    (insert : ∀ {w v : Workspace} {j : Json}, j.Ordered → j.depth ≤ Json.depthLimit → P w →
      insertBlock w j = .ok v → P v) :
    P (load s).workspace := by
  change P (loadWorkspace s)
  unfold loadWorkspace
  cases readText? s stateKey with
  | none => exact empty
  | some text =>
    cases hr : parseState text with
    | error e => simpa [hr] using empty
    | ok w => simpa [hr] using parseState_induction empty insert hr

end Saved

namespace Workspace

theorem Reachable.represents {w : Workspace} (h : Reachable w) : ∃ F, Represents w F := by
  induction h with
  | empty => exact ⟨[], .empty⟩
  | ofTree ht =>
    have ha := admits_of_ofTree ht
    obtain rfl := Except.ok.inj ((ofTree_of_admits ha).symm.trans ht)
    exact ⟨_, Represents.empty.place ha⟩
  | load s =>
    refine Saved.load_induction (P := fun w => ∃ F, Represents w F) s ⟨[], .empty⟩ ?_
    rintro w v j - - ⟨F, hF⟩ hr
    obtain ⟨t, -, ht⟩ := hF.insertBlock hr
    exact ⟨_, ht⟩
  | call c _ ih => exact ih.elim fun F h => h.after c
  | rollBack _ _ ihw ihv => exact ihv.imp fun F h => h.retire _

/-- Whatever calls led to it, a workspace is a forest of blocks. -/
theorem wellFormed_of_reachable {w : Workspace} (h : Reachable w) : w.WellFormed :=
  h.represents.elim fun _ hF => hF.wellFormed

/-- A rest below a sequence, which then cannot be put below the rest. -/
def restBelowSequence : Workspace :=
  (((empty.after (.addBlock (.group .sequence) none ["a"])).after
    (.addBlock (.leaf (.rest "room")) none ["b"])).after (.connect "b" ⟨"a", none⟩)).after
    (.connect "a" ⟨"b", none⟩)

theorem Reachable.restBelowSequence : Reachable restBelowSequence :=
  .call _ (.call _ (.call _ (.call _ .empty)))

theorem wellFormed_restBelowSequence : restBelowSequence.topLevel = ["a"] ∧
    restBelowSequence.size = 2 ∧ restBelowSequence.WellFormed :=
  ⟨by decide, by decide, wellFormed_of_reachable .restBelowSequence⟩

end Workspace

end LabelGrammar
