import LabelGrammar.Proofs.Workspace.Reachable

/-! # Workspaces refine forests

What a workspace holds is the list of the copies of its top level, and every operation that it
accepts is an edit of that list.
-/

namespace LabelGrammar

open Forest

namespace Workspace

/-- The trees of a workspace are those of a forest, and accepted operations edit them. -/
structure Refines (w : Workspace) (F : Forest) : Prop where
  forest : w.forest = .ok F
  addBlock {rule : Rule} {flavor : Option Flavor} {offers : List NodeId} {id : NodeId}
      {v : Workspace} : (Workspace.addBlock rule flavor offers).run w = (.ok id, v) →
    id ∉ ids F ∧ v.forest = .ok
      (F ++ [(Tree.ofRule id (flavor.getD (.default rule.kind true)) rule).retag true])
  /-- A tree that is inserted becomes the last one, with sequences flavored by position. -/
  insertTree {t : Tree Flavor} {id : NodeId} {v : Workspace} :
    (Workspace.insertTree t none).run w = (.ok id, v) →
    id = t.id ∧ v.forest = .ok (F ++ [t.settle true])
  insertTree_at {t : Tree Flavor} {place : Attachment} {id : NodeId} {v : Workspace} :
    (Workspace.insertTree t (some place)).run w = (.ok id, v) →
    id = t.id ∧ ∃ u ∈ subtrees F, u.id = place.parent ∧ u.Takes place.index t.kind ∧
      v.forest = .ok (insertAt place (t.settle false) F)
  connect {child : NodeId} {place : Attachment} {v : Workspace} :
    (Workspace.connect child place).run w = (.ok (), v) →
    ∃ t ∈ F, t.id = child ∧ ∃ u ∈ subtrees (without child F), u.id = place.parent ∧
      u.Takes place.index t.kind ∧
      v.forest = .ok (insertAt place (t.retag false) (without child F))
  disconnect {id : NodeId} {v : Workspace} :
    (Workspace.disconnect id).run w = (.ok (), v) →
    (∃ t ∈ F, t.id = id ∧ v = w) ∨
      ∃ p ∈ subtrees F, ∃ u ∈ p.children, u.id = id ∧
        v.forest = .ok (without id F ++ [u.retag true])
  delete {id : NodeId} {t : Tree Flavor} {v : Workspace} :
    (Workspace.delete id).run w = (.ok t, v) →
    t ∈ subtrees F ∧ t.id = id ∧ v.forest = .ok (without id F)
  edit {id : NodeId} {edit : FieldEdit} {v : Workspace} :
    (Workspace.edit id edit).run w = (.ok (), v) →
    ∃ u ∈ subtrees F, u.id = id ∧ ∃ rule, edit.apply u.rule = .ok rule ∧
      v.forest = .ok (setRule id rule F)
  clear : w.clear.forest = .ok []

end Workspace

namespace Represents

variable {w : Workspace} {F : Forest}

theorem refines (h : Represents w F) : w.Refines F where
  forest := h.forest_eq
  addBlock {rule flavor offers id v} hr := by
    rcases h.run_addBlock rule flavor offers with ⟨e, he⟩ | ⟨v', he, hv⟩
    · cases hr.symm.trans he
    · cases hr.symm.trans he
      exact ⟨h.not_mem_of_not_issued (w.pick_not_mem_issued offers), hv.forest_eq⟩
  insertTree {t id v} hr := by
    by_cases ha : w.Admits t
    · cases hr.symm.trans (Workspace.run_insertTree ha)
      exact ⟨rfl, (h.place ha).forest_eq⟩
    · obtain ⟨e, he⟩ := Workspace.run_insertTree_of_not ha
      cases hr.symm.trans he
  insertTree_at {t place id v} hr := by
    rcases h.run_insertTree_at t place with ⟨e, he⟩ | ⟨u, hu, hp, hk, v', he, hv⟩
    · cases hr.symm.trans he
    · cases hr.symm.trans he
      exact ⟨rfl, u, hu, hp, hk, hv.forest_eq⟩
  connect {child place v} hr := by
    rcases h.run_connect child place with ⟨e, he⟩ | ⟨t, ht, hi, u, hu, hp, hk, he, hv⟩
    · cases hr.symm.trans he
    · cases hr.symm.trans he
      exact ⟨t, ht, hi, u, hu, hp, hk, hv.forest_eq⟩
  disconnect {id v} hr := by
    rcases h.run_disconnect id with ⟨e, he⟩ | ⟨t, ht, hi, he⟩ | ⟨p, hp, u, hu, hi, he, hv⟩
    · cases hr.symm.trans he
    · cases hr.symm.trans he
      exact .inl ⟨t, ht, hi, rfl⟩
    · cases hr.symm.trans he
      exact .inr ⟨p, hp, u, hu, hi, hv.forest_eq⟩
  delete {id t v} hr := by
    rcases h.run_delete id with ⟨e, he⟩ | ⟨u, hu, hi, v', he, hv⟩
    · cases hr.symm.trans he
    · cases hr.symm.trans he
      exact ⟨hu, hi, hv.forest_eq⟩
  edit {id edit v} hr := by
    rcases h.run_edit id edit with ⟨e, he⟩ | ⟨flavor, l, l', hu, hl, v', he, hv⟩
    · cases hr.symm.trans he
    · cases hr.symm.trans he
      exact ⟨_, hu, rfl, .leaf l', by simp [Tree.rule, FieldEdit.apply, hl, Except.map],
        hv.forest_eq⟩
  clear := (Represents.clear w).forest_eq

end Represents

namespace Workspace

/-- Whatever calls led to it, a workspace refines the forest of its copies. -/
theorem refines_of_reachable {w : Workspace} (h : w.Reachable) : ∃ F, w.Refines F :=
  h.represents.imp fun _ hF => hF.refines

theorem refines_restBelowSequence : restBelowSequence.Reachable ∧
    ∃ F, restBelowSequence.Refines F :=
  ⟨.restBelowSequence, refines_of_reachable .restBelowSequence⟩

end Workspace

end LabelGrammar
