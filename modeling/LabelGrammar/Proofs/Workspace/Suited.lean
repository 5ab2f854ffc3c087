import LabelGrammar.Proofs.Workspace.Fields

/-! # Blocks that suit their places

Only the last child of a block may be a rest, flavors denote the kinds of their blocks, and that of
a sequence tells whether it stands at the top level. No run leads out of such workspaces, and a run
that is given valid rules only keeps all fields valid.
-/

namespace LabelGrammar

open Forest

theorem restBeforeEnd_eq_false_iff {kinds : List Kind} :
    restBeforeEnd kinds = false ↔ ∀ i, kinds[i]? = some .rest → i + 1 = kinds.length := by
  rw [restBeforeEnd, List.contains_eq_mem, decide_eq_false_iff_not, List.mem_iff_getElem?]
  simp only [List.getElem?_dropLast]
  constructor
  · rintro h i hi
    obtain ⟨hlt, -⟩ := List.getElem?_eq_some_iff.1 hi
    by_contra hne
    apply h
    exact ⟨i, by rw [if_pos (by omega), hi]⟩
  · rintro h ⟨i, hi⟩
    split at hi
    · have := h i hi
      omega
    · cases hi

namespace Workspace

variable {w : Workspace}

structure Suited (w : Workspace) : Prop where
  restLast {id c : NodeId} {b d : Block} {i : Nat} : w.find? id = some b →
    b.children[i]? = some c → w.find? c = some d → d.kind = .rest → i + 1 = b.children.length
  denotes {id : NodeId} {b : Block} : w.find? id = some b → b.flavor.denotes b.kind = true
  rootSequence {id : NodeId} {b : Block} : w.find? id = some b → b.kind = .sequence →
    id ∈ w.topLevel → b.flavor = .rootSequence
  innerSequence {id p : NodeId} {b : Block} : w.find? id = some b → b.kind = .sequence →
    b.parent = some p → b.flavor = .innerSequence

end Workspace

namespace Represents

variable {w : Workspace} {F : Forest} {b : Block} {id : NodeId}

theorem flavor_of_sequence (h : Represents w F) (hb : w.find? id = some b)
    (hk : b.kind = .sequence) : b.flavor = .default .sequence b.parent.isNone := by
  obtain ⟨u, -, -, he⟩ := h.exists_node hb
  rw [he, Tree.kind_block] at hk
  rw [he, Tree.flavor_block, Tree.flavor_retag, if_pos hk, Tree.parent_block]

theorem suited (h : Represents w F) : w.Suited := by
  constructor
  case restLast =>
    rintro id c b d i hb hc hd hk
    obtain ⟨u, hu, -, he⟩ := h.exists_node hb
    obtain ⟨_, hl⟩ := h.legal.subtree hu
    rw [he, Tree.children_block, List.getElem?_map, Option.map_eq_some_iff] at hc
    obtain ⟨v, hv, rfl⟩ := hc
    obtain rfl := Option.some.inj ((h.find?_child hu (List.mem_of_getElem? hv)).symm.trans hd)
    rw [Tree.kind_block] at hk
    have hr := restBeforeEnd_eq_false_iff.1 hl.fits.restLast i (by simp [hv, hk])
    rwa [he, Tree.children_block, List.length_map, ← List.length_map Tree.kind]
  case denotes =>
    rintro id b hb
    obtain ⟨u, hu, -, he⟩ := h.exists_node hb
    obtain ⟨_, hl⟩ := h.legal.subtree hu
    have hd := (hl.fits.retag b.parent.isNone).denotes
    rwa [he, Tree.flavor_block, Tree.kind_block, ← Tree.kind_retag b.parent.isNone]
  case rootSequence =>
    rintro id b hb hk hi
    obtain ⟨c, hc, hp⟩ := h.linked.mem_topLevel.1 hi
    obtain rfl := Option.some.inj (hb.symm.trans hc)
    rw [h.flavor_of_sequence hb hk, hp]
    rfl
  case innerSequence =>
    rintro id p b hb hk hp
    rw [h.flavor_of_sequence hb hk, hp]
    rfl

end Represents

theorem Body.kind_of_edit {edit : FieldEdit} {body updated : Body}
    (h : body.edit edit = .ok updated) : updated.rule.kind = body.rule.kind := by
  cases body with
  | leaf l =>
    obtain ⟨l', hl, rfl⟩ := map_eq_ok_iff.1 h
    exact FieldEdit.kind_of_applyLeaf hl
  | group shape children => cases h

namespace Workspace

variable {w : Workspace}

theorem kind_edit (w : Workspace) (id : NodeId) (edit : FieldEdit) (i : NodeId) :
    (((Workspace.edit id edit).run w).2.find? i).map Block.kind = (w.find? i).map Block.kind := by
  unfold Workspace.edit
  rw [Action.run_bind, Action.run_check]
  cases hb : w.block id with
  | error e => rfl
  | ok b =>
    simp only [Action.run_bind, Action.run_check]
    cases he : (b.body.edit edit).mapError WorkspaceError.invalid with
    | error e => rfl
    | ok body =>
      have hk := Body.kind_of_edit (mapError_eq_ok_iff.1 he)
      rw [block_eq_ok_iff] at hb
      change ((w.modifyBlock id (Block.withBody body)).find? i).map Block.kind = _
      rw [find?_modifyBlock w id (Block.id_withBody body), Option.map_map]
      by_cases hi : i = id
      · rw [hi, hb, Option.map_some, Option.map_some, Function.comp_apply,
          Block.onId_of_eq (by simpa using List.find?_some hb)]
        exact congrArg some hk
      · refine Option.map_congr fun c hc => ?_
        have hci : c.id = i := by simpa using List.find?_some hc
        rw [Function.comp_apply, Block.onId_of_ne (hci ▸ hi)]

/-- The workspaces that are reached if all trees and rules that are given pass their checks. -/
inductive ReachableByValid : Workspace → Prop where
  | empty : ReachableByValid .empty
  | ofTree {t : Tree Flavor} {w : Workspace} : t.FieldsValid → Workspace.ofTree t = .ok w →
      ReachableByValid w
  | load {σ : Type} [Store σ] (s : σ) : ReachableByValid (Saved.load s).workspace
  | call {w : Workspace} {c : Call} : c.FieldsValid → ReachableByValid w →
      ReachableByValid (w.after c)
  | rollBack {w earlier : Workspace} : ReachableByValid w → ReachableByValid earlier →
      ReachableByValid (w.rollBack earlier)

theorem ReachableByValid.reachable (h : w.ReachableByValid) : w.Reachable := by
  induction h with
  | empty => exact .empty
  | ofTree _ hw => exact .ofTree hw
  | load s => exact .load s
  | call _ _ ih => exact .call _ ih
  | rollBack _ _ ihw ihe => exact .rollBack ihw ihe

theorem ReachableByValid.fieldsValid (h : w.ReachableByValid) : w.FieldsValid := by
  induction h with
  | empty => exact fun b hb => by cases hb
  | @ofTree t w ht hw =>
    have ha := admits_of_ofTree hw
    obtain rfl := Except.ok.inj ((ofTree_of_admits ha).symm.trans hw)
    have he : Workspace.empty.FieldsValid := fun b hb => by cases hb
    exact he.append ht rfl
  | load s => exact fieldsValid_load s
  | call hc _ ih => exact ih.after hc
  | rollBack _ _ _ ih => exact ih

theorem ReachableByValid.foldl {calls : List Call} (hc : ∀ c ∈ calls, c.FieldsValid)
    (h : w.ReachableByValid) : (calls.foldl after w).ReachableByValid := by
  induction calls generalizing w with
  | nil => exact h
  | cons c calls ih =>
    rw [List.forall_mem_cons] at hc
    exact ih hc.2 (.call hc.1 h)

/-- Blocks suit their places whatever calls led to a workspace, its fields are valid if only valid
rules were given, and no edit changes a kind. -/
theorem suited_of_reachable : (∀ w : Workspace, w.Reachable → w.Suited) ∧
    (∀ w : Workspace, w.ReachableByValid → w.FieldsValid) ∧
    ∀ (w : Workspace) (id : NodeId) (edit : FieldEdit) (i : NodeId),
      (((Workspace.edit id edit).run w).2.find? i).map Block.kind =
        (w.find? i).map Block.kind := by
  refine ⟨?_, fun w h => h.fieldsValid, kind_edit⟩
  rintro w h
  obtain ⟨F, hF⟩ := h.represents
  exact hF.suited

/-- A sequence that was put below another one, before a rest that was edited and would not move. -/
def movedSequence : Workspace :=
  [.addBlock (.group .sequence) none ["a"], .addBlock (.group .sequence) none ["b"],
    .connect "b" ⟨"a", none⟩, .addBlock (.leaf (.rest "room")) none ["c"],
    .connect "c" ⟨"a", some 0⟩, .connect "c" ⟨"a", none⟩, .edit "c" (.typeName "wing"),
    .edit "c" (.typeName "")].foldl after empty

theorem ReachableByValid.movedSequence : ReachableByValid movedSequence := by
  have hgroup := Rule.valid_group .sequence
  have hrest : (Rule.leaf (.rest "room")).Valid := by decide
  have hedit (value : String) : (FieldEdit.typeName value).InRange := by
    rintro _ h
    cases h
  refine .foldl ?_ .empty
  simp only [List.forall_mem_cons, List.not_mem_nil, false_imp_iff, implies_true, and_true]
  exact ⟨hgroup, hgroup, trivial, hrest, trivial, trivial, hedit "wing", hedit ""⟩

theorem suited_movedSequence :
    movedSequence.topLevel = ["a"] ∧ movedSequence.Suited ∧ movedSequence.FieldsValid :=
  ⟨by decide, suited_of_reachable.1 _ ReachableByValid.movedSequence.reachable,
    suited_of_reachable.2.1 _ .movedSequence⟩

example : movedSequence.blocks.map (fun b => (b.flavor.tag, b.children)) =
    [("sequence", ["b", "c"]), ("sequence-inner", []), ("rest", [])] := by decide

end Workspace

end LabelGrammar
