import LabelGrammar.Proofs.Workspace.Admission
import LabelGrammar.Session.Table

/-! # Operations on forests

Each operation on a workspace that represents a forest is either refused, which changes no block,
or is an edit of the forest.
-/

namespace LabelGrammar

open Forest

namespace Tree

variable {φ : Type} (id : NodeId) (flavor : φ) (rule : Rule)

@[simp] theorem id_ofRule : (ofRule id flavor rule).id = id := by cases rule <;> rfl

@[simp] theorem flavor_ofRule : (ofRule id flavor rule).flavor = flavor := by cases rule <;> rfl

@[simp] theorem kind_ofRule : (ofRule id flavor rule).kind = rule.kind := by cases rule <;> rfl

@[simp] theorem children_ofRule : (ofRule id flavor rule).children = [] := by cases rule <;> rfl

@[simp] theorem subtrees_ofRule :
    (ofRule id flavor rule).subtrees = [ofRule id flavor rule] := by simp [subtrees_eq]

@[simp] theorem ids_ofRule : (ofRule id flavor rule).ids = [id] := by simp [ids_eq]

@[simp] theorem settle_ofRule (f : Flavor) (atRoot : Bool) :
    (ofRule id f rule).settle atRoot = (ofRule id f rule).retag atRoot := by
  have h := (ofRule id f rule).withChildren_children
  rw [children_ofRule] at h
  rw [settle_eq, children_ofRule, List.map_nil, h]

end Tree

namespace Represents

variable {w : Workspace} {F : Forest}

theorem find?_of_not_issued (h : Represents w F) {id : NodeId} (hi : id ∉ w.issued) :
    w.find? id = none := by
  refine Option.eq_none_iff_forall_not_mem.2 fun b hb => hi ?_
  have he : b.id = id := by simpa using List.find?_some hb
  exact he ▸ h.issued b (List.mem_of_find?_eq_some hb)

theorem not_mem_of_not_issued (h : Represents w F) {id : NodeId} (hi : id ∉ w.issued) :
    id ∉ ids F := by
  rw [← h.contains_iff, Workspace.contains, h.find?_of_not_issued hi]
  simp

theorem admits_ofRule (h : Represents w F) {id : NodeId} (hi : id ∉ w.issued) {flavor : Flavor}
    {rule : Rule} (hd : flavor.denotes rule.kind = true) :
    w.Admits (Tree.ofRule id flavor rule) where
  nodup := by simp
  fresh := by simp [Workspace.contains, h.find?_of_not_issued hi]
  denotes := by simpa using hd
  restLast := by simp [restBeforeEnd]

theorem run_addBlock (h : Represents w F) (rule : Rule) (flavor : Option Flavor)
    (offers : List NodeId) :
    (∃ e, (Workspace.addBlock rule flavor offers).run w = (.error e, w)) ∨
      ∃ v, (Workspace.addBlock rule flavor offers).run w = (.ok (w.pick offers), v) ∧
        Represents v (F ++ [(Tree.ofRule (w.pick offers)
          (flavor.getD (.default rule.kind true)) rule).retag true]) := by
  have key (f : Flavor) (hd : f.denotes rule.kind = true) :=
    h.place (h.admits_ofRule (w.pick_not_mem_issued offers) hd)
  simp only [Tree.settle_ofRule, Workspace.place, Tree.ids_ofRule, Tree.id_ofRule] at key
  unfold Workspace.addBlock Workspace.freshId
  simp only [Action.run_bind, Action.run_check, Action.run_get, Action.run_set, Action.run_pure]
  cases flavor with
  | none => exact .inr ⟨_, rfl, key _ (Flavor.denotes_default _ _)⟩
  | some f =>
    by_cases hd : f.denotes rule.kind = true
    · simp only [checkFlavor, hd, if_true]
      exact .inr ⟨_, rfl, key f hd⟩
    · simp only [checkFlavor, hd]
      exact .inl ⟨_, rfl⟩

theorem connect_tree (h : Represents w F) {t u : Tree Flavor} {index : Option Nat} (ht : t ∈ F)
    (hu : u ∈ subtrees F) (hnot : u.id ∉ t.ids) (hk : u.Takes index t.kind) :
    (Workspace.connect t.id ⟨u.id, index⟩).run w = (.ok (), w.attach t.id ⟨u.id, index⟩) := by
  have hb : w.block t.id = .ok (t.block none) := Workspace.block_eq_ok_iff.2 (h.find?_tree ht)
  have ha : w.isAncestorOrSelf t.id u.id = false := Bool.eq_false_iff.2 fun hm =>
    hnot ((h.isAncestorOrSelf_iff (tree_mem_subtrees ht) (Forest.mem_ids.2 ⟨u, hu, rfl⟩)).1 hm)
  have hc : w.checkAttachment ⟨u.id, index⟩ t.kind (some t.id) = .ok () :=
    (h.checkAttachment_node hu).2 ⟨hk, fun c hc => by obtain rfl := Option.some.inj hc; exact ha⟩
  simp [Workspace.connect, Action.run_bind, hb, hc]

/-- A tree that is connected leaves the list of trees and becomes a child of a node outside it. -/
theorem run_connect (h : Represents w F) (child : NodeId) (place : Attachment) :
    (∃ e, (Workspace.connect child place).run w = (.error e, w)) ∨
      ∃ t ∈ F, t.id = child ∧ ∃ u ∈ subtrees (without child F), u.id = place.parent ∧
        u.Takes place.index t.kind ∧
        (Workspace.connect child place).run w = (.ok (), w.attach child place) ∧
        Represents (w.attach child place) (insertAt place t.nested (without child F)) := by
  cases hb : w.block child with
  | error e => exact .inl ⟨e, by simp [Workspace.connect, Action.run_bind, hb]⟩
  | ok b =>
    have hf := Workspace.block_eq_ok_iff.1 hb
    cases hp : b.parent with
    | some p => exact .inl ⟨_, by simp [Workspace.connect, Action.run_bind, hb, hp]; rfl⟩
    | none =>
      obtain ⟨t, ht, rfl, rfl⟩ := h.exists_tree hf hp
      cases hc : w.checkAttachment place t.kind (some t.id) with
      | error e => exact .inl ⟨e, by simp [Workspace.connect, Action.run_bind, hb, hc]⟩
      | ok _ =>
        obtain ⟨u, hu, he, hk, ha⟩ := h.checkAttachment_eq_ok_iff.1 hc
        obtain ⟨p, index⟩ := place
        obtain rfl : u.id = p := he
        have hnot : u.id ∉ t.ids := fun hm => by
          have hx := (h.isAncestorOrSelf_iff (tree_mem_subtrees ht)
            (Forest.mem_ids.2 ⟨u, hu, rfl⟩)).2 hm
          rw [ha t.id rfl] at hx
          cases hx
        exact .inr ⟨t, ht, rfl, u, mem_subtrees_without h.nodup ht hu hnot, rfl, hk,
          h.connect_tree ht hu hnot hk, h.attach ht hu hnot hk⟩

theorem disconnect_child (h : Represents w F) {u v : Tree Flavor} (hv : v ∈ subtrees F)
    (hu : u ∈ v.children) :
    (Workspace.disconnect u.id).run w = (.ok (), w.detach u.id v.id) := by
  have hb : w.block u.id = .ok (u.block (some v.id)) :=
    Workspace.block_eq_ok_iff.2 (h.find?_child hv hu)
  simp [Workspace.disconnect, Action.run_bind, hb]

theorem run_disconnect (h : Represents w F) (id : NodeId) :
    (∃ e, (Workspace.disconnect id).run w = (.error e, w)) ∨
      (∃ t ∈ F, t.id = id ∧ (Workspace.disconnect id).run w = (.ok (), w)) ∨
      ∃ v ∈ subtrees F, ∃ u ∈ v.children, u.id = id ∧
        (Workspace.disconnect id).run w = (.ok (), w.detach id v.id) ∧
        Represents (w.detach id v.id) (without id F ++ [u.retag true]) := by
  cases hb : w.block id with
  | error e => exact .inl ⟨e, by simp [Workspace.disconnect, Action.run_bind, hb]⟩
  | ok b =>
    have hf := Workspace.block_eq_ok_iff.1 hb
    cases hp : b.parent with
    | none =>
      obtain ⟨t, ht, hi, -⟩ := h.exists_tree hf hp
      exact .inr (.inl ⟨t, ht, hi, by simp [Workspace.disconnect, Action.run_bind, hb, hp]⟩)
    | some p =>
      obtain ⟨v, hv, rfl, u, hu, rfl, -⟩ := h.exists_parent hf hp
      exact .inr (.inr ⟨v, hv, u, hu, rfl, h.disconnect_child hv hu, h.detach hv hu⟩)

theorem connect_placed (h : Represents w F) {t u : Tree Flavor} {index : Option Nat}
    (ha : w.Admits t) (hu : u ∈ subtrees F) (hk : u.Takes index t.kind) :
    (Workspace.connect t.id ⟨u.id, index⟩).run (w.place t) =
        (.ok (), (w.place t).attach t.id ⟨u.id, index⟩) ∧
      Represents ((w.place t).attach t.id ⟨u.id, index⟩)
        (insertAt ⟨u.id, index⟩ (t.settle false) F) := by
  have hx := h.place ha
  have ht : t.settle true ∈ F ++ [t.settle true] := by simp
  have hu' := mem_subtrees_append hu [t.settle true]
  have hnot : u.id ∉ (t.settle true).ids := fun hm => by
    rw [Tree.ids_settle] at hm
    exact h.not_mem_of_admits ha u.id hm (Forest.mem_ids.2 ⟨u, hu, rfl⟩)
  have hk' : u.Takes index (t.settle true).kind := by rwa [Tree.kind_settle]
  have hr := hx.connect_tree ht hu' hnot hk'
  have hv := hx.attach ht hu' hnot hk'
  rw [Tree.id_settle] at hr
  rw [without_append hx.nodup, Tree.nested_eq_retag, Tree.retag_settle, Tree.id_settle] at hv
  exact ⟨hr, hv⟩

theorem insertTree_node (h : Represents w F) {t u : Tree Flavor} {index : Option Nat}
    (ha : w.Admits t) (hu : u ∈ subtrees F) (hk : u.Takes index t.kind) :
    ∃ v, (Workspace.insertTree t (some ⟨u.id, index⟩)).run w = (.ok t.id, v) ∧
      Represents v (insertAt ⟨u.id, index⟩ (t.settle false) F) := by
  have hc := Workspace.checkTree_eq_ok_iff.2 ha
  have hp : w.checkAttachment ⟨u.id, index⟩ t.kind none = .ok () :=
    (h.checkAttachment_node hu).2 ⟨hk, nofun⟩
  obtain ⟨hr, hv⟩ := h.connect_placed ha hu hk
  refine ⟨_, ?_, hv⟩
  simp only [Workspace.insertTree, Action.run_bind, Action.run_check, Action.run_modify,
    Action.run_pure, hc, hp, hr]

theorem run_insertTree_at (h : Represents w F) (t : Tree Flavor) (place : Attachment) :
    (∃ e, (Workspace.insertTree t (some place)).run w = (.error e, w)) ∨
      ∃ u ∈ subtrees F, u.id = place.parent ∧ u.Takes place.index t.kind ∧
        ∃ v, (Workspace.insertTree t (some place)).run w = (.ok t.id, v) ∧
          Represents v (insertAt place (t.settle false) F) := by
  cases hc : w.checkTree t with
  | error e => exact .inl ⟨e, by simp [Workspace.insertTree, Action.run_bind, hc]⟩
  | ok _ =>
    cases hp : w.checkAttachment place t.kind none with
    | error e => exact .inl ⟨e, by simp [Workspace.insertTree, Action.run_bind, hc, hp]⟩
    | ok _ =>
      obtain ⟨u, hu, he, hk, -⟩ := h.checkAttachment_eq_ok_iff.1 hp
      obtain ⟨p, index⟩ := place
      obtain rfl : u.id = p := he
      exact .inr ⟨u, hu, rfl, hk, h.insertTree_node (Workspace.checkTree_eq_ok_iff.1 hc) hu hk⟩

theorem delete_node (h : Represents w F) {u : Tree Flavor} (hu : u ∈ subtrees F) :
    ∃ v, (Workspace.delete u.id).run w = (.ok u, v) ∧ Represents v (without u.id F) := by
  have hs := h.snapshot_eq hu
  have hn := h.size_le hu
  obtain ⟨t, ht, hut⟩ := Forest.mem_subtrees.1 hu
  rcases Tree.eq_or_child_of_mem_subtrees hut with rfl | ⟨v, hv, hc⟩
  · have hb := Workspace.block_eq_ok_iff.2 (h.find?_tree ht)
    refine ⟨_, ?_, h.remove_tree ht hn⟩
    simp only [Workspace.delete, Action.run_bind, Action.run_check, Action.run_modify,
      Action.run_pure, hs, hb, Tree.parent_block]
    rfl
  · have hv' : v ∈ subtrees F := Forest.mem_subtrees.2 ⟨t, ht, hv⟩
    have hb := Workspace.block_eq_ok_iff.2 (h.find?_child hv' hc)
    rw [← Workspace.size_modifyBlock w v.id (Block.withChildren (·.filter (· ≠ u.id)))] at hn
    refine ⟨_, ?_, h.remove_child hv' hc hn⟩
    simp only [Workspace.delete, Action.run_bind, Action.run_check, Action.run_modify,
      Action.run_pure, hs, hb, Tree.parent_block]
    rfl

theorem run_delete (h : Represents w F) (id : NodeId) :
    (∃ e, (Workspace.delete id).run w = (.error e, w)) ∨
      ∃ u ∈ subtrees F, u.id = id ∧ ∃ v, (Workspace.delete id).run w = (.ok u, v) ∧
        Represents v (without id F) := by
  cases hb : w.find? id with
  | none =>
    have hs : w.snapshot id = .error (.unknownNode id) := by
      cases hn : w.size <;> simp [Workspace.snapshot, Workspace.snapshotWithin, hb, hn]
    refine .inl ⟨.unknownNode id, ?_⟩
    simp only [Workspace.delete, Action.run_bind, Action.run_check, hs]
  | some b =>
    obtain ⟨u, hu, rfl, -⟩ := h.exists_node hb
    exact .inr ⟨u, hu, rfl, h.delete_node hu⟩

theorem run_edit (h : Represents w F) (id : NodeId) (edit : FieldEdit) :
    (∃ e, (Workspace.edit id edit).run w = (.error e, w)) ∨
      ∃ flavor l l', .leaf id flavor l ∈ subtrees F ∧ edit.applyLeaf l = .ok l' ∧
        ∃ v, (Workspace.edit id edit).run w = (.ok (), v) ∧
          Represents v (Forest.setRule id (.leaf l') F) := by
  cases hb : w.find? id with
  | none =>
    refine .inl ⟨.unknownNode id, ?_⟩
    simp only [Workspace.edit, Action.run_bind, Action.run_check, Workspace.block, hb]
  | some b =>
    have hk := Workspace.block_eq_ok_iff.2 hb
    obtain ⟨u, hu, rfl, he⟩ := h.exists_node hb
    have hbody : b.body = u.body := by rw [he, Tree.body_block]
    cases u with
    | group i flavor shape ts =>
      refine .inl ⟨.invalid (.fieldNotApplicable edit.field shape.kind), ?_⟩
      simp only [Workspace.edit, Action.run_bind, Action.run_check, hk, hbody, Tree.body, Body.edit]
      rfl
    | leaf i flavor l =>
      cases hl : edit.applyLeaf l with
      | error e =>
        refine .inl ⟨.invalid e, ?_⟩
        simp only [Workspace.edit, Action.run_bind, Action.run_check, hk, hbody, Tree.body,
          Body.edit, hl]
        rfl
      | ok l' =>
        refine .inr ⟨flavor, l, l', hu, hl, _, ?_,
          h.setRule hu (FieldEdit.kind_of_applyLeaf hl)⟩
        simp only [Workspace.edit, Action.run_bind, Action.run_check, Action.run_modify, hk, hbody,
          Tree.body, Body.edit, hl]
        rfl

end Represents

/-- An operation that does no more than issue ids, whatever its result. -/
def Action.Issuing {ε α : Type} (action : Action ε α) : Prop :=
  ∀ w : Workspace, w.Issues (action.run w).2

namespace Action.Issuing

variable {ε α β : Type}

theorem pure (a : α) : Issuing (pure a : Action ε α) := .refl

theorem check (f : Workspace → Except ε α) : Issuing (Action.check f) := fun w => by
  rw [run_check]
  exact .refl w

theorem bind {action : Action ε α} {f : α → Action ε β} (ha : Issuing action)
    (hf : ∀ a, Issuing (f a)) : Issuing (action >>= f) := by
  intro w
  have hw := ha w
  rw [run_bind]
  split
  · next a v hr => rw [hr] at hw; exact hw.trans (hf a v)
  · next e v hr => rw [hr] at hw; exact hw

theorem freshId (offers : List NodeId) : Issuing (Workspace.freshId offers : Action ε NodeId) :=
  fun w => w.issues_retire [w.pick offers]

theorem stringsOfPairs (flavor : Flavor) (offers : List NodeId) (pairs : List Pair) :
    Issuing (Workspace.stringsOfPairs flavor offers pairs) := by
  induction pairs generalizing offers with
  | nil => exact .pure _
  | cons pair pairs ih =>
    exact .bind (.check _) fun l => .bind (.freshId offers) fun id =>
      .bind (ih offers.tail) fun ts => .pure _

theorem choiceOfPairs (pairs : List Pair) (flavor : Flavor) (offers : List NodeId) :
    Issuing (Workspace.choiceOfPairs pairs flavor offers) :=
  .bind (.freshId offers) fun _ => .bind (.stringsOfPairs _ _ _) fun _ => .pure _

end Action.Issuing

namespace Represents

variable {w : Workspace} {F : Forest}

/-- Inserting a tree keeps a workspace one that represents a forest. -/
theorem exists_insertTree (h : Represents w F) (t : Tree Flavor) (place : Option Attachment) :
    ∃ G, Represents ((Workspace.insertTree t place).run w).2 G := by
  cases place with
  | none =>
    by_cases ha : w.Admits t
    · exact ⟨_, by rw [Workspace.run_insertTree ha]; exact h.place ha⟩
    · obtain ⟨e, hr⟩ := Workspace.run_insertTree_of_not ha
      exact ⟨F, by rwa [hr]⟩
  | some place =>
    rcases h.run_insertTree_at t place with ⟨e, hr⟩ | ⟨u, -, -, -, v, hr, hv⟩
    · exact ⟨F, by rwa [hr]⟩
    · exact ⟨_, by rwa [hr]⟩

theorem exists_importPairs (h : Represents w F) (pairs : List Pair) (place : Option Attachment)
    (flavor : Flavor) (offers : List NodeId) :
    ∃ G, Represents ((Workspace.importPairs pairs place flavor offers).run w).2 G := by
  have hi := Action.Issuing.choiceOfPairs pairs flavor offers w
  rw [Workspace.importPairs, Action.run_bind]
  split
  · next t v hr =>
    rw [hr] at hi
    rw [Action.run_mapError]
    exact (h.of_issues hi).exists_insertTree t place
  · next e v hr =>
    rw [hr] at hi
    exact ⟨F, h.of_issues hi⟩

theorem insertTree_refused (h : Represents w F) {t : Tree Flavor} {place : Option Attachment}
    {error : WorkspaceError} (he : ((Workspace.insertTree t place).run w).1 = .error error) :
    ((Workspace.insertTree t place).run w).2 = w := by
  cases place with
  | none =>
    by_cases ha : w.Admits t
    · rw [Workspace.run_insertTree ha] at he
      cases he
    · obtain ⟨_, hr⟩ := Workspace.run_insertTree_of_not ha
      rw [hr]
  | some place =>
    rcases h.run_insertTree_at t place with ⟨_, hr⟩ | ⟨_, -, -, -, _, hr, -⟩
    · rw [hr]
    · rw [hr] at he
      cases he

theorem importPairs_refused (h : Represents w F) {pairs : List Pair} {place : Option Attachment}
    {flavor : Flavor} {offers : List NodeId} {error : ImportError}
    (he : ((Workspace.importPairs pairs place flavor offers).run w).1 = .error error) :
    w.Issues ((Workspace.importPairs pairs place flavor offers).run w).2 := by
  have hi := Action.Issuing.choiceOfPairs pairs flavor offers w
  rw [Workspace.importPairs, Action.run_bind] at he ⊢
  split at he
  · next t v hr =>
    rw [hr] at hi
    rw [Action.run_mapError] at he ⊢
    cases hx : ((Workspace.insertTree t place).run v).1 with
    | error e => rwa [(h.of_issues hi).insertTree_refused hx]
    | ok id =>
      rw [hx] at he
      cases he
  · next e v hr => rwa [hr] at hi

end Represents

end LabelGrammar
