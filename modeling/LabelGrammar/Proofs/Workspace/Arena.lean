import LabelGrammar.Proofs.Forest.Legal
import LabelGrammar.Workspace.Edit

/-! # Workspaces and forests

A workspace represents a forest if its blocks are those of the trees, in any order, and its top
level lists the roots. What the workspace answers about blocks, parents and children is then read
off the trees.
-/

namespace LabelGrammar

section Retag

variable (b : Block)

@[simp] theorem Block.id_retag : b.retag.id = b.id := by unfold retag; split <;> rfl

@[simp] theorem Block.parent_retag : b.retag.parent = b.parent := by unfold retag; split <;> rfl

@[simp] theorem Block.body_retag : b.retag.body = b.body := by unfold retag; split <;> rfl

end Retag

namespace Tree

def body : Tree Flavor → Body
  | .leaf _ _ l => .leaf l
  | .group _ _ shape ts => .group shape (ts.map Tree.id)

/-- The block of the root of a tree below a parent. -/
def block (parent : Option NodeId) (t : Tree Flavor) : Block :=
  Block.retag ⟨t.id, t.flavor, parent, t.body⟩

variable (parent : Option NodeId) (t : Tree Flavor)

@[simp] theorem rule_body : t.body.rule = t.rule := by cases t <;> rfl

@[simp] theorem children_body : t.body.children = t.children.map Tree.id := by cases t <;> rfl

@[simp] theorem id_block : (t.block parent).id = t.id := by simp [block]

@[simp] theorem parent_block : (t.block parent).parent = parent := by simp [block]

@[simp] theorem body_block : (t.block parent).body = t.body := by simp [block]

@[simp] theorem kind_block : (t.block parent).kind = t.kind := by
  simp [Block.kind, Block.rule, kind]

@[simp] theorem children_block : (t.block parent).children = t.children.map Tree.id := by
  simp [Block.children]

theorem flavor_block : (t.block parent).flavor = (t.retag parent.isNone).flavor := by
  have hk : (⟨t.id, t.flavor, parent, t.body⟩ : Block).kind = t.kind := by
    simp [Block.kind, Block.rule, kind]
  rw [flavor_retag, block, Block.retag, hk]
  split <;> rfl

variable {parent t}

/-- Blocks are told apart by id, flavor, parent and body. -/
theorem block_eq {b : Block} (hi : b.id = t.id) (hf : b.flavor = (t.retag parent.isNone).flavor)
    (hp : b.parent = parent) (hb : b.body = t.body) : b = t.block parent := by
  have hx : (⟨b.id, b.flavor, b.parent, b.body⟩ : Block) = ⟨(t.block parent).id,
      (t.block parent).flavor, (t.block parent).parent, (t.block parent).body⟩ := by
    rw [hi, hf, hp, hb, id_block, flavor_block, parent_block, body_block]
  exact hx

theorem toBlocksAll_eq (parent : Option NodeId) (ts : List (Tree Flavor)) :
    toBlocksAll parent ts = ts.flatMap (toBlocks parent) := by
  induction ts with
  | nil => rfl
  | cons t ts ih => simp [toBlocksAll, ih]

theorem toBlocks_eq (parent : Option NodeId) (t : Tree Flavor) :
    t.toBlocks parent = t.block parent :: t.children.flatMap (toBlocks (some t.id)) := by
  cases t with
  | leaf _ _ l => cases l <;> rfl
  | group => rw [toBlocks, toBlocksAll_eq]; rfl

theorem map_id_toBlocks (parent : Option NodeId) (t : Tree Flavor) :
    (t.toBlocks parent).map Block.id = t.ids := by
  induction t using children_induction generalizing parent with
  | step t ih =>
    rw [toBlocks_eq, ids_eq, List.map_cons, List.map_flatMap, id_block]
    congr 1
    exact List.flatMap_congr fun c hc => ih c hc _

theorem mem_toBlocks {parent : Option NodeId} {t : Tree Flavor} {b : Block} :
    b ∈ t.toBlocks parent ↔
      b = t.block parent ∨ ∃ v ∈ t.subtrees, ∃ u ∈ v.children, b = u.block (some v.id) := by
  induction t using children_induction generalizing parent with
  | step t ih =>
    rw [toBlocks_eq, List.mem_cons, List.mem_flatMap]
    refine or_congr_right ⟨?_, ?_⟩
    · rintro ⟨c, hc, hb⟩
      rcases (ih c hc).1 hb with rfl | ⟨v, hv, hu⟩
      · exact ⟨t, t.self_mem_subtrees, c, hc, rfl⟩
      · exact ⟨v, mem_subtrees_of_child hc hv, hu⟩
    · rintro ⟨v, hv, hu⟩
      rcases mem_subtrees.1 hv with rfl | ⟨c, hc, hv⟩
      · obtain ⟨c, hc, rfl⟩ := hu
        exact ⟨c, hc, (ih c hc).2 (.inl rfl)⟩
      · exact ⟨c, hc, (ih c hc).2 (.inr ⟨v, hv, hu⟩)⟩

theorem toBlocks_settle (parent : Option NodeId) (t : Tree Flavor) :
    (t.settle parent.isNone).toBlocks parent = t.toBlocks parent := by
  induction t using children_induction generalizing parent with
  | step t ih =>
    rw [toBlocks_eq, toBlocks_eq parent t, id_settle, children_settle, List.flatMap_map]
    congr 1
    · refine block_eq (by simp) ?_ (by simp) ?_
      · rw [flavor_block, retag_settle, Tree.settle_eq, flavor_retag, flavor_retag]
        simp
      · rw [body_block, Tree.settle_eq]
        cases t with
        | leaf _ _ l => cases l <;> rfl
        | group _ _ shape _ => cases shape <;>
          simp [withChildren, retag, children, body, kind, rule, Rule.kind, Shape.kind, withFlavor]
    · exact List.flatMap_congr fun c hc => ih c hc (some t.id)

end Tree

namespace Forest

/-- The blocks of a forest in pre-order. -/
def blocks (F : Forest) : List Block := F.flatMap (Tree.toBlocks none)

variable {F : Forest}

theorem map_id_blocks (F : Forest) : (blocks F).map Block.id = ids F := by
  rw [blocks, List.map_flatMap]
  exact List.flatMap_congr fun t _ => Tree.map_id_toBlocks none t

theorem mem_blocks {b : Block} : b ∈ blocks F ↔ (∃ t ∈ F, b = t.block none) ∨
    ∃ v ∈ subtrees F, ∃ u ∈ v.children, b = u.block (some v.id) := by
  simp only [blocks, List.mem_flatMap, Tree.mem_toBlocks, mem_subtrees]
  constructor
  · rintro ⟨t, ht, h | ⟨v, hv, h⟩⟩
    · exact .inl ⟨t, ht, h⟩
    · exact .inr ⟨v, ⟨t, ht, hv⟩, h⟩
  · rintro (⟨t, ht, h⟩ | ⟨v, ⟨t, ht, hv⟩, h⟩)
    · exact ⟨t, ht, .inl h⟩
    · exact ⟨t, ht, .inr ⟨v, hv, h⟩⟩

theorem exists_block {u : Tree Flavor} (hu : u ∈ subtrees F) :
    ∃ parent, u.block parent ∈ blocks F := by
  obtain ⟨t, ht, hu⟩ := mem_subtrees.1 hu
  rcases Tree.eq_or_child_of_mem_subtrees hu with rfl | ⟨v, hv, hu⟩
  · exact ⟨none, mem_blocks.2 (.inl ⟨u, ht, rfl⟩)⟩
  · exact ⟨some v.id, mem_blocks.2 (.inr ⟨v, mem_subtrees.2 ⟨t, ht, hv⟩, u, hu, rfl⟩)⟩

end Forest

end LabelGrammar
