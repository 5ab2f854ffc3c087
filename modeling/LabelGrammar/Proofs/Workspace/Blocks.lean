import LabelGrammar.Proofs.Workspace.Attachment

/-! # Changing blocks

How the edits of a forest show in its blocks, up to their order. A change of one node is followed
from the node through all trees above it; what it adds and takes away is carried along as two lists
of blocks.
-/

namespace LabelGrammar

open Forest

namespace Block

def onId (id : NodeId) (f : Block → Block) (b : Block) : Block := if b.id = id then f b else b

def withChildren (f : List NodeId → List NodeId) (b : Block) : Block :=
  { b with body := b.body.mapChildren f }

def withBody (body : Body) (b : Block) : Block := { b with body }

def reparent (parent : Option NodeId) (b : Block) : Block := Block.retag { b with parent }

@[simp] theorem id_withChildren (f : List NodeId → List NodeId) (b : Block) :
    (b.withChildren f).id = b.id := rfl

@[simp] theorem id_withBody (body : Body) (b : Block) : (b.withBody body).id = b.id := rfl

@[simp] theorem id_reparent (parent : Option NodeId) (b : Block) : (b.reparent parent).id = b.id :=
  id_retag _

variable {id : NodeId} {f : Block → Block} {b : Block} {bs : List Block}

theorem onId_of_eq (h : b.id = id) : onId id f b = f b := if_pos h

theorem onId_of_ne (h : b.id ≠ id) : onId id f b = b := if_neg h

theorem id_onId (hf : ∀ b, (f b).id = b.id) (b : Block) : (onId id f b).id = b.id := by
  unfold onId; split
  · exact hf b
  · rfl

theorem map_id_map_onId (hf : ∀ b, (f b).id = b.id) (bs : List Block) :
    (bs.map (onId id f)).map Block.id = bs.map Block.id := by
  rw [List.map_map]
  exact List.map_congr_left fun b _ => id_onId hf b

theorem map_onId_of_not_mem (h : id ∉ bs.map Block.id) : bs.map (onId id f) = bs :=
  (List.map_congr_left fun b hb => onId_of_ne fun he =>
    h (List.mem_map.2 ⟨b, hb, he⟩)).trans (List.map_id _)

end Block

open Block

section Modify

variable {p : NodeId} {f : Tree Flavor → Tree Flavor} {g : Block → Block} {A B : List Block}
  {ts : List (Tree Flavor)} {t u : Tree Flavor}

theorem map_id_flatMap_toBlocks (parent : Option NodeId) (ts : List (Tree Flavor)) :
    (ts.flatMap (Tree.toBlocks parent)).map Block.id = ids ts := by
  rw [List.map_flatMap]
  exact List.flatMap_congr fun t _ => Tree.map_id_toBlocks parent t

theorem perm_of_tree (hn : (ids ts).Nodup) (ht : t ∈ ts) (hp : p ∈ t.ids) {q : Option NodeId}
    (h : (A ++ (t.modifyAt p f).toBlocks q).Perm (B ++ (t.toBlocks q).map (onId p g))) :
    (A ++ (modifyAt p f ts).flatMap (Tree.toBlocks q)).Perm
      (B ++ (ts.flatMap (Tree.toBlocks q)).map (onId p g)) := by
  obtain ⟨l, r, rfl⟩ := List.append_of_mem ht
  obtain ⟨hl, hr⟩ := not_mem_ids_of_split hn hp
  rw [← map_id_flatMap_toBlocks q] at hl hr
  rw [modifyAt_split f hn hp]
  simp only [List.flatMap_append, List.flatMap_cons, List.map_append, map_onId_of_not_mem hl,
    map_onId_of_not_mem hr]
  rw [List.perm_iff_count] at h ⊢
  intro b
  have := h b
  simp only [List.count_append] at this ⊢
  omega

/-- A change of one node shows in the blocks of the tree around it as in its own. -/
theorem perm_modifyAt (hf : ∀ u, (f u).id = u.id) (hn : t.ids.Nodup) (hu : u ∈ t.subtrees)
    (h : ∀ q, (A ++ (f u).toBlocks q).Perm (B ++ (u.toBlocks q).map (onId u.id g)))
    (q : Option NodeId) :
    (A ++ (t.modifyAt u.id f).toBlocks q).Perm (B ++ (t.toBlocks q).map (onId u.id g)) := by
  induction t using Tree.children_induction generalizing q with
  | step t ih =>
    rcases Tree.mem_subtrees.1 hu with rfl | ⟨c, hc, hu⟩
    · rw [Tree.modifyAt_of_eq f rfl]; exact h q
    · have huc : u.id ∈ c.ids := Tree.mem_ids.2 ⟨u, hu, rfl⟩
      have hn' := children_nodup hn
      have hne : t.id ≠ u.id := by
        rw [Tree.ids_eq, List.nodup_cons] at hn
        exact fun he => hn.1 (he ▸ List.mem_flatMap.2 ⟨c, hc, huc⟩)
      have hm : (t.children.map (Tree.modifyAt u.id f)).map Tree.id = t.children.map Tree.id := by
        rw [List.map_map]
        exact List.map_congr_left fun d _ => Tree.id_modifyAt hf d
      have hb : (t.withChildren (t.children.map (Tree.modifyAt u.id f))).block q = t.block q := by
        refine Tree.block_eq (by simp) (by simp [Tree.flavor_block, Tree.flavor_retag]) (by simp) ?_
        rw [Tree.body_block]
        cases t with
        | leaf => rfl
        | group i flavor shape ts => exact congrArg (Body.group shape) hm
      have hs := perm_of_tree (q := some t.id) hn' hc huc
        (ih c hc (hn'.sublist (ids_sublist (tree_mem_subtrees hc))) hu (some t.id))
      rw [Tree.modifyAt_of_ne f hne, Tree.toBlocks_eq, Tree.toBlocks_eq q t, hb, List.map_cons,
        onId_of_ne (by rwa [Tree.id_block]), Tree.children_withChildren_map, Tree.id_withChildren]
      exact List.perm_middle.trans ((hs.cons _).trans List.perm_middle.symm)

theorem perm_blocks_modifyAt {F : Forest} (hf : ∀ u, (f u).id = u.id) (hn : (ids F).Nodup)
    (hu : u ∈ subtrees F)
    (h : ∀ q, (A ++ (f u).toBlocks q).Perm (B ++ (u.toBlocks q).map (onId u.id g))) :
    (A ++ blocks (modifyAt u.id f F)).Perm (B ++ (blocks F).map (onId u.id g)) := by
  obtain ⟨t, ht, hu⟩ := Forest.mem_subtrees.1 hu
  have hs := hn.sublist (ids_sublist (tree_mem_subtrees ht))
  exact perm_of_tree hn ht (Tree.mem_ids.2 ⟨u, hu, rfl⟩) (perm_modifyAt hf hs hu h none)

end Modify

section Steps

variable {t u new : Tree Flavor} {q : Option NodeId}

theorem map_onId_toBlocks (hn : t.ids.Nodup) (g : Block → Block) :
    (t.toBlocks q).map (onId t.id g) =
      g (t.block q) :: t.children.flatMap (Tree.toBlocks (some t.id)) := by
  have hc : t.id ∉ (t.children.flatMap (Tree.toBlocks (some t.id))).map Block.id := by
    rw [Tree.ids_eq, List.nodup_cons] at hn
    rw [map_id_flatMap_toBlocks]
    exact hn.1
  rw [Tree.toBlocks_eq, List.map_cons, onId_of_eq (Tree.id_block _ _), map_onId_of_not_mem hc]

theorem toBlocks_retag (hn : t.ids.Nodup) (parent : Option NodeId) :
    (t.toBlocks q).map (onId t.id (reparent parent)) =
      (t.retag parent.isNone).toBlocks parent := by
  rw [map_onId_toBlocks hn, Tree.toBlocks_eq parent, Tree.id_retag, Tree.children_retag]
  congr 1
  have hk : ({ t.block q with parent } : Block).kind = t.kind := Tree.kind_block q t
  refine Tree.block_eq (by simp) ?_ (by simp [reparent]) ?_
  · rw [reparent, Block.retag, hk, Tree.retag_retag, Tree.flavor_retag]
    split
    · rfl
    · next hs => simp [Tree.flavor_block, Tree.flavor_retag, hs]
  · rw [reparent, Block.body_retag, Tree.body_block]
    unfold Tree.retag
    split <;> cases t <;> rfl

theorem block_withChildren (f : List NodeId → List NodeId) {ts : List (Tree Flavor)}
    (h : t.kind.isContainer = true) (hf : f (t.children.map Tree.id) = ts.map Tree.id) :
    (t.block q).withChildren f = (t.withChildren ts).block q := by
  refine Tree.block_eq (by simp) ?_ (by simp [withChildren]) ?_
  · simp [withChildren, Tree.flavor_block, Tree.flavor_retag]
  · rw [withChildren, Tree.body_block]
    cases t with
    | leaf _ _ l => cases l <;> cases h
    | group _ _ shape _ => exact congrArg (Body.group shape) hf

theorem perm_insertChild (hn : u.ids.Nodup) {index : Option Nat} (ht : u.Takes index new.kind)
    (q : Option NodeId) : ((Tree.insertChild index new u).toBlocks q).Perm
      (new.toBlocks (some u.id) ++ (u.toBlocks q).map
        (onId u.id (withChildren fun cs => cs.insertIdx (index.getD cs.length) new.id))) := by
  have hb : (u.block q).withChildren (fun cs => cs.insertIdx (index.getD cs.length) new.id) =
      (u.withChildren (u.children.insertIdx (index.getD u.children.length) new)).block q :=
    block_withChildren _ ht.container (by rw [List.map_insertIdx, List.length_map])
  have hp := (List.perm_insertIdx new u.children ht.inRange).flatMap_right
    (Tree.toBlocks (some u.id))
  rw [map_onId_toBlocks hn, hb, Tree.toBlocks_eq, Tree.id_insertChild, Tree.insertChild,
    Tree.children_withChildren _ ht.container]
  exact (hp.cons _).trans List.perm_middle.symm

theorem perm_dropChild (hn : u.ids.Nodup) (ht : t ∈ u.children) (q : Option NodeId) :
    (t.toBlocks (some u.id) ++ (Tree.dropChild t.id u).toBlocks q).Perm
      ((u.toBlocks q).map (onId u.id (withChildren (·.filter (· ≠ t.id))))) := by
  have hc := Tree.isContainer_of_child ht
  have hb : (u.block q).withChildren (·.filter (· ≠ t.id)) =
      (u.withChildren (u.children.filter (·.id ≠ t.id))).block q :=
    block_withChildren _ hc (by rw [List.filter_map]; rfl)
  have hp := (perm_cons_filter (children_nodup hn) ht).flatMap_right (Tree.toBlocks (some u.id))
  rw [map_onId_toBlocks hn, hb, Tree.toBlocks_eq q, Tree.id_dropChild, Tree.dropChild,
    Tree.children_withChildren _ hc]
  exact List.perm_middle.trans (hp.symm.cons _)

end Steps

section Move

variable {bs : List Block} {F G : Forest} {t u v : Tree Flavor}

theorem perm_without_tree (hn : (ids F).Nodup) (ht : t ∈ F) :
    (t.toBlocks none ++ blocks (without t.id F)).Perm (blocks F) := by
  rw [without_tree hn ht]
  exact ((perm_cons_filter hn ht).flatMap_right (Tree.toBlocks none)).symm

/-- A node that its parent no longer lists stands apart from the rest of the forest. -/
theorem perm_without_child (hn : (ids F).Nodup) (hv : v ∈ subtrees F) (hu : u ∈ v.children) :
    (u.toBlocks (some v.id) ++ blocks (without u.id F)).Perm
      ((blocks F).map (onId v.id (withChildren (·.filter (· ≠ u.id))))) := by
  rw [without_eq_modifyAt hn hv hu]
  exact perm_blocks_modifyAt (B := []) (fun x => Tree.id_dropChild _ x) hn hv
    (perm_dropChild (hn.sublist (ids_sublist hv)) hu)

theorem nodup_without_tree (hn : (ids F).Nodup) (ht : t ∈ F) :
    (t.ids ++ ids (without t.id F)).Nodup := by
  have hp := (perm_without_tree hn ht).map Block.id
  rw [List.map_append, Tree.map_id_toBlocks, map_id_blocks, map_id_blocks] at hp
  exact hp.nodup_iff.2 hn

theorem nodup_without_child (hn : (ids F).Nodup) (hv : v ∈ subtrees F) (hu : u ∈ v.children) :
    (u.ids ++ ids (without u.id F)).Nodup := by
  have hp := (perm_without_child hn hv hu).map Block.id
  rw [map_id_map_onId (id_withChildren _), List.map_append, Tree.map_id_toBlocks, map_id_blocks,
    map_id_blocks] at hp
  exact hp.nodup_iff.2 hn

theorem perm_attach {index : Option Nat} (hb : bs.Perm (t.toBlocks none ++ blocks G))
    (hn : (t.ids ++ ids G).Nodup) (hu : u ∈ subtrees G) (hk : u.Takes index t.kind) :
    ((bs.map (onId u.id (withChildren fun cs => cs.insertIdx (index.getD cs.length) t.id))).map
      (onId t.id (reparent (some u.id)))).Perm (blocks (insertAt ⟨u.id, index⟩ t.nested G)) := by
  have hd := List.disjoint_of_nodup_append hn
  have hnG := hn.of_append_right
  have hkn : t.nested.kind = t.kind := Tree.kind_retag false t
  have hidn : t.nested.id = t.id := Tree.id_retag false t
  have hi : (blocks (insertAt ⟨u.id, index⟩ t.nested G)).Perm
      (t.nested.toBlocks (some u.id) ++ (blocks G).map
        (onId u.id (withChildren fun cs => cs.insertIdx (index.getD cs.length) t.id))) := by
    refine perm_blocks_modifyAt (A := []) (fun v => Tree.id_insertChild _ _ v) hnG hu fun q => ?_
    have hk' : u.Takes index t.nested.kind := hkn ▸ hk
    have hp := perm_insertChild (hnG.sublist (ids_sublist hu)) hk' q
    rwa [hidn] at hp
  have huG : u.id ∉ (t.toBlocks none).map Block.id := by
    rw [Tree.map_id_toBlocks]
    exact fun hm => hd hm (Forest.mem_ids.2 ⟨u, hu, rfl⟩)
  have htG : t.id ∉ ((blocks G).map (onId u.id (withChildren fun cs =>
      cs.insertIdx (index.getD cs.length) t.id))).map Block.id := by
    rw [map_id_map_onId (id_withChildren _), map_id_blocks]
    exact fun hm => hd t.id_mem_ids hm
  refine ((hb.map _).map _).trans ?_
  rw [List.map_append, List.map_append, map_onId_of_not_mem huG, map_onId_of_not_mem htG,
    toBlocks_retag hn.of_append_left]
  exact hi.symm

theorem perm_detach (hb : bs.Perm (blocks F)) (hn : (ids F).Nodup) (hv : v ∈ subtrees F)
    (hu : u ∈ v.children) : ((bs.map (onId v.id (withChildren (·.filter (· ≠ u.id))))).map
      (onId u.id (reparent none))).Perm (blocks (without u.id F ++ [u.retag true])) := by
  have hn' := nodup_without_child hn hv hu
  have hG : u.id ∉ (blocks (without u.id F)).map Block.id := by
    rw [map_id_blocks]
    exact fun hm => (List.disjoint_of_nodup_append hn') u.id_mem_ids hm
  refine ((hb.map _).map _).trans (((perm_without_child hn hv hu).symm.map _).trans ?_)
  rw [List.map_append, toBlocks_retag hn'.of_append_left, map_onId_of_not_mem hG,
    blocks, blocks, List.flatMap_append, List.flatMap_singleton]
  exact List.perm_append_comm

end Move

end LabelGrammar
