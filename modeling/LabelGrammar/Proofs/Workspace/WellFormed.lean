import LabelGrammar.Proofs.Workspace.Represents

/-! # Well-formed workspaces

The blocks, their parents, their lists of children and the top level say the same thing, and
together they make a forest. This holds of every workspace that represents one.
-/

namespace LabelGrammar

open Forest

namespace Workspace

/-- Parents, lists of children and the top level agree. -/
structure Linked (w : Workspace) : Prop where
  key {id : NodeId} {b : Block} : w.find? id = some b → b.id = id
  unique : (w.blocks.map Block.id).Nodup
  topLevel_nodup : w.topLevel.Nodup
  mem_topLevel {id : NodeId} : id ∈ w.topLevel ↔ ∃ b, w.find? id = some b ∧ b.parent = none
  children_nodup {id : NodeId} {b : Block} : w.find? id = some b → b.children.Nodup
  child {p c : NodeId} {b : Block} : w.find? p = some b → c ∈ b.children →
    ∃ d, w.find? c = some d ∧ d.parent = some p
  parent {p c : NodeId} {d : Block} : w.find? c = some d → d.parent = some p →
    ∃ b, w.find? p = some b ∧ c ∈ b.children
  leaf {id : NodeId} {b : Block} : w.find? id = some b → b.kind.isContainer = false →
    b.children = []

/-- The ways from the top level to a block. A way is given by the positions in the lists that are
passed, the last one first. -/
inductive Leads (w : Workspace) : List Nat → NodeId → Prop where
  | top {i : Nat} {id : NodeId} : w.topLevel[i]? = some id → Leads w [i] id
  | child {way : List Nat} {i : Nat} {id c : NodeId} {b : Block} :
      Leads w way id → w.find? id = some b → b.children[i]? = some c → Leads w (i :: way) c

/-- The blocks make a forest: each is reached from the top level, in one way. -/
structure WellFormed (w : Workspace) : Prop extends Linked w where
  reached {id : NodeId} {b : Block} : w.find? id = some b → ∃! way, w.Leads way id

variable {w : Workspace} {id p q : NodeId} {b b' : Block} {i j : Nat}

theorem index_unique {l : List NodeId} (hl : l.Nodup) (hi : l[i]? = some id)
    (hj : l[j]? = some id) : i = j := by
  obtain ⟨hlt, -⟩ := List.getElem?_eq_some_iff.1 hi
  exact (List.getElem?_inj hlt hl).1 (hi.trans hj.symm)

theorem Linked.not_child (h : w.Linked) (hi : id ∈ w.topLevel) (hb : w.find? p = some b) :
    id ∉ b.children := by
  intro hc
  obtain ⟨d, hd, hn⟩ := h.mem_topLevel.1 hi
  obtain ⟨d', hd', hp⟩ := h.child hb hc
  obtain rfl := Option.some.inj (hd.symm.trans hd')
  rw [hn] at hp
  cases hp

theorem Linked.parent_unique (h : w.Linked) (hb : w.find? p = some b) (hi : id ∈ b.children)
    (hb' : w.find? q = some b') (hi' : id ∈ b'.children) : p = q := by
  obtain ⟨d, hd, hp⟩ := h.child hb hi
  obtain ⟨d', hd', hq⟩ := h.child hb' hi'
  obtain rfl := Option.some.inj (hd.symm.trans hd')
  exact Option.some.inj (hp.symm.trans hq)

/-- Links between parents and children leave no choice of a way. -/
theorem Linked.way_unique (h : w.Linked) {way way' : List Nat} (hw : w.Leads way id)
    (hw' : w.Leads way' id) : way = way' := by
  -- Two ways to one block come from the same parent, or both from the top level.
  induction hw generalizing way' with
  | top hi =>
    cases hw' with
    | top hj => rw [index_unique h.topLevel_nodup hi hj]
    | child _ hb hj =>
      exact (h.not_child (List.mem_of_getElem? hi) hb (List.mem_of_getElem? hj)).elim
  | child _ hb hi ih =>
    cases hw' with
    | top hj => exact (h.not_child (List.mem_of_getElem? hj) hb (List.mem_of_getElem? hi)).elim
    | child hv hb' hj =>
      obtain rfl := h.parent_unique hb (List.mem_of_getElem? hi) hb' (List.mem_of_getElem? hj)
      obtain rfl := Option.some.inj (hb.symm.trans hb')
      rw [ih hv, index_unique (h.children_nodup hb) hi hj]

end Workspace

namespace Represents

variable {w : Workspace} {F : Forest} {u v : Tree Flavor}

theorem linked (h : Represents w F) : w.Linked where
  key hb := (h.find?_eq_some_iff.1 hb).2
  unique := h.unique
  topLevel_nodup := h.topLevel ▸ h.nodup.sublist (map_id_sublist_ids F)
  mem_topLevel := by
    intro id
    rw [h.topLevel, List.mem_map]
    constructor
    · rintro ⟨t, ht, rfl⟩
      exact ⟨_, h.find?_tree ht, Tree.parent_block _ _⟩
    · rintro ⟨b, hb, hp⟩
      obtain ⟨t, ht, hi, -⟩ := h.exists_tree hb hp
      exact ⟨t, ht, hi⟩
  children_nodup hb := by
    obtain ⟨u, hu, -, he⟩ := h.exists_node hb
    rw [he, Tree.children_block]
    exact (children_nodup (h.nodup.sublist (ids_sublist hu))).sublist (map_id_sublist_ids _)
  child hb hc := by
    obtain ⟨u, hu, rfl, he⟩ := h.exists_node hb
    rw [he, Tree.children_block] at hc
    obtain ⟨v, hv, rfl⟩ := List.mem_map.1 hc
    exact ⟨_, h.find?_child hu hv, Tree.parent_block _ _⟩
  parent hd hp := by
    obtain ⟨v, hv, rfl, u, hu, rfl, -⟩ := h.exists_parent hd hp
    obtain ⟨parent, hb⟩ := h.find?_node hv
    exact ⟨_, hb, by rw [Tree.children_block]; exact List.mem_map_of_mem hu⟩
  leaf hb hk := by
    obtain ⟨u, hu, -, he⟩ := h.exists_node hb
    rw [he, Tree.kind_block] at hk
    rw [he, Tree.children_block, Tree.children_eq_nil u hk, List.map_nil]

/-- Below a block that is reached, every node is. -/
theorem exists_way_below (h : Represents w F) (hv : v ∈ subtrees F) {way : List Nat}
    (hw : w.Leads way v.id) (hu : u ∈ v.subtrees) : ∃ way, w.Leads way u.id := by
  induction v using Tree.children_induction generalizing way with
  | step v ih =>
    rcases Tree.mem_subtrees.1 hu with rfl | ⟨c, hc, hu⟩
    · exact ⟨way, hw⟩
    · obtain ⟨parent, hb⟩ := h.find?_node hv
      obtain ⟨i, hi⟩ := List.mem_iff_getElem?.1 (List.mem_map_of_mem (f := Tree.id) hc)
      have hwc : w.Leads (i :: way) c.id := .child hw hb (by rwa [Tree.children_block])
      exact ih c hc (child_mem_subtrees hv hc) hwc hu

theorem wellFormed (h : Represents w F) : w.WellFormed := by
  refine { h.linked with reached := fun {id b} hb => ?_ }
  obtain ⟨u, hu, rfl, -⟩ := h.exists_node hb
  obtain ⟨t, ht, hu⟩ := Forest.mem_subtrees.1 hu
  obtain ⟨i, hi⟩ := List.mem_iff_getElem?.1 (List.mem_map_of_mem (f := Tree.id) ht)
  obtain ⟨way, hw⟩ := h.exists_way_below (tree_mem_subtrees ht) (.top (h.topLevel ▸ hi)) hu
  exact ⟨way, hw, fun _ hw' => h.linked.way_unique hw' hw⟩

end Represents

end LabelGrammar
