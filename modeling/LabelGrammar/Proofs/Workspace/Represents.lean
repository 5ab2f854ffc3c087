import LabelGrammar.Proofs.Workspace.Arena

/-! # Reading a workspace

What a workspace that represents a forest answers: which block an id names, the copy of a subtree,
who lies above whom, and which places take a child.
-/

namespace LabelGrammar

open Forest

theorem Workspace.find?_of_mem {w : Workspace} {b : Block} (hu : (w.blocks.map Block.id).Nodup)
    (hb : b ∈ w.blocks) : w.find? b.id = some b := by
  cases hf : w.find? b.id with
  | none => simpa using List.find?_eq_none.1 hf b hb
  | some c =>
    have hc : c.id = b.id := by simpa using List.find?_some hf
    rw [List.inj_on_of_nodup_map hu (List.mem_of_find?_eq_some hf) hb hc]

/-- The blocks of a workspace are the nodes of a forest of legal trees with distinct ids. -/
structure Represents (w : Workspace) (F : Forest) : Prop where
  topLevel : w.topLevel = F.map Tree.id
  blocks : w.blocks.Perm (blocks F)
  unique : (w.blocks.map Block.id).Nodup
  issued : ∀ b ∈ w.blocks, b.id ∈ w.issued
  legal : Legal F

namespace Represents

variable {w : Workspace} {F : Forest} {u v t : Tree Flavor} {id : NodeId} {b : Block}

theorem nodup (h : Represents w F) : (ids F).Nodup := by
  rw [← map_id_blocks]
  exact (h.blocks.map Block.id).nodup_iff.1 h.unique

theorem find?_eq_some_iff (h : Represents w F) :
    w.find? id = some b ↔ b ∈ Forest.blocks F ∧ b.id = id := by
  rw [← h.blocks.mem_iff]
  constructor
  · intro hb
    exact ⟨List.mem_of_find?_eq_some hb, by simpa using List.find?_some hb⟩
  · rintro ⟨hb, rfl⟩
    exact Workspace.find?_of_mem h.unique hb

theorem find?_tree (h : Represents w F) (ht : t ∈ F) : w.find? t.id = some (t.block none) :=
  h.find?_eq_some_iff.2 ⟨mem_blocks.2 (.inl ⟨t, ht, rfl⟩), by simp⟩

theorem find?_child (h : Represents w F) (hv : v ∈ subtrees F) (hu : u ∈ v.children) :
    w.find? u.id = some (u.block (some v.id)) :=
  h.find?_eq_some_iff.2 ⟨mem_blocks.2 (.inr ⟨v, hv, u, hu, rfl⟩), by simp⟩

theorem find?_node (h : Represents w F) (hu : u ∈ subtrees F) :
    ∃ parent, w.find? u.id = some (u.block parent) := by
  obtain ⟨parent, hb⟩ := exists_block hu
  exact ⟨parent, h.find?_eq_some_iff.2 ⟨hb, by simp⟩⟩

theorem find?_legal (h : Represents w F) (hu : u ∈ subtrees F) :
    ∃ parent, w.find? u.id = some (u.block parent) ∧ u.Legal parent.isNone := by
  obtain ⟨t, ht, hut⟩ := Forest.mem_subtrees.1 hu
  rcases Tree.eq_or_child_of_mem_subtrees hut with rfl | ⟨v, hv, hc⟩
  · exact ⟨none, h.find?_tree ht, h.legal u ht⟩
  · have hv' : v ∈ subtrees F := Forest.mem_subtrees.2 ⟨t, ht, hv⟩
    obtain ⟨_, hl⟩ := h.legal.subtree hv'
    exact ⟨some v.id, h.find?_child hv' hc, hl.child hc⟩

theorem exists_tree (h : Represents w F) (hb : w.find? id = some b) (hp : b.parent = none) :
    ∃ t ∈ F, t.id = id ∧ b = t.block none := by
  obtain ⟨hm, rfl⟩ := h.find?_eq_some_iff.1 hb
  rcases mem_blocks.1 hm with ⟨t, ht, rfl⟩ | ⟨v, _, u, _, rfl⟩
  · exact ⟨t, ht, by simp, rfl⟩
  · simp at hp

theorem exists_parent (h : Represents w F) {p : NodeId} (hb : w.find? id = some b)
    (hp : b.parent = some p) :
    ∃ v ∈ subtrees F, v.id = p ∧ ∃ u ∈ v.children, u.id = id ∧ b = u.block (some p) := by
  obtain ⟨hm, rfl⟩ := h.find?_eq_some_iff.1 hb
  rcases mem_blocks.1 hm with ⟨t, _, rfl⟩ | ⟨v, hv, u, hu, rfl⟩
  · simp at hp
  · obtain rfl : v.id = p := by simpa using hp
    exact ⟨v, hv, rfl, u, hu, by simp, rfl⟩

theorem exists_node (h : Represents w F) (hb : w.find? id = some b) :
    ∃ u ∈ subtrees F, u.id = id ∧ b = u.block b.parent := by
  cases hp : b.parent with
  | none =>
    obtain ⟨t, ht, hi, he⟩ := h.exists_tree hb hp
    exact ⟨t, tree_mem_subtrees ht, hi, he⟩
  | some p =>
    obtain ⟨v, hv, -, u, hu, hi, he⟩ := h.exists_parent hb hp
    exact ⟨u, child_mem_subtrees hv hu, hi, he⟩

theorem contains_iff (h : Represents w F) : w.contains id = true ↔ id ∈ ids F := by
  rw [Workspace.contains, Option.isSome_iff_exists, Forest.mem_ids]
  constructor
  · rintro ⟨b, hb⟩
    obtain ⟨u, hu, hi, -⟩ := h.exists_node hb
    exact ⟨u, hu, hi⟩
  · rintro ⟨u, hu, rfl⟩
    exact (h.find?_node hu).imp' _ fun _ hb => hb

theorem length_ids (h : Represents w F) : (ids F).length = w.size := by
  rw [← map_id_blocks, List.length_map, Workspace.size, h.blocks.length_eq]

theorem size_le (h : Represents w F) (hu : u ∈ subtrees F) : u.size ≤ w.size := by
  have hs := (Forest.ids_sublist hu).length_le
  rwa [Tree.ids, List.length_map, Tree.length_subtrees, h.length_ids] at hs

theorem mapM_map_id {ε β : Type} {f : NodeId → Except ε β} {g : Tree Flavor → β}
    {ts : List (Tree Flavor)} (hf : ∀ t ∈ ts, f t.id = .ok (g t)) :
    (ts.map Tree.id).mapM f = .ok (ts.map g) := by
  induction ts with
  | nil => rfl
  | cons t ts ih =>
    rw [List.forall_mem_cons] at hf
    rw [List.map_cons, List.mapM_cons, hf.1, ih hf.2]
    rfl

theorem snapshotWithin_eq {parent : Option NodeId} (hu : w.find? u.id = some (u.block parent))
    (hb : ∀ v ∈ u.subtrees, ∀ c ∈ v.children, w.find? c.id = some (c.block (some v.id)))
    (hl : u.Legal parent.isNone) {n : Nat} (hn : u.height ≤ n) :
    w.snapshotWithin n u.id = .ok u := by
  induction u using Tree.children_induction generalizing parent n with
  | step u ih =>
    obtain ⟨n, rfl⟩ : ∃ m, n = m + 1 := ⟨n - 1, by have := u.height_pos; omega⟩
    have hf : (u.block parent).flavor = u.flavor := by rw [Tree.flavor_block, hl.retag_eq]
    have hc : ∀ c ∈ u.children, w.snapshotWithin n c.id = .ok c := fun c hc =>
      ih c hc (hb u u.self_mem_subtrees c hc)
        (fun v hv => hb v (Tree.mem_subtrees_of_child hc hv)) (hl.child hc)
        (by have := Tree.height_lt_of_child hc; omega)
    have hr : u.children.map Tree.nested = u.children :=
      (List.map_congr_left fun c hc => (hl.child hc).retag_eq).trans (List.map_id _)
    rw [Workspace.snapshotWithin, hu]
    simp only [Tree.body_block, Tree.id_block, hf]
    cases u with
    | leaf => rfl
    | group i flavor shape ts =>
      simp only [Tree.body]
      have hts : (ts.map Tree.id).mapM (w.snapshotWithin n) = .ok (ts.map fun c => c) :=
        mapM_map_id hc
      rw [hts, List.map_id']
      exact congrArg (fun us => Except.ok (Tree.group i flavor shape us)) hr

/-- A copy of the subtree of a block is the node that it stands for. -/
theorem snapshot_eq (h : Represents w F) (hu : u ∈ subtrees F) : w.snapshot u.id = .ok u := by
  have hs := Nat.le_trans u.height_le_size (h.size_le hu)
  have hb : ∀ v ∈ u.subtrees, ∀ c ∈ v.children, w.find? c.id = some (c.block (some v.id)) := by
    intro v hv c hc
    obtain ⟨t, ht, hut⟩ := Forest.mem_subtrees.1 hu
    exact h.find?_child (Forest.mem_subtrees.2 ⟨t, ht, Tree.mem_subtrees_trans hut hv⟩) hc
  obtain ⟨parent, hf, hl⟩ := h.find?_legal hu
  exact snapshotWithin_eq hf hb hl hs

theorem snapshot_block (h : Represents w F) (hu : u ∈ subtrees F) (parent : Option NodeId) :
    w.snapshot (u.block parent).id = .ok u := by
  rw [Tree.id_block]
  exact h.snapshot_eq hu

end Represents

namespace Workspace

/-- The copies of all blocks at the top level, in order. -/
def forest (w : Workspace) : Except WorkspaceError Forest := w.topLevel.mapM w.snapshot

end Workspace

theorem Represents.forest_eq {w : Workspace} {F : Forest} (h : Represents w F) :
    w.forest = .ok F := by
  have hf := mapM_map_id (g := fun t => t) fun t ht => h.snapshot_eq (tree_mem_subtrees ht)
  rwa [List.map_id', ← h.topLevel] at hf

structure Workspace.ConsistsOf (w : Workspace) (F : Forest) : Prop where
  forest : w.forest = .ok F
  topLevel : w.topLevel = F.map Tree.id
  root : w.root? = F.head?.map fun t => t.block none
  blocks : w.blocks.Perm (Forest.blocks F)

theorem Represents.consistsOf {w : Workspace} {F : Forest} (h : Represents w F) :
    w.ConsistsOf F where
  forest := h.forest_eq
  topLevel := h.topLevel
  root := by
    rw [Workspace.root?, h.topLevel]
    cases F with
    | nil => rfl
    | cons t F => exact h.find?_tree List.mem_cons_self
  blocks := h.blocks

end LabelGrammar
