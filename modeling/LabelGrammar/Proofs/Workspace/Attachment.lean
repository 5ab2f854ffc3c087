import LabelGrammar.Proofs.Workspace.Represents

/-! # Places in a workspace

The way upwards from a block ends at the root of its tree, so the search for an ancestor is exact.
With it the check of a place says what it does of the trees.
-/

namespace LabelGrammar

open Forest

namespace Workspace

variable {w : Workspace}

def up (w : Workspace) : Nat → NodeId → Option NodeId
  | 0, id => some id
  | n + 1, id => ((w.find? id).bind (·.parent)).bind (up w n)

theorem up_succ (n : Nat) (id : NodeId) :
    w.up (n + 1) id = (w.up n id).bind fun p => (w.find? p).bind (·.parent) := by
  induction n generalizing id with
  | zero => simp [up]
  | succ n ih =>
    rw [up, up]
    cases (w.find? id).bind (·.parent) with
    | none => rfl
    | some p => exact ih p

theorem climb_iff {ancestor id : NodeId} {n : Nat} :
    w.climb ancestor n id = true ↔ ∃ k < n, w.up k id = some ancestor := by
  induction n generalizing id with
  | zero => simp [climb]
  | succ n ih =>
    rw [climb, Bool.or_eq_true, beq_iff_eq]
    constructor
    · rintro (rfl | h)
      · exact ⟨0, by omega, rfl⟩
      · cases hp : (w.find? id).bind (·.parent) with
        | none => rw [hp] at h; cases h
        | some p =>
          rw [hp] at h
          obtain ⟨k, hk, hu⟩ := ih.1 h
          exact ⟨k + 1, by omega, by rw [up, hp]; exact hu⟩
    · rintro ⟨k, hk, hu⟩
      cases k with
      | zero => exact .inl (Option.some.inj hu)
      | succ k =>
        right
        rw [up] at hu
        cases hp : (w.find? id).bind (·.parent) with
        | none => rw [hp] at hu; cases hu
        | some p => exact ih.2 ⟨k, by omega, by simpa [hp] using hu⟩

end Workspace

namespace Represents

variable {w : Workspace} {F : Forest} {u v : Tree Flavor} {id : NodeId}

/-- A node is reached upwards from everything below it, in fewer steps than it has nodes. -/
theorem up_of_mem (h : Represents w F) (hv : v ∈ subtrees F) (hi : id ∈ v.ids) :
    ∃ k < v.size, w.up k id = some v.id := by
  induction v using Tree.children_induction with
  | step v ih =>
    rw [Tree.ids_eq, List.mem_cons, List.mem_flatMap] at hi
    rcases hi with rfl | ⟨c, hc, hi⟩
    · exact ⟨0, by rw [Tree.size_eq]; omega, rfl⟩
    · obtain ⟨k, hk, hu⟩ := ih c hc (child_mem_subtrees hv hc) hi
      have hs := Tree.size_lt_of_child hc
      refine ⟨k + 1, by omega, ?_⟩
      simp [Workspace.up_succ, hu, h.find?_child hv hc]

theorem mem_of_up (h : Represents w F) (hv : v ∈ subtrees F) (hi : id ∈ ids F) {k : Nat}
    (hk : w.up k id = some v.id) : id ∈ v.ids := by
  induction k generalizing id with
  | zero =>
    obtain rfl : id = v.id := Option.some.inj hk
    exact v.id_mem_ids
  | succ k ih =>
    obtain ⟨u, hu, rfl⟩ := Forest.mem_ids.1 hi
    obtain ⟨parent, hb⟩ := h.find?_node hu
    rw [Workspace.up, hb, Option.bind_some, Tree.parent_block] at hk
    cases parent with
    | none => cases hk
    | some p =>
      obtain ⟨x, hx, rfl, c, hc, hi, -⟩ := h.exists_parent hb (Tree.parent_block _ _)
      have hxv := ih (Forest.mem_ids.2 ⟨x, hx, rfl⟩) hk
      obtain ⟨y, hy, hyx⟩ := Tree.mem_ids.1 hxv
      obtain ⟨t, ht, hvt⟩ := Forest.mem_subtrees.1 hv
      have hyF : y ∈ subtrees F := Forest.mem_subtrees.2 ⟨t, ht, Tree.mem_subtrees_trans hvt hy⟩
      obtain rfl := eq_of_id_eq h.nodup hyF hx hyx
      exact Tree.mem_ids.2 ⟨c, Tree.child_mem_subtrees hy hc, hi⟩

theorem isAncestorOrSelf_iff (h : Represents w F) (hv : v ∈ subtrees F) (hi : id ∈ ids F) :
    w.isAncestorOrSelf v.id id = true ↔ id ∈ v.ids := by
  rw [Workspace.isAncestorOrSelf, Workspace.climb_iff]
  constructor
  · rintro ⟨k, -, hk⟩
    exact h.mem_of_up hv hi hk
  · intro hm
    obtain ⟨k, hk, hu⟩ := h.up_of_mem hv hm
    have := h.size_le hv
    exact ⟨k, by omega, hu⟩

theorem filterMap_kind (h : Represents w F) (hu : u ∈ subtrees F) :
    (u.children.map Tree.id).filterMap (fun id => (w.find? id).map Block.kind) =
      u.children.map Tree.kind := by
  rw [List.filterMap_map, ← List.filterMap_eq_map]
  refine List.filterMap_congr fun c hc => ?_
  simp [h.find?_child hu hc]

end Represents

/-- A node takes a child of the given kind at an index. -/
structure Tree.Takes (index : Option Nat) (kind : Kind) (u : Tree Flavor) : Prop where
  container : u.kind.isContainer = true
  inRange : index.getD u.children.length ≤ u.children.length
  restLast : restBeforeEnd ((u.children.map Tree.kind).insertIdx
    (index.getD u.children.length) kind) = false

theorem Workspace.block_eq_ok_iff {w : Workspace} {id : NodeId} {b : Block} :
    w.block id = .ok b ↔ w.find? id = some b := by
  unfold Workspace.block
  cases w.find? id <;> simp

namespace Represents

variable {w : Workspace} {F : Forest} {v : Tree Flavor}

theorem checkAttachment_node (h : Represents w F) (hv : v ∈ subtrees F) {index : Option Nat}
    {kind : Kind} {child : Option NodeId} :
    w.checkAttachment ⟨v.id, index⟩ kind child = .ok () ↔
      v.Takes index kind ∧ ∀ c ∈ child, w.isAncestorOrSelf c v.id = false := by
  obtain ⟨parent, hb⟩ := h.find?_node hv
  have hk := h.filterMap_kind hv
  unfold Workspace.checkAttachment checkRestLast
  rw [Workspace.block_eq_ok_iff.2 hb]
  simp only [bind, Except.bind, Tree.kind_block, Tree.children_block, List.length_map, hk, throw,
    throwThe, MonadExceptOf.throw]
  by_cases hc : v.kind.isContainer = true
  · by_cases hi : v.children.length < index.getD v.children.length
    · have hn : ¬ v.Takes index kind := fun ht => Nat.not_lt.2 ht.inRange hi
      cases child with
      | none => simp [hc, hi, hn]
      | some c => by_cases ha : w.isAncestorOrSelf c v.id = true <;> simp [hc, hi, hn, ha]
    · have ht : v.Takes index kind ↔ restBeforeEnd ((v.children.map Tree.kind).insertIdx
          (index.getD v.children.length) kind) = false :=
        ⟨fun ht => ht.restLast, fun hr => ⟨hc, Nat.not_lt.1 hi, hr⟩⟩
      cases child with
      | none => simp [hc, hi, ht]
      | some c => by_cases ha : w.isAncestorOrSelf c v.id = true <;> simp [hc, hi, ht, ha]
  · have hn : ¬ v.Takes index kind := fun ht => hc ht.container
    simp [hc, hn]

/-- A place is accepted if it is at a node that takes the child and does not lie below it. -/
theorem checkAttachment_eq_ok_iff (h : Represents w F) {place : Attachment} {kind : Kind}
    {child : Option NodeId} : w.checkAttachment place kind child = .ok () ↔
      ∃ u ∈ subtrees F, u.id = place.parent ∧ u.Takes place.index kind ∧
        ∀ c ∈ child, w.isAncestorOrSelf c place.parent = false := by
  obtain ⟨p, index⟩ := place
  constructor
  · intro hc
    cases hb : w.find? p with
    | none => simp [Workspace.checkAttachment, Workspace.block, hb, bind, Except.bind] at hc
    | some b =>
      obtain ⟨u, hu, rfl, -⟩ := h.exists_node hb
      exact ⟨u, hu, rfl, (h.checkAttachment_node hu).1 hc⟩
  · rintro ⟨u, hu, rfl, ht⟩
    exact (h.checkAttachment_node hu).2 ht

end Represents

end LabelGrammar
