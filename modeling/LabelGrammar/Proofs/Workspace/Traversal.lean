import LabelGrammar.Proofs.Workspace.Suited

/-! # Two traversals

The blocks of a workspace are traversed with a stack of ids, and a copy of a tree is walked by
recursion. Both pass the same nodes in the same order, and the stack runs empty after as many blocks
as there are.
-/

namespace LabelGrammar

open Forest

namespace Tree

/-- A visitor that goes on everywhere and notes what it enters. -/
def note (entered : List (Tree Flavor × Nat)) (t : Tree Flavor) (depth : Nat) :
    Bool × List (Tree Flavor × Nat) :=
  (true, entered ++ [(t, depth)])

def entered (t : Tree Flavor) : List (Tree Flavor × Nat) := t.walk note 0 []

end Tree

namespace Workspace

/-- Takes ids from a stack up to the first one that names a block, puts the children of the block in
its place and yields the block with its depth. -/
def next? (w : Workspace) : List (NodeId × Nat) → Option ((Block × Nat) × List (NodeId × Nat))
  | [] => none
  | (id, depth) :: stack =>
    match w.find? id with
    | none => next? w stack
    | some b => some ((b, depth), b.children.map (·, depth + 1) ++ stack)

/-- From a stack on, one block after the other is yielded, and then there is none left. -/
inductive Drains (w : Workspace) : List (NodeId × Nat) → List (Block × Nat) → Prop where
  | nil {stack : List (NodeId × Nat)} : w.next? stack = none → Drains w stack []
  | cons {stack rest : List (NodeId × Nat)} {item : Block × Nat} {items : List (Block × Nat)} :
      w.next? stack = some (item, rest) → Drains w rest items → Drains w stack (item :: items)

/-- A block is yielded where a node is entered: the same rule under the same id, with the same
flavor and the same children, at the same depth. -/
structure Shows (item : Block × Nat) (node : Tree Flavor × Nat) : Prop where
  id : item.1.id = node.1.id
  kind : item.1.kind = node.1.kind
  rule : item.1.rule = node.1.rule
  flavor : item.1.flavor = node.1.flavor
  children : item.1.children = node.1.children.map Tree.id
  depth : item.2 = node.2

/-- The traversal ends, passes what is entered in the copies of the trees at the top level, and
yields every block once. -/
structure TraversedAs (w : Workspace) (F : Forest) : Prop where
  copies : w.forest = .ok F
  visits {σ : Type} {enter : σ → Tree Flavor → Nat → Bool × σ} (s : σ) :
    (∀ s t depth, (enter s t depth).1 = true) →
    F.foldl (fun s t => t.walk enter 0 s) s =
      (F.flatMap Tree.entered).foldl (fun s x => (enter s x.1 x.2).2) s
  ends : w.Drains (w.topLevel.map (·, 0)) w.preOrder
  agrees : List.Forall₂ Shows w.preOrder (F.flatMap Tree.entered)
  once : (w.preOrder.map (·.1.id)).Nodup
  live {b : Block} : (∃ depth, (b, depth) ∈ w.preOrder) ↔ w.find? b.id = some b
  length : w.preOrder.length = w.size

end Workspace

namespace Tree

variable {σ : Type} {enter : σ → Tree Flavor → Nat → Bool × σ}

theorem walk_eq_foldl (he : ∀ s t depth, (enter s t depth).1 = true) (t : Tree Flavor)
    (depth : Nat) (s : σ) :
    t.walk enter depth s = (t.preOrder depth).foldl (fun s x => (enter s x.1 x.2).2) s := by
  induction t using children_induction generalizing depth s with
  | step t ih =>
    rw [walk_eq, if_pos (he s t depth), preOrder_eq, List.foldl_cons, List.foldl_flatMap]
    exact List.foldl_ext _ _ _ fun s c hc => ih c hc (depth + 1) s

theorem entered_eq (t : Tree Flavor) : t.entered = t.preOrder 0 := by
  have hf (seen nodes : List (Tree Flavor × Nat)) :
      nodes.foldl (fun s x => (note s x.1 x.2).2) seen = seen ++ nodes := by
    induction nodes generalizing seen with
    | nil => simp
    | cons x nodes ih => rw [List.foldl_cons, ih]; simp [note]
  rw [entered, walk_eq_foldl (fun _ _ _ => rfl), hf, List.nil_append]

end Tree

namespace Workspace

variable {w : Workspace} {stack : List (NodeId × Nat)} {items : List (Block × Nat)}

theorem find?_of_next? {item : Block × Nat} {rest : List (NodeId × Nat)}
    (h : w.next? stack = some (item, rest)) : w.find? item.1.id = some item.1 := by
  induction stack with
  | nil => cases h
  | cons x stack ih =>
    obtain ⟨id, depth⟩ := x
    rw [next?] at h
    cases hb : w.find? id with
    | none =>
      rw [hb] at h
      exact ih h
    | some b =>
      rw [hb] at h
      obtain ⟨rfl, -⟩ := Prod.mk.inj (Option.some.inj h)
      have hi : b.id = id := by simpa using List.find?_some hb
      rwa [hi]

theorem Drains.find? (h : w.Drains stack items) {item : Block × Nat} (hi : item ∈ items) :
    w.find? item.1.id = some item.1 := by
  induction h with
  | nil => cases hi
  | cons hn _ ih =>
    rcases List.mem_cons.1 hi with rfl | hi
    · exact find?_of_next? hn
    · exact ih hi

end Workspace

namespace Represents

open Workspace

variable {w : Workspace} {F : Forest}

theorem exists_shows (h : Represents w F) {u : Tree Flavor} (hu : u ∈ subtrees F) (depth : Nat) :
    ∃ b, w.find? u.id = some b ∧ Shows (b, depth) (u, depth) := by
  obtain ⟨parent, hb, hl⟩ := h.find?_legal hu
  refine ⟨u.block parent, hb, by simp, by simp, ?_, ?_, by simp, rfl⟩
  · rw [Block.rule, Tree.body_block, Tree.rule_body]
  · rw [Tree.flavor_block, hl.retag_eq]

/-- The stack holds the roots of what is still to be passed. A bound that is no smaller than the
number of nodes below them cuts nothing off. -/
theorem drains_traverse (h : Represents w F) {n : Nat} {ts : List (Tree Flavor × Nat)}
    (hts : ∀ x ∈ ts, x.1 ∈ subtrees F) (hn : Tree.sizeAll (ts.map (·.1)) ≤ n) :
    w.Drains (ts.map fun x => (x.1.id, x.2)) (w.traverse n (ts.map fun x => (x.1.id, x.2))) ∧
      List.Forall₂ Shows (w.traverse n (ts.map fun x => (x.1.id, x.2)))
        (ts.flatMap fun x => x.1.preOrder x.2) := by
  induction n generalizing ts with
  | zero =>
    cases ts with
    | nil => exact ⟨.nil rfl, .nil⟩
    | cons x ts => rw [List.map_cons, Tree.sizeAll, Tree.size_eq] at hn; omega
  | succ n ih =>
    cases ts with
    | nil => exact ⟨.nil rfl, .nil⟩
    | cons x ts =>
      obtain ⟨t, depth⟩ := x
      rw [List.forall_mem_cons] at hts
      obtain ⟨b, hb, hs⟩ := h.exists_shows hts.1 depth
      have hstack : b.children.map (·, depth + 1) ++ ts.map (fun x => (x.1.id, x.2)) =
          (t.children.map (·, depth + 1) ++ ts).map fun x => (x.1.id, x.2) := by
        rw [hs.children]
        simp [Function.comp_def]
      have hnext : w.next? ((t.id, depth) :: ts.map fun x => (x.1.id, x.2)) =
          some ((b, depth), (t.children.map (·, depth + 1) ++ ts).map fun x => (x.1.id, x.2)) := by
        rw [next?, hb, ← hstack]
      have hts' : ∀ x ∈ t.children.map (·, depth + 1) ++ ts, x.1 ∈ subtrees F := by
        rw [List.forall_mem_append, List.forall_mem_map]
        exact ⟨fun c hc => child_mem_subtrees hts.1 hc, hts.2⟩
      have hn' : Tree.sizeAll ((t.children.map (·, depth + 1) ++ ts).map (·.1)) ≤ n := by
        rw [List.map_cons, Tree.sizeAll, Tree.size_eq] at hn
        rw [List.map_append, Tree.sizeAll_append]
        simp only [List.map_map, Function.comp_def, List.map_id'] at hn ⊢
        omega
      obtain ⟨hd, hf⟩ := ih hts' hn'
      rw [List.map_cons, Workspace.traverse, hb]
      simp only
      rw [hstack, List.flatMap_cons, Tree.preOrder_eq, List.cons_append]
      refine ⟨.cons hnext hd, .cons hs ?_⟩
      rwa [List.flatMap_append, List.flatMap_map] at hf

theorem map_id_preOrder {items : List (Block × Nat)}
    (h : List.Forall₂ Shows items (F.flatMap (Tree.preOrder 0))) :
    items.map (·.1.id) = ids F := by
  have he : List.Forall₂ (· = ·) (items.map (·.1.id))
      ((F.flatMap (Tree.preOrder 0)).map (·.1.id)) :=
    List.forall₂_map_left_iff.2 (List.forall₂_map_right_iff.2 (h.imp fun _ _ hs => hs.id))
  rw [List.forall₂_eq_eq_eq, List.map_flatMap] at he
  rw [he, ids]
  refine List.flatMap_congr fun t _ => ?_
  rw [Tree.ids, Tree.subtrees, List.map_map]
  rfl

theorem traversedAs (h : Represents w F) : w.TraversedAs F := by
  have htop : w.topLevel.map (·, 0) = (F.map (·, 0)).map fun x => (x.1.id, x.2) := by
    rw [h.topLevel, List.map_map, List.map_map]
    rfl
  have hsize : Tree.sizeAll ((F.map (·, 0)).map (·.1)) ≤ w.size := by
    rw [← h.length_ids, List.map_map, ← map_id_subtrees, List.length_map, subtrees,
      Tree.length_flatMap_subtrees fun t _ => t.length_subtrees]
    exact Nat.le_of_eq (congrArg Tree.sizeAll (List.map_id F))
  have hts : ∀ x ∈ F.map (·, 0), x.1 ∈ subtrees F := by
    rw [List.forall_mem_map]
    exact fun t ht => tree_mem_subtrees ht
  obtain ⟨hd, hf⟩ := h.drains_traverse hts hsize
  rw [← htop] at hd hf
  rw [List.flatMap_map] at hf
  have hids : w.preOrder.map (·.1.id) = ids F := map_id_preOrder hf
  constructor
  case copies => exact h.forest_eq
  case visits =>
    intro σ enter s he
    rw [List.foldl_flatMap]
    refine List.foldl_ext _ _ _ fun s t _ => ?_
    rw [Tree.walk_eq_foldl he, Tree.entered_eq]
  case ends => exact hd
  case agrees =>
    rw [List.flatMap_congr fun t _ => t.entered_eq]
    exact hf
  case once =>
    rw [hids]
    exact h.nodup
  case live =>
    intro b
    constructor
    · rintro ⟨depth, hm⟩
      exact hd.find? hm
    · intro hb
      obtain ⟨u, hu, hi, -⟩ := h.exists_node hb
      have hm : b.id ∈ w.preOrder.map (·.1.id) := hids ▸ Forest.mem_ids.2 ⟨u, hu, hi⟩
      obtain ⟨⟨c, depth⟩, hm, he⟩ := List.mem_map.1 hm
      have hc : w.find? c.id = some c := hd.find? hm
      obtain rfl : b = c := Option.some.inj (hb.symm.trans (he ▸ hc))
      exact ⟨depth, hm⟩
  case length => rw [← h.length_ids, ← hids, List.length_map]

end Represents

namespace Workspace

/-- Whatever calls led to a workspace, its traversal ends and passes the blocks in the order in
which walks through the copies of its trees enter them. -/
theorem traversedAs_of_reachable {w : Workspace} (h : w.Reachable) : ∃ F, w.TraversedAs F :=
  h.represents.imp fun _ hF => hF.traversedAs

/-- A sequence with a sequence and a rest in it, before a string. -/
theorem traversedAs_besideRest :
    let w := movedSequence.after (.addBlock (.leaf (.string "AHU" "unit")) none ["d"])
    w.Reachable ∧ (∃ F, w.TraversedAs F) ∧
      w.preOrder.map (fun x => (x.1.id, x.2)) = [("a", 0), ("b", 1), ("c", 1), ("d", 0)] := by
  intro w
  have hw : w.Reachable := .call _ ReachableByValid.movedSequence.reachable
  exact ⟨hw, traversedAs_of_reachable hw, by decide⟩

end Workspace

end LabelGrammar
