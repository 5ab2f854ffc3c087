import LabelGrammar.Document.Basic
import LabelGrammar.Proofs.Document.Canonical
import LabelGrammar.Proofs.Document.Storable
import LabelGrammar.Proofs.Json.Reader

/-! # The depth of documents

A level of a tree takes three levels of its document, except that a leaf takes two. A value that
is read as the tree takes no fewer.
-/

namespace LabelGrammar

namespace Document

open Json

variable {mode : Mode} {atRoot : Bool} {t : Tree Flavor}

/-- The document of a tree as it is written. -/
def written (mode : Mode) (atRoot : Bool) (t : Tree Flavor) : Json := toJson (ofNode mode atRoot t)

theorem written_leaf (id : NodeId) (flavor : Flavor) (l : Leaf) :
    written mode atRoot (.leaf id flavor l) =
      node l.kind (recordedFlavor mode atRoot l.kind flavor) (leafFields id l) := by
  rw [written, ofNode, toJson]

theorem written_group (id : NodeId) (flavor : Flavor) (shape : Shape) (ts : List (Tree Flavor)) :
    written mode atRoot (.group id flavor shape ts) =
      node shape.kind (recordedFlavor mode atRoot shape.kind flavor)
        [("id", .str id), ("parsers", .arr (ts.map (written mode false)))] := by
  rw [written, ofNode, toJson, ofNodes_eq_map, toJsonAll_eq_map, List.map_map]
  rfl

theorem depth_node (kind : Kind) (recorded : Option Flavor) (args : List (String × Json)) :
    (node kind recorded args).depth = 1 + (Json.obj args).depth := by
  cases recorded <;> simp [node, depth, depthMembers]

theorem depth_leafFields (id : NodeId) (l : Leaf) : (Json.obj (leafFields id l)).depth = 1 := by
  cases l <;> simp [leafFields, depth, depthMembers]

theorem heightAll_le_depthItems {items : List Json} {ts : List (Tree Flavor)}
    (h : List.Forall₂ (fun v t => 3 * t.height ≤ v.depth + 1) items ts) :
    3 * Tree.heightAll ts ≤ depthItems items + 1 := by
  induction h with
  | nil => exact Nat.zero_le _
  | cons h _ ih =>
    rw [Tree.heightAll, depthItems]
    omega

theorem depthItems_le_heightAll {items : List Json} {ts : List (Tree Flavor)}
    (h : List.Forall₂ (fun v t => v.depth ≤ 3 * t.height) items ts) :
    depthItems items ≤ 3 * Tree.heightAll ts := by
  induction h with
  | nil => exact Nat.zero_le _
  | cons h _ ih =>
    rw [Tree.heightAll, depthItems]
    omega

theorem depth_written (mode : Mode) (atRoot : Bool) (t : Tree Flavor) :
    3 * t.height ≤ (written mode atRoot t).depth + 1 ∧
      (written mode atRoot t).depth ≤ 3 * t.height := by
  induction t using Tree.children_induction generalizing atRoot with
  | step t ih =>
    cases t with
    | leaf id flavor l =>
      rw [written_leaf, depth_node, depth_leafFields, Tree.height]
      omega
    | group id flavor shape ts =>
      have hlow : 3 * Tree.heightAll ts ≤ depthItems (ts.map (written mode false)) + 1 :=
        heightAll_le_depthItems
          (List.forall₂_map_left_iff.2 (List.forall₂_same.2 fun t ht => (ih t ht false).1))
      have hhigh : depthItems (ts.map (written mode false)) ≤ 3 * Tree.heightAll ts :=
        depthItems_le_heightAll
          (List.forall₂_map_left_iff.2 (List.forall₂_same.2 fun t ht => (ih t ht false).2))
      have hd : (Json.obj [("id", .str id),
          ("parsers", .arr (ts.map (written mode false)))]).depth =
          2 + depthItems (ts.map (written mode false)) := by
        simp [depth, depthMembers]
        omega
      rw [written_group, depth_node, hd, Tree.height]
      omega

theorem depth_nodeMembers (kind : Kind) (recorded : Option Flavor) (fields : Json) :
    (Json.obj (nodeMembers kind recorded fields)).depth = 1 + fields.depth := by
  cases recorded <;> simp [nodeMembers, depth, depthMembers]

variable {place : Place} {v : Json} {items : List Json}

theorem Writes.depth_leaf {id : NodeId} {l : Leaf}
    (h : Writes (leafArgs id l) items v) : v.depth = 2 := by
  obtain ⟨recorded, fields, rfl, rfl | rfl⟩ := h
  all_goals
    rw [depth_nodeMembers]
    cases l <;> simp [leafArgs, Args.fields, depth, depthMembers, depthItems]

theorem Writes.depth_group {id : NodeId} {shape : Shape}
    (h : Writes (.group id shape) items v) : v.depth = 3 + depthItems items := by
  obtain ⟨recorded, fields, rfl, rfl | rfl⟩ := h
  all_goals
    rw [depth_nodeMembers]
    simp [Args.fields, depth, depthMembers, depthItems]
    omega

/-- What is read as a tree is nested at least as deeply as the document of the tree. -/
theorem height_le_of_readNode (hv : v.Ordered) (h : readNode place atRoot v = .ok t) :
    3 * t.height ≤ v.depth + 1 := by
  induction t using Tree.children_induction generalizing place atRoot v with
  | step t ih =>
    obtain ⟨args, items, hw, ⟨id, flavor, l, rfl, rfl⟩ | ⟨id, flavor, shape, ts, rfl, rfl, hts⟩⟩ :=
      readNode_cases hv h
    · rw [hw.depth_leaf, Tree.height]
    · have hi := hw.ordered_items hv
      have hd : 3 * Tree.heightAll ts ≤ depthItems items + 1 := heightAll_le_depthItems
        (forall₂_of_readItems (fun v hv t ht _ h => ih t ht (hi v hv) h) hts)
      rw [hw.depth_group, Tree.height]
      omega

theorem plain_node {kind : Kind} {recorded : Option Flavor} {args : List (String × Json)}
    (h : ∀ m ∈ args, Plain m.2) : Plain (node kind recorded args) := by
  cases recorded <;> refine .obj ?_ <;> simp [Plain.str, Plain.obj h]

theorem plain_leafFields {id : NodeId} {l : Leaf} (h : l.Valid) :
    ∀ m ∈ leafFields id l, Plain m.2 := by
  cases l with
  | string => simp [leafFields, Plain.str]
  | rest => simp [leafFields, Plain.str]
  | substring length typeName =>
    have hi : Plain (.int length) := by
      have hmin : Limits.minInteger64 ≤ 0 := by decide
      have hmax : Limits.maxInteger64 ≤ Limits.maxNatural64 := by decide
      exact .int (by omega) (Int.le_trans h.2.1 hmax)
    simp [leafFields, Plain.str, hi]

theorem plain_written (h : ∀ u ∈ t.subtrees, ∀ l, u.rule = .leaf l → l.Valid) :
    Plain (written mode atRoot t) := by
  induction t using Tree.children_induction generalizing atRoot with
  | step t ih =>
    cases t with
    | leaf id flavor l =>
      rw [written_leaf]
      exact plain_node (plain_leafFields (h _ (Tree.self_mem_subtrees _) l rfl))
    | group id flavor shape ts =>
      have hts : Plain (.arr (ts.map (written mode false))) := by
        refine .arr fun v hv => ?_
        obtain ⟨t, ht, rfl⟩ := List.mem_map.1 hv
        exact ih t ht fun u hu => h u (Tree.mem_subtrees_of_child ht hu)
      rw [written_group]
      exact plain_node (by simp [Plain.str, hts])

end Document

end LabelGrammar
