import Mathlib.Logic.Relation
import LabelGrammar.Proofs.Workspace.Suited

/-! # Which moves are accepted

A block at the top level may be put below any container outside its own tree, as long as no rest is
followed by a sibling. Whether a container is outside is looked up on the way upwards from it, which
ends within as many steps as there are blocks and passes exactly the blocks that it is below.
-/

namespace LabelGrammar

/-- Of several conditions, each with an error, the first one that holds has this error. -/
def FirstOf {ε : Type} : List (Prop × ε) → ε → Prop
  | [], _ => False
  | (condition, error) :: others, e =>
    condition ∧ e = error ∨ ¬ condition ∧ FirstOf others e

namespace FirstOf

variable {ε : Type} {conditions : List (Prop × ε)} {e e' : ε}

theorem unique (h : FirstOf conditions e) (h' : FirstOf conditions e') : e = e' := by
  induction conditions with
  | nil => exact h.elim
  | cons c conditions ih =>
    rcases h with ⟨hc, rfl⟩ | ⟨hn, h⟩
    · rcases h' with ⟨-, rfl⟩ | ⟨hn, -⟩
      · rfl
      · exact (hn hc).elim
    · rcases h' with ⟨hc, -⟩ | ⟨-, h'⟩
      · exact (hn hc).elim
      · exact ih h h'

theorem exists_mem (h : FirstOf conditions e) : ∃ c ∈ conditions, c.1 := by
  induction conditions with
  | nil => exact h.elim
  | cons c conditions ih =>
    rcases h with ⟨hc, -⟩ | ⟨-, h⟩
    · exact ⟨c, List.mem_cons_self, hc⟩
    · obtain ⟨d, hd, hc⟩ := ih h
      exact ⟨d, List.mem_cons_of_mem c hd, hc⟩

end FirstOf

namespace Workspace

/-- A block has another one as a child. -/
def Lists (w : Workspace) (p c : NodeId) : Prop := ∃ b, w.find? p = some b ∧ c ∈ b.children

/-- A block has another one in its tree, below itself. -/
def Above (w : Workspace) : NodeId → NodeId → Prop := Relation.TransGen w.Lists

/-- Of several siblings only the last one may be a rest. -/
def RestLast (w : Workspace) (siblings : List NodeId) : Prop :=
  ∀ i id b, siblings[i]? = some id → w.find? id = some b → b.kind = .rest → i + 1 = siblings.length

def siblingsAt (p : Block) (index : Option Nat) (child : NodeId) : List NodeId :=
  p.children.insertIdx (index.getD p.children.length) child

/-- A block may be moved from the top level to a place. -/
structure Allows (w : Workspace) (child : NodeId) (place : Attachment) : Prop where
  live : ∃ b, w.find? child = some b
  topLevel : child ∈ w.topLevel
  parent : ∃ p, w.find? place.parent = some p ∧ (p.kind = .sequence ∨ p.kind = .choice) ∧
    (∀ i ∈ place.index, i ≤ p.children.length) ∧ w.RestLast (siblingsAt p place.index child)
  outside : child ≠ place.parent ∧ ¬ w.Above child place.parent

/-- What keeps a block at the top level from being moved to a place, with the errors in the order of
their precedence. -/
def placeObstacles (w : Workspace) (child : NodeId) (place : Attachment) :
    List (Prop × WorkspaceError) :=
  match w.find? place.parent with
  | none => [(True, .unknownNode place.parent)]
  | some p =>
    [(p.kind ≠ .sequence ∧ p.kind ≠ .choice, .notAContainer place.parent p.kind),
      (child = place.parent ∨ w.Above child place.parent, .cycle child place.parent),
      (∃ i ∈ place.index, p.children.length < i,
        .indexOutOfRange place.parent (place.index.getD p.children.length) p.children.length),
      (¬ w.RestLast (siblingsAt p place.index child), .restNotLast place.parent)]

def obstacles (w : Workspace) (child : NodeId) (place : Attachment) :
    List (Prop × WorkspaceError) :=
  (w.find? child = none, .unknownNode child) ::
    (child ∉ w.topLevel, .alreadyAttached child) :: w.placeObstacles child place

/-- Moves are accepted exactly where they are allowed, and refused by their first obstacle. The way
upwards from a block ends, and no bound beyond the number of blocks makes a difference to what is
found on it. -/
structure MovesExactly (w : Workspace) : Prop where
  accepted (child : NodeId) (place : Attachment) :
    ((Workspace.connect child place).run w).1 = .ok () ↔ w.Allows child place
  refused (child : NodeId) (place : Attachment) (e : WorkspaceError) :
    ((Workspace.connect child place).run w).1 = .error e ↔ FirstOf (w.obstacles child place) e
  ends {id : NodeId} {b : Block} : w.find? id = some b → w.up w.size id = none
  climb_eq {id : NodeId} {b : Block} {n : Nat} (ancestor : NodeId) : w.find? id = some b →
    w.size ≤ n → w.climb ancestor n id = w.isAncestorOrSelf ancestor id
  ancestor_iff {id : NodeId} {b : Block} (ancestor : NodeId) : w.find? id = some b →
    (w.isAncestorOrSelf ancestor id = true ↔ ancestor = id ∨ w.Above ancestor id)

variable {w : Workspace} {id child ancestor p : NodeId} {b : Block}

theorem Linked.lists_iff (h : w.Linked) :
    w.Lists p child ↔ (w.find? child).bind (·.parent) = some p := by
  rw [Option.bind_eq_some_iff]
  constructor
  · rintro ⟨b, hb, hc⟩
    exact h.child hb hc
  · rintro ⟨d, hd, hp⟩
    exact h.parent hd hp

theorem Linked.above_iff (h : w.Linked) :
    w.Above ancestor id ↔ ∃ k, w.up (k + 1) id = some ancestor := by
  constructor
  · intro ha
    induction ha with
    | single hl => exact ⟨0, by rw [up, h.lists_iff.1 hl]; rfl⟩
    | tail _ hl ih =>
      obtain ⟨k, hk⟩ := ih
      exact ⟨k + 1, by rw [up, h.lists_iff.1 hl]; exact hk⟩
  · rintro ⟨k, hk⟩
    induction k generalizing id with
    | zero =>
      rw [up, Option.bind_eq_some_iff] at hk
      obtain ⟨p, hp, hk⟩ := hk
      obtain rfl := Option.some.inj hk
      exact .single (h.lists_iff.2 hp)
    | succ k ih =>
      rw [up, Option.bind_eq_some_iff] at hk
      obtain ⟨p, hp, hk⟩ := hk
      exact .tail (ih hk) (h.lists_iff.2 hp)

theorem up_eq_none_of_le {m n : Nat} (h : w.up m id = none) (hmn : m ≤ n) : w.up n id = none := by
  induction n, hmn using Nat.le_induction with
  | base => exact h
  | succ n _ ih => rw [up_succ, ih, Option.bind_none]

theorem isContainer_iff {k : Kind} : k.isContainer = true ↔ k = .sequence ∨ k = .choice := by
  cases k <;> decide

theorem Allows.not_firstOf {place : Attachment} (h : w.Allows child place) (e : WorkspaceError) :
    ¬ FirstOf (w.obstacles child place) e := by
  obtain ⟨b, hb⟩ := h.live
  obtain ⟨p, hp, hk, hi, hr⟩ := h.parent
  have hnone : ∀ o ∈ w.obstacles child place, ¬ o.1 := by
    simp only [obstacles, placeObstacles, hp, List.forall_mem_cons]
    refine ⟨by simp [hb], not_not.2 h.topLevel, ?_, not_or.2 h.outside, ?_, not_not.2 hr, by simp⟩
    · rintro ⟨hs, hc⟩
      exact hk.elim hs hc
    · rintro ⟨i, hm, hlt⟩
      exact Nat.not_le.2 hlt (hi i hm)
  intro hf
  obtain ⟨o, ho, hc⟩ := hf.exists_mem
  exact hnone o ho hc

theorem checkAttachment_none {place : Attachment} {d : Block}
    (hd : w.find? place.parent = some d) (kind : Kind) :
    w.checkAttachment place kind none =
      if d.kind.isContainer = false then .error (.notAContainer place.parent d.kind)
      else if d.children.length < place.index.getD d.children.length then
        .error (.indexOutOfRange place.parent (place.index.getD d.children.length)
          d.children.length)
      else checkRestLast place.parent
        ((d.children.filterMap fun id => (w.find? id).map Block.kind).insertIdx
          (place.index.getD d.children.length) kind) := by
  have hi : d.id = place.parent := by simpa using List.find?_some hd
  unfold checkAttachment
  rw [block_eq_ok_iff.2 hd]
  simp only [bind, Except.bind, throw, throwThe, MonadExceptOf.throw, hi]
  cases d.kind.isContainer
  · rfl
  · by_cases hlt : d.children.length < place.index.getD d.children.length <;> simp [hlt]

theorem checkAttachment_some {place : Attachment} {d : Block}
    (hd : w.find? place.parent = some d) (kind : Kind) (child : NodeId) :
    w.checkAttachment place kind (some child) =
      if d.kind.isContainer = false then .error (.notAContainer place.parent d.kind)
      else if w.isAncestorOrSelf child place.parent = true then .error (.cycle child place.parent)
      else w.checkAttachment place kind none := by
  have hi : d.id = place.parent := by simpa using List.find?_some hd
  unfold checkAttachment
  rw [block_eq_ok_iff.2 hd]
  simp only [bind, Except.bind, throw, throwThe, MonadExceptOf.throw, hi]
  cases d.kind.isContainer
  · rfl
  · cases w.isAncestorOrSelf child place.parent <;> rfl

end Workspace

namespace Represents

open Workspace Forest

variable {w : Workspace} {F : Forest} {id child ancestor : NodeId} {b p : Block}
  {place : Attachment}

/-- The way upwards from a block leads to the root of its tree and no further. -/
theorem up_size (h : Represents w F) (hb : w.find? id = some b) : w.up w.size id = none := by
  obtain ⟨u, hu, rfl, -⟩ := h.exists_node hb
  obtain ⟨t, ht, hut⟩ := Forest.mem_subtrees.1 hu
  have hsize := h.size_le (tree_mem_subtrees ht)
  obtain ⟨k, hk, hup⟩ := h.up_of_mem (tree_mem_subtrees ht) (Tree.mem_ids.2 ⟨u, hut, rfl⟩)
  have hend : w.up (k + 1) u.id = none := by
    rw [up_succ, hup, Option.bind_some, h.find?_tree ht, Option.bind_some, Tree.parent_block]
  exact up_eq_none_of_le hend (by omega)

theorem climb_eq_true_iff (h : Represents w F) (hb : w.find? id = some b) {n : Nat}
    (hn : w.size ≤ n) :
    w.climb ancestor n id = true ↔ ancestor = id ∨ w.Above ancestor id := by
  rw [climb_iff, h.linked.above_iff]
  constructor
  · rintro ⟨k, -, hk⟩
    cases k with
    | zero => exact .inl (Option.some.inj hk).symm
    | succ k => exact .inr ⟨k, hk⟩
  · have hlt {k : Nat} (hk : w.up k id = some ancestor) : k < n := by
      by_contra hle
      rw [up_eq_none_of_le (h.up_size hb) (by omega)] at hk
      cases hk
    rintro (rfl | ⟨k, hk⟩)
    · exact ⟨0, hlt rfl, rfl⟩
    · exact ⟨k + 1, hlt hk, hk⟩

theorem isAncestorOrSelf_eq_true_iff (h : Represents w F) (hb : w.find? id = some b) :
    w.isAncestorOrSelf ancestor id = true ↔ ancestor = id ∨ w.Above ancestor id :=
  h.climb_eq_true_iff hb (Nat.le_succ _)

theorem restLast_map_id (h : Represents w F) {vs : List (Tree Flavor)}
    (hvs : ∀ v ∈ vs, v ∈ subtrees F) :
    w.RestLast (vs.map Tree.id) ↔ restBeforeEnd (vs.map Tree.kind) = false := by
  rw [restBeforeEnd_eq_false_iff, RestLast, List.length_map, List.length_map]
  simp only [List.getElem?_map, Option.map_eq_some_iff]
  constructor
  · rintro hr i ⟨v, hv, hk⟩
    obtain ⟨parent, hb⟩ := h.find?_node (hvs v (List.mem_of_getElem? hv))
    exact hr i _ _ ⟨v, hv, rfl⟩ hb (by rwa [Tree.kind_block])
  · rintro hr i _ b ⟨v, hv, rfl⟩ hb hk
    obtain ⟨parent, hb'⟩ := h.find?_node (hvs v (List.mem_of_getElem? hv))
    obtain rfl := Option.some.inj (hb'.symm.trans hb)
    exact hr i ⟨v, hv, by rwa [Tree.kind_block] at hk⟩

theorem restLast_siblingsAt (h : Represents w F) (hb : w.find? child = some b)
    (hp : w.find? id = some p) (index : Option Nat) :
    w.RestLast (siblingsAt p index child) ↔
      restBeforeEnd ((p.children.filterMap fun id => (w.find? id).map Block.kind).insertIdx
        (index.getD p.children.length) b.kind) = false := by
  obtain ⟨t, ht, rfl, he⟩ := h.exists_node hb
  obtain ⟨u, hu, -, he'⟩ := h.exists_node hp
  have hvs (v : Tree Flavor) (hv : v ∈ u.children.insertIdx (index.getD u.children.length) t) :
      v ∈ subtrees F := by
    rcases List.eq_or_mem_of_mem_insertIdx hv with rfl | hv
    · exact ht
    · exact child_mem_subtrees hu hv
  have hr := h.restLast_map_id hvs
  rw [he, he', siblingsAt, Tree.kind_block, Tree.children_block, h.filterMap_kind hu,
    List.length_map]
  rwa [List.map_insertIdx, List.map_insertIdx] at hr

theorem run_connect_of_topLevel (h : Represents w F) (hb : w.find? child = some b)
    (ht : child ∈ w.topLevel) : ((Workspace.connect child place).run w).1 =
      w.checkAttachment place b.kind (some child) := by
  obtain ⟨c, hc, hn⟩ := h.linked.mem_topLevel.1 ht
  obtain rfl := Option.some.inj (hb.symm.trans hc)
  simp only [Workspace.connect, Action.run_bind, Action.run_check, block_eq_ok_iff.2 hb, hn]
  cases hr : w.checkAttachment place b.kind (some child) <;> simp [Action.run_bind, hr]

/-- The checks are the obstacles one by one, so that each of them is met when those before it are
passed. -/
theorem checkAttachment_cases (h : Represents w F) (hb : w.find? child = some b)
    (ht : child ∈ w.topLevel) (place : Attachment) :
    w.checkAttachment place b.kind (some child) = .ok () ∧ w.Allows child place ∨
      ∃ e, w.checkAttachment place b.kind (some child) = .error e ∧
        FirstOf (w.placeObstacles child place) e := by
  rw [placeObstacles]
  cases hd : w.find? place.parent with
  | none =>
    refine .inr ⟨.unknownNode place.parent, ?_, .inl ⟨trivial, rfl⟩⟩
    simp [Workspace.checkAttachment, Workspace.block, hd, bind, Except.bind]
  | some d =>
    have hleaf : d.kind.isContainer = false ↔ d.kind ≠ .sequence ∧ d.kind ≠ .choice := by
      rw [← not_or, ← isContainer_iff, Bool.not_eq_true]
    have habove : w.isAncestorOrSelf child place.parent = true ↔ _ :=
      h.isAncestorOrSelf_eq_true_iff hd
    have hbeyond : d.children.length < place.index.getD d.children.length ↔
        ∃ i ∈ place.index, d.children.length < i := by
      cases place.index <;> simp
    have hrest := h.restLast_siblingsAt hb hd place.index
    rw [checkAttachment_some hd, checkAttachment_none hd, checkRestLast]
    split_ifs with hk ha hi hr
    · exact .inr ⟨_, rfl, .inl ⟨hleaf.1 hk, rfl⟩⟩
    · exact .inr ⟨_, rfl, .inr ⟨mt hleaf.2 hk, .inl ⟨habove.1 ha, rfl⟩⟩⟩
    · exact .inr ⟨_, rfl, .inr ⟨mt hleaf.2 hk, .inr ⟨mt habove.2 ha,
        .inl ⟨hbeyond.1 hi, rfl⟩⟩⟩⟩
    · refine .inr ⟨_, rfl, .inr ⟨mt hleaf.2 hk, .inr ⟨mt habove.2 ha,
        .inr ⟨mt hbeyond.2 hi, .inl ⟨?_, rfl⟩⟩⟩⟩⟩
      rw [hrest, hr]
      exact Bool.noConfusion
    · refine .inl ⟨rfl, ⟨b, hb⟩, ht, ⟨d, hd, ?_, ?_, ?_⟩, not_or.1 (mt habove.2 ha)⟩
      · rwa [← isContainer_iff, ← Bool.not_eq_false]
      · exact fun i hm => Nat.not_lt.1 fun hlt => hi (hbeyond.2 ⟨i, hm, hlt⟩)
      · rwa [hrest, ← Bool.not_eq_true]

theorem connect_cases (h : Represents w F) (child : NodeId) (place : Attachment) :
    ((Workspace.connect child place).run w).1 = .ok () ∧ w.Allows child place ∨
      ∃ e, ((Workspace.connect child place).run w).1 = .error e ∧
        FirstOf (w.obstacles child place) e := by
  cases hb : w.find? child with
  | none =>
    refine .inr ⟨.unknownNode child, ?_, .inl ⟨hb, rfl⟩⟩
    simp [Workspace.connect, Action.run_bind, Workspace.block, hb]
  | some b =>
    have hlive : w.find? child ≠ none := by simp [hb]
    by_cases ht : child ∈ w.topLevel
    case neg =>
      have hp : b.parent.isSome = true := by
        rw [Option.isSome_iff_ne_none]
        exact fun hn => ht (h.linked.mem_topLevel.2 ⟨b, hb, hn⟩)
      refine .inr ⟨.alreadyAttached child, ?_, .inr ⟨hlive, .inl ⟨ht, rfl⟩⟩⟩
      simp [Workspace.connect, Action.run_bind, block_eq_ok_iff.2 hb, hp]
    case pos =>
      rw [h.run_connect_of_topLevel hb ht]
      rcases h.checkAttachment_cases hb ht place with ha | ⟨e, hr, hf⟩
      · exact .inl ha
      · exact .inr ⟨e, hr, .inr ⟨hlive, .inr ⟨not_not.2 ht, hf⟩⟩⟩

end Represents

namespace Workspace

/-- Whatever calls led to a workspace, it accepts the moves that are allowed, and names the first
obstacle to any other. Whether a block lies below another one is told by the way upwards from it,
which ends within as many steps as there are blocks. -/
theorem movesExactly_of_reachable {w : Workspace} (h : w.Reachable) : w.MovesExactly := by
  obtain ⟨F, hF⟩ := h.represents
  constructor
  case accepted =>
    intro child place
    rcases hF.connect_cases child place with ⟨hr, ha⟩ | ⟨e, hr, hf⟩
    · exact iff_of_true hr ha
    · refine iff_of_false ?_ fun ha => ha.not_firstOf e hf
      rw [hr]
      rintro ⟨⟩
  case refused =>
    intro child place e
    rcases hF.connect_cases child place with ⟨hr, ha⟩ | ⟨e', hr, hf⟩
    · refine iff_of_false ?_ (ha.not_firstOf e)
      rw [hr]
      rintro ⟨⟩
    · rw [hr, Except.error.injEq]
      constructor
      · rintro rfl
        exact hf
      · exact hf.unique
  case ends => exact hF.up_size
  case climb_eq =>
    intro id b n ancestor hb hn
    rw [Bool.eq_iff_iff, hF.climb_eq_true_iff hb hn, hF.isAncestorOrSelf_eq_true_iff hb]
  case ancestor_iff => exact fun ancestor hb => hF.isAncestorOrSelf_eq_true_iff hb

/-- A block that goes before a rest but not behind it, and a sequence that does not go below itself.
-/
theorem movesExactly_besideRest :
    let w := movedSequence.after (.addBlock (.leaf (.string "AHU" "unit")) none ["d"])
    w.Reachable ∧ w.Allows "d" ⟨"a", some 1⟩ ∧
      FirstOf (w.obstacles "d" ⟨"a", none⟩) (.restNotLast "a") ∧
      FirstOf (w.obstacles "a" ⟨"b", none⟩) (.cycle "a" "b") ∧
      w.Above "a" "c" ∧ ¬ w.Above "b" "c" ∧ w.up w.size "c" = none := by
  intro w
  have hw : w.Reachable := .call _ ReachableByValid.movedSequence.reachable
  have h := movesExactly_of_reachable hw
  have hc : w.find? "c" = some ⟨"c", ⟨"rest"⟩, some "a", .leaf (.rest "wing")⟩ := by decide
  refine ⟨hw, (h.accepted ..).1 (by decide), (h.refused ..).1 (by decide),
    (h.refused ..).1 (by decide), ?_, ?_, h.ends hc⟩
  · exact ((h.ancestor_iff "a" hc).1 (by decide)).resolve_left (by decide)
  · exact fun hb => absurd ((h.ancestor_iff "b" hc).2 (.inr hb)) (by decide)

end Workspace

end LabelGrammar
