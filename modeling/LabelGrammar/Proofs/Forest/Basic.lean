import Mathlib.Data.List.Nodup
import Mathlib.Data.List.Perm.Basic
import LabelGrammar.Grammar.Tree

/-! # Forests

The plain counterpart of a workspace: a list of trees. Leaves and groups are treated alike here,
as a node with a list of children, which is empty for a leaf. Induction is on the children.
-/

namespace LabelGrammar

/-- An ordered forest of editor blocks. -/
abbrev Forest := List (Tree Flavor)

namespace Tree

variable {φ : Type}

@[elab_as_elim]
theorem children_induction {motive : Tree φ → Prop}
    (step : ∀ t : Tree φ, (∀ c ∈ t.children, motive c) → motive t) : ∀ t, motive t
  | .leaf id flavor l => step (.leaf id flavor l) (by simp [children])
  | .group id flavor shape ts =>
    step (.group id flavor shape ts) fun c hc =>
      have : sizeOf c < sizeOf ts := List.sizeOf_lt_of_mem hc
      children_induction step c
termination_by t => sizeOf t
decreasing_by simp only [group.sizeOf_spec]; omega

theorem ext_children {t u : Tree φ} (hi : t.id = u.id) (hf : t.flavor = u.flavor)
    (hr : t.rule = u.rule) (hc : t.children = u.children) : t = u := by
  cases t <;> cases u <;> simp_all [id, flavor, rule, children]

def withChildren (ts : List (Tree φ)) : Tree φ → Tree φ
  | .leaf id flavor l => .leaf id flavor l
  | .group id flavor shape _ => .group id flavor shape ts

section WithChildren

variable (t : Tree φ) (ts : List (Tree φ))

@[simp] theorem id_withChildren : (t.withChildren ts).id = t.id := by cases t <;> rfl

@[simp] theorem flavor_withChildren : (t.withChildren ts).flavor = t.flavor := by cases t <;> rfl

@[simp] theorem kind_withChildren : (t.withChildren ts).kind = t.kind := by cases t <;> rfl

@[simp] theorem withChildren_children : t.withChildren t.children = t := by cases t <;> rfl

theorem children_eq_nil (h : t.kind.isContainer = false) : t.children = [] := by
  cases t with
  | leaf => rfl
  | group _ _ shape _ => cases shape <;> cases h

variable {t}

theorem isContainer_of_child {c : Tree φ} (h : c ∈ t.children) : t.kind.isContainer = true := by
  cases hk : t.kind.isContainer with
  | true => rfl
  | false => rw [children_eq_nil t hk] at h; cases h

theorem children_withChildren (h : t.kind.isContainer = true) :
    (t.withChildren ts).children = ts := by
  cases t with
  | leaf _ _ l => cases l <;> cases h
  | group => rfl

@[simp] theorem children_withChildren_map (f : Tree φ → Tree φ) :
    (t.withChildren (t.children.map f)).children = t.children.map f := by cases t <;> rfl

@[simp] theorem children_withChildren_filter (p : Tree φ → Bool) :
    (t.withChildren (t.children.filter p)).children = t.children.filter p := by cases t <;> rfl

end WithChildren

theorem preOrder_eq (t : Tree φ) (depth : Nat) :
    t.preOrder depth = (t, depth) :: t.children.flatMap (preOrder (depth + 1)) := by
  cases t with
  | leaf => rfl
  | group => simp [preOrder, children, preOrderAll_eq_flatMap]

theorem map_fst_preOrder (t : Tree φ) (depth : Nat) :
    (t.preOrder depth).map (·.1) = t.subtrees := by
  induction t using children_induction generalizing depth with
  | step t ih =>
    rw [subtrees, preOrder_eq t, preOrder_eq t]
    simp only [List.map_cons, List.map_flatMap, List.cons.injEq, true_and]
    exact List.flatMap_congr fun c hc => (ih c hc _).trans (ih c hc _).symm

theorem subtrees_eq (t : Tree φ) : t.subtrees = t :: t.children.flatMap subtrees := by
  rw [subtrees, preOrder_eq, List.map_cons, List.map_flatMap]
  simp only [map_fst_preOrder]

theorem mem_subtrees {t u : Tree φ} :
    u ∈ t.subtrees ↔ u = t ∨ ∃ c ∈ t.children, u ∈ c.subtrees := by
  rw [subtrees_eq]; simp

theorem self_mem_subtrees (t : Tree φ) : t ∈ t.subtrees := mem_subtrees.2 (.inl rfl)

theorem mem_subtrees_of_child {t c u : Tree φ} (hc : c ∈ t.children) (hu : u ∈ c.subtrees) :
    u ∈ t.subtrees := mem_subtrees.2 (.inr ⟨c, hc, hu⟩)

theorem mem_subtrees_trans {t u v : Tree φ} (hu : u ∈ t.subtrees) (hv : v ∈ u.subtrees) :
    v ∈ t.subtrees := by
  induction t using children_induction with
  | step t ih =>
    rcases mem_subtrees.1 hu with rfl | ⟨c, hc, hu⟩
    · exact hv
    · exact mem_subtrees_of_child hc (ih c hc hu)

theorem child_mem_subtrees {t u c : Tree φ} (hu : u ∈ t.subtrees) (hc : c ∈ u.children) :
    c ∈ t.subtrees := mem_subtrees_trans hu (mem_subtrees_of_child hc c.self_mem_subtrees)

theorem eq_or_child_of_mem_subtrees {t u : Tree φ} (hu : u ∈ t.subtrees) :
    u = t ∨ ∃ v ∈ t.subtrees, u ∈ v.children := by
  induction t using children_induction with
  | step t ih =>
    rcases mem_subtrees.1 hu with rfl | ⟨c, hc, hu⟩
    · exact .inl rfl
    · rcases ih c hc hu with rfl | ⟨v, hv, hu⟩
      · exact .inr ⟨t, t.self_mem_subtrees, hc⟩
      · exact .inr ⟨v, mem_subtrees_of_child hc hv, hu⟩

theorem ids_eq (t : Tree φ) : t.ids = t.id :: t.children.flatMap ids := by
  rw [ids, subtrees_eq, List.map_cons, List.map_flatMap]
  rfl

theorem mem_ids {t : Tree φ} {id : NodeId} : id ∈ t.ids ↔ ∃ u ∈ t.subtrees, u.id = id := by
  simp [ids]

theorem id_mem_ids (t : Tree φ) : t.id ∈ t.ids := mem_ids.2 ⟨t, t.self_mem_subtrees, rfl⟩

theorem ids_sublist {t u : Tree φ} (hu : u ∈ t.subtrees) : u.ids.Sublist t.ids := by
  induction t using children_induction with
  | step t ih =>
    rcases mem_subtrees.1 hu with rfl | ⟨c, hc, hu⟩
    · exact List.Sublist.refl _
    · rw [ids_eq t]
      exact .cons _ ((ih c hc hu).trans (List.sublist_flatten_of_mem (List.mem_map_of_mem hc)))

theorem walk_eq {σ : Type} (enter : σ → Tree φ → Nat → Bool × σ) (depth : Nat) (t : Tree φ)
    (s : σ) : t.walk enter depth s = if (enter s t depth).1 then
      t.children.foldl (fun s c => c.walk enter (depth + 1) s) (enter s t depth).2
      else (enter s t depth).2 := by
  cases t with
  | leaf => simp [walk, children]
  | group id flavor shape ts =>
    rw [walk]
    rcases enter s (.group id flavor shape ts) depth with ⟨b, s'⟩
    cases b <;> simp [walkAll_eq_foldl, children]

theorem size_eq (t : Tree φ) : t.size = 1 + sizeAll t.children := by
  cases t with
  | leaf => rfl
  | group => rfl

theorem sizeAll_append (ts us : List (Tree φ)) : sizeAll (ts ++ us) = sizeAll ts + sizeAll us := by
  induction ts with
  | nil => simp [sizeAll]
  | cons t ts ih => rw [List.cons_append, sizeAll, sizeAll, ih, Nat.add_assoc]

theorem length_flatMap_subtrees {ts : List (Tree φ)}
    (h : ∀ t ∈ ts, t.subtrees.length = t.size) :
    (ts.flatMap subtrees).length = sizeAll ts := by
  induction ts with
  | nil => rfl
  | cons t ts ih =>
    rw [List.forall_mem_cons] at h
    rw [List.flatMap_cons, List.length_append, h.1, ih h.2, sizeAll]

theorem length_subtrees (t : Tree φ) : t.subtrees.length = t.size := by
  induction t using children_induction with
  | step t ih =>
    rw [subtrees_eq, size_eq, List.length_cons, length_flatMap_subtrees ih]
    omega

theorem size_lt_of_child {t c : Tree φ} (h : c ∈ t.children) : c.size < t.size := by
  rw [← length_subtrees, ← length_subtrees t, subtrees_eq t, List.length_cons]
  exact Nat.lt_succ_of_le (List.sublist_flatten_of_mem (List.mem_map_of_mem h)).length_le

theorem height_le_heightAll {t : Tree φ} {ts : List (Tree φ)} (h : t ∈ ts) :
    t.height ≤ heightAll ts := by
  induction ts with
  | nil => cases h
  | cons u ts ih =>
    rw [heightAll]
    rcases List.mem_cons.1 h with rfl | h
    · omega
    · have := ih h; omega

theorem height_lt_of_child {t c : Tree φ} (h : c ∈ t.children) : c.height < t.height := by
  cases t with
  | leaf => cases h
  | group _ _ _ ts =>
    have : c.height ≤ heightAll ts := height_le_heightAll h
    rw [height]; omega

theorem height_pos (t : Tree φ) : 0 < t.height := by
  cases t <;> simp only [height] <;> omega

theorem height_eq (t : Tree φ) : t.height = 1 + heightAll t.children := by
  cases t <;> rfl

theorem heightAll_map {ts : List (Tree φ)} {f : Tree φ → Tree φ}
    (h : ∀ t ∈ ts, (f t).height = t.height) : heightAll (ts.map f) = heightAll ts := by
  induction ts with
  | nil => rfl
  | cons t ts ih =>
    rw [List.forall_mem_cons] at h
    rw [List.map_cons, heightAll, heightAll, h.1, ih h.2]

theorem heightAll_le_sizeAll {ts : List (Tree φ)} (h : ∀ t ∈ ts, t.height ≤ t.size) :
    heightAll ts ≤ sizeAll ts := by
  induction ts with
  | nil => exact Nat.le_refl _
  | cons t ts ih =>
    simp only [List.forall_mem_cons] at h
    have := ih h.2
    rw [heightAll, sizeAll]; omega

theorem height_le_size (t : Tree φ) : t.height ≤ t.size := by
  induction t using children_induction with
  | step t ih =>
    cases t with
    | leaf => exact Nat.le_refl _
    | group _ _ _ ts =>
      have : heightAll ts ≤ sizeAll ts := heightAll_le_sizeAll ih
      rw [height, size]; omega

end Tree

namespace Forest

variable (F : Forest)

def subtrees : List (Tree Flavor) := F.flatMap Tree.subtrees

def ids : List NodeId := F.flatMap Tree.ids

variable {F}

theorem mem_subtrees {u : Tree Flavor} : u ∈ subtrees F ↔ ∃ t ∈ F, u ∈ t.subtrees := by
  simp [subtrees]

theorem tree_mem_subtrees {t : Tree Flavor} (h : t ∈ F) : t ∈ subtrees F :=
  mem_subtrees.2 ⟨t, h, t.self_mem_subtrees⟩

theorem child_mem_subtrees {u c : Tree Flavor} (hu : u ∈ subtrees F) (hc : c ∈ u.children) :
    c ∈ subtrees F := by
  obtain ⟨t, ht, hu⟩ := mem_subtrees.1 hu
  exact mem_subtrees.2 ⟨t, ht, Tree.child_mem_subtrees hu hc⟩

theorem mem_subtrees_append {u : Tree Flavor} (hu : u ∈ subtrees F) (G : Forest) :
    u ∈ subtrees (F ++ G) := by
  rw [subtrees, List.flatMap_append]
  exact List.mem_append_left _ hu

theorem map_id_subtrees : (subtrees F).map Tree.id = ids F := by
  rw [subtrees, List.map_flatMap]; rfl

theorem mem_ids {id : NodeId} : id ∈ ids F ↔ ∃ u ∈ subtrees F, u.id = id := by
  rw [← map_id_subtrees]; simp

theorem ids_sublist {u : Tree Flavor} (hu : u ∈ subtrees F) : u.ids.Sublist (ids F) := by
  obtain ⟨t, ht, hu⟩ := mem_subtrees.1 hu
  exact (Tree.ids_sublist hu).trans (List.sublist_flatten_of_mem (List.mem_map_of_mem ht))

/-- An id names one node only. -/
theorem eq_of_id_eq (hn : (ids F).Nodup) {u v : Tree Flavor} (hu : u ∈ subtrees F)
    (hv : v ∈ subtrees F) (h : u.id = v.id) : u = v := by
  rw [← map_id_subtrees] at hn
  exact List.inj_on_of_nodup_map hn hu hv h

theorem map_id_sublist_ids (ts : List (Tree Flavor)) : (ts.map Tree.id).Sublist (ids ts) := by
  induction ts with
  | nil => exact List.Sublist.refl _
  | cons t ts ih =>
    simp only [ids, List.flatMap_cons, List.map_cons, Tree.ids_eq t, List.cons_append]
    exact .cons_cons _ (ih.trans (List.sublist_append_right _ _))

end Forest

end LabelGrammar
