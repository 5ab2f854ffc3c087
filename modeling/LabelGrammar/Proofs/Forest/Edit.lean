import LabelGrammar.Proofs.Forest.Basic
import LabelGrammar.Workspace.Attachment

/-! # Editing forests

The edits of an ordered forest that the operations on a workspace stand for. Two recursions carry
them: changing the node with a given id, and taking a node out wherever it stands.
-/

namespace LabelGrammar

namespace Tree

/-- Gives a sequence the flavor of its position; other nodes keep theirs. -/
def retag (atRoot : Bool) (t : Tree Flavor) : Tree Flavor :=
  if t.kind = .sequence then t.withFlavor (.default .sequence atRoot) else t

theorem nested_eq_retag (t : Tree Flavor) : t.nested = t.retag false := rfl

section Retag

variable (atRoot : Bool) (t : Tree Flavor)

@[simp] theorem id_retag : (t.retag atRoot).id = t.id := by
  unfold retag; split <;> cases t <;> rfl

@[simp] theorem rule_retag : (t.retag atRoot).rule = t.rule := by
  unfold retag; split <;> cases t <;> rfl

@[simp] theorem kind_retag : (t.retag atRoot).kind = t.kind := by simp [kind]

@[simp] theorem children_retag : (t.retag atRoot).children = t.children := by
  unfold retag; split <;> cases t <;> rfl

theorem flavor_retag : (t.retag atRoot).flavor =
    if t.kind = .sequence then .default .sequence atRoot else t.flavor := by
  unfold retag; split <;> cases t <;> rfl

@[simp] theorem retag_retag (b : Bool) : (t.retag b).retag atRoot = t.retag atRoot := by
  refine ext_children (by simp) ?_ (by simp) (by simp)
  simp only [flavor_retag, kind_retag]
  split <;> rfl

end Retag

mutual

def settle (atRoot : Bool) : Tree Flavor → Tree Flavor
  | .leaf id flavor l => .leaf id flavor l
  | .group id flavor shape ts => retag atRoot (.group id flavor shape (settleAll ts))

def settleAll : List (Tree Flavor) → List (Tree Flavor)
  | [] => []
  | t :: ts => settle false t :: settleAll ts

end

theorem settleAll_eq_map (ts : List (Tree Flavor)) : settleAll ts = ts.map (settle false) := by
  induction ts with
  | nil => rfl
  | cons t ts ih => simp [settleAll, ih]

theorem settle_eq (atRoot : Bool) (t : Tree Flavor) :
    t.settle atRoot = (t.withChildren (t.children.map (settle false))).retag atRoot := by
  cases t with
  | leaf _ _ l => cases l <;> rfl
  | group => simp [settle, withChildren, children, settleAll_eq_map]

@[simp] theorem id_settle (atRoot : Bool) (t : Tree Flavor) : (t.settle atRoot).id = t.id := by
  simp [settle_eq]

@[simp] theorem kind_settle (atRoot : Bool) (t : Tree Flavor) :
    (t.settle atRoot).kind = t.kind := by simp [settle_eq]

@[simp] theorem children_settle (atRoot : Bool) (t : Tree Flavor) :
    (t.settle atRoot).children = t.children.map (settle false) := by simp [settle_eq]

@[simp] theorem retag_settle (b b' : Bool) (t : Tree Flavor) :
    (t.settle b).retag b' = t.settle b' := by
  rw [settle_eq, settle_eq, retag_retag]

@[simp] theorem ids_settle (atRoot : Bool) (t : Tree Flavor) : (t.settle atRoot).ids = t.ids := by
  induction t using children_induction generalizing atRoot with
  | step t ih =>
    simp only [ids_eq (t.settle atRoot), id_settle, children_settle, List.flatMap_map, ids_eq t]
    congr 1
    exact List.flatMap_congr fun c hc => ih c hc false

@[simp] theorem height_settle (atRoot : Bool) (t : Tree Flavor) :
    (t.settle atRoot).height = t.height := by
  induction t using children_induction generalizing atRoot with
  | step t ih =>
    rw [height_eq, children_settle, heightAll_map fun c hc => ih c hc false, ← height_eq]

section Modify

variable {φ : Type}

mutual

/-- Changes the topmost nodes with the given id. -/
def modifyAt (id : NodeId) (f : Tree φ → Tree φ) : Tree φ → Tree φ
  | .leaf i flavor l => if i = id then f (.leaf i flavor l) else .leaf i flavor l
  | .group i flavor shape ts =>
    if i = id then f (.group i flavor shape ts) else .group i flavor shape (modifyAll id f ts)

def modifyAll (id : NodeId) (f : Tree φ → Tree φ) : List (Tree φ) → List (Tree φ)
  | [] => []
  | t :: ts => modifyAt id f t :: modifyAll id f ts

end

theorem modifyAll_eq_map (id : NodeId) (f : Tree φ → Tree φ) (ts : List (Tree φ)) :
    modifyAll id f ts = ts.map (modifyAt id f) := by
  induction ts with
  | nil => rfl
  | cons t ts ih => simp [modifyAll, ih]

theorem modifyAt_eq (id : NodeId) (f : Tree φ → Tree φ) (t : Tree φ) :
    t.modifyAt id f =
      if t.id = id then f t else t.withChildren (t.children.map (modifyAt id f)) := by
  cases t with
  | leaf => rfl
  | group => rw [modifyAt, modifyAll_eq_map]; rfl

theorem modifyAt_of_eq {id : NodeId} (f : Tree φ → Tree φ) {t : Tree φ} (h : t.id = id) :
    t.modifyAt id f = f t := by rw [modifyAt_eq, if_pos h]

theorem modifyAt_of_ne {id : NodeId} (f : Tree φ → Tree φ) {t : Tree φ} (h : t.id ≠ id) :
    t.modifyAt id f = t.withChildren (t.children.map (modifyAt id f)) := by
  rw [modifyAt_eq, if_neg h]

theorem modifyAt_of_not_mem {id : NodeId} (f : Tree φ → Tree φ) {t : Tree φ} (h : id ∉ t.ids) :
    t.modifyAt id f = t := by
  induction t using children_induction with
  | step t ih =>
    rw [ids_eq, List.mem_cons, List.mem_flatMap, not_or] at h
    rw [modifyAt_of_ne f (Ne.symm h.1)]
    have hc : t.children.map (modifyAt id f) = t.children :=
      (List.map_congr_left fun c hc => ih c hc fun hm => h.2 ⟨c, hc, hm⟩).trans (List.map_id _)
    rw [hc, withChildren_children]

theorem id_modifyAt {id : NodeId} {f : Tree φ → Tree φ} (hf : ∀ u, (f u).id = u.id) (t : Tree φ) :
    (t.modifyAt id f).id = t.id := by
  rw [modifyAt_eq]; split <;> simp [hf]

theorem kind_modifyAt {id : NodeId} {f : Tree φ → Tree φ} {t : Tree φ}
    (hf : t.id = id → (f t).kind = t.kind) : (t.modifyAt id f).kind = t.kind := by
  rw [modifyAt_eq]
  split
  · next h => exact hf h
  · simp

end Modify

section Steps

variable {φ : Type}

def insertChild (index : Option Nat) (new t : Tree φ) : Tree φ :=
  t.withChildren (t.children.insertIdx (index.getD t.children.length) new)

def dropChild (id : NodeId) (t : Tree φ) : Tree φ :=
  t.withChildren (t.children.filter (·.id ≠ id))

def withRule : Rule → Tree φ → Tree φ
  | .leaf l, .leaf id flavor _ => .leaf id flavor l
  | _, t => t

@[simp] theorem id_insertChild (index : Option Nat) (new t : Tree φ) :
    (insertChild index new t).id = t.id := by simp [insertChild]

@[simp] theorem kind_insertChild (index : Option Nat) (new t : Tree φ) :
    (insertChild index new t).kind = t.kind := by simp [insertChild]

@[simp] theorem id_dropChild (id : NodeId) (t : Tree φ) : (t.dropChild id).id = t.id := by
  simp [dropChild]

@[simp] theorem kind_dropChild (id : NodeId) (t : Tree φ) : (t.dropChild id).kind = t.kind := by
  simp [dropChild]

@[simp] theorem id_withRule (rule : Rule) (t : Tree φ) : (t.withRule rule).id = t.id := by
  cases rule <;> cases t <;> rfl

end Steps

section Prune

variable {φ : Type}

mutual

def prune (id : NodeId) : Tree φ → Tree φ
  | .leaf i flavor l => .leaf i flavor l
  | .group i flavor shape ts => .group i flavor shape (pruneAll id ts)

/-- Takes the nodes with the given id out of a list of trees, at any depth. -/
def pruneAll (id : NodeId) : List (Tree φ) → List (Tree φ)
  | [] => []
  | t :: ts => if t.id = id then pruneAll id ts else prune id t :: pruneAll id ts

end

theorem pruneAll_eq (id : NodeId) (ts : List (Tree φ)) :
    pruneAll id ts = (ts.filter (·.id ≠ id)).map (prune id) := by
  induction ts with
  | nil => rfl
  | cons t ts ih =>
    rw [pruneAll, ih]
    split <;> simp_all

theorem prune_eq (id : NodeId) (t : Tree φ) :
    t.prune id = t.withChildren ((t.children.filter (·.id ≠ id)).map (prune id)) := by
  cases t with
  | leaf => rfl
  | group => simp [prune, withChildren, children, pruneAll_eq]

theorem filter_of_not_mem {id : NodeId} {ts : List (Tree φ)} (h : id ∉ ts.flatMap ids) :
    ts.filter (·.id ≠ id) = ts :=
  List.filter_eq_self.2 fun t ht => decide_eq_true fun he =>
    h (List.mem_flatMap.2 ⟨t, ht, he ▸ t.id_mem_ids⟩)

theorem prune_of_not_mem {id : NodeId} {t : Tree φ} (h : id ∉ t.ids) : t.prune id = t := by
  induction t using children_induction with
  | step t ih =>
    rw [ids_eq, List.mem_cons, List.mem_flatMap, not_or] at h
    have hf : t.children.filter (·.id ≠ id) = t.children :=
      filter_of_not_mem fun hm => h.2 (List.mem_flatMap.1 hm)
    have hp : t.children.map (prune id) = t.children :=
      (List.map_congr_left fun c hc => ih c hc fun hm => h.2 ⟨c, hc, hm⟩).trans (List.map_id _)
    rw [prune_eq, hf, hp, withChildren_children]

end Prune

end Tree

namespace Forest

def modifyAt (id : NodeId) (f : Tree Flavor → Tree Flavor) (F : Forest) : Forest :=
  F.map (Tree.modifyAt id f)

def insertAt (place : Attachment) (new : Tree Flavor) (F : Forest) : Forest :=
  modifyAt place.parent (Tree.insertChild place.index new) F

/-- The forest without the subtree with the given id. -/
def without (id : NodeId) (F : Forest) : Forest := Tree.pruneAll id F

def setRule (id : NodeId) (rule : Rule) (F : Forest) : Forest := modifyAt id (Tree.withRule rule) F

section Unique

variable {F l r : Forest} {t u v : Tree Flavor} {id : NodeId}

theorem not_mem_ids_of_split (hn : (ids (l ++ t :: r)).Nodup) (h : id ∈ t.ids) :
    id ∉ ids l ∧ id ∉ ids r := by
  simp only [ids, List.flatMap_append, List.flatMap_cons] at hn ⊢
  rw [List.nodup_append, List.nodup_append] at hn
  obtain ⟨-, ⟨-, -, hr⟩, hl⟩ := hn
  exact ⟨fun hm => hl _ hm _ (List.mem_append_left _ h) rfl, fun hm => hr _ h _ hm rfl⟩

theorem eq_of_mem_ids (hn : (ids F).Nodup) (ht : t ∈ F) (hu : u ∈ F) (h : id ∈ t.ids)
    (h' : id ∈ u.ids) : t = u := by
  obtain ⟨l, r, rfl⟩ := List.append_of_mem ht
  obtain ⟨hl, hr⟩ := not_mem_ids_of_split hn h
  rcases List.mem_append.1 hu with hu | hu
  · exact (hl (List.mem_flatMap.2 ⟨u, hu, h'⟩)).elim
  · rcases List.mem_cons.1 hu with rfl | hu
    · rfl
    · exact (hr (List.mem_flatMap.2 ⟨u, hu, h'⟩)).elim

theorem perm_cons_filter (hn : (ids F).Nodup) (ht : t ∈ F) :
    F.Perm (t :: F.filter (·.id ≠ t.id)) := by
  obtain ⟨l, r, rfl⟩ := List.append_of_mem ht
  obtain ⟨hl, hr⟩ := not_mem_ids_of_split hn t.id_mem_ids
  rw [List.filter_append, List.filter_cons_of_neg (by simp), Tree.filter_of_not_mem hl,
    Tree.filter_of_not_mem hr]
  exact List.perm_middle

theorem modifyAt_of_not_mem (f : Tree Flavor → Tree Flavor) (h : id ∉ ids F) :
    modifyAt id f F = F :=
  (List.map_congr_left fun t ht => Tree.modifyAt_of_not_mem f fun hm =>
    h (List.mem_flatMap.2 ⟨t, ht, hm⟩)).trans (List.map_id _)

theorem modifyAt_split (f : Tree Flavor → Tree Flavor) (hn : (ids (l ++ t :: r)).Nodup)
    (h : id ∈ t.ids) : modifyAt id f (l ++ t :: r) = l ++ t.modifyAt id f :: r := by
  obtain ⟨hl, hr⟩ := not_mem_ids_of_split hn h
  have hl' := modifyAt_of_not_mem f hl
  have hr' := modifyAt_of_not_mem f hr
  rw [modifyAt] at hl' hr' ⊢
  rw [List.map_append, List.map_cons, hl', hr']

theorem children_nodup (hn : t.ids.Nodup) : (ids t.children).Nodup := by
  rw [Tree.ids_eq] at hn
  exact hn.of_cons

theorem exists_child_of_below (hv : v ∈ t.subtrees) (hu : u ∈ v.children) :
    ∃ c ∈ t.children, u ∈ c.subtrees := by
  rcases Tree.mem_subtrees.1 hv with rfl | ⟨c, hc, hv⟩
  · exact ⟨u, hu, u.self_mem_subtrees⟩
  · exact ⟨c, hc, Tree.child_mem_subtrees hv hu⟩

theorem id_ne_of_below (hn : t.ids.Nodup) (hv : v ∈ t.subtrees) (hu : u ∈ v.children) :
    t.id ≠ u.id := by
  obtain ⟨c, hc, hu⟩ := exists_child_of_below hv hu
  rw [Tree.ids_eq, List.nodup_cons] at hn
  exact fun he => hn.1 (List.mem_flatMap.2 ⟨c, hc, Tree.mem_ids.2 ⟨u, hu, he.symm⟩⟩)

theorem without_tree (hn : (ids F).Nodup) (ht : t ∈ F) :
    without t.id F = F.filter (·.id ≠ t.id) := by
  rw [without, Tree.pruneAll_eq]
  refine (List.map_congr_left fun u hu => ?_).trans (List.map_id _)
  simp only [List.mem_filter, decide_eq_true_eq] at hu
  refine Tree.prune_of_not_mem fun hm => hu.2 ?_
  rw [eq_of_mem_ids hn ht hu.1 t.id_mem_ids hm]

theorem without_append (hn : (ids (F ++ [t])).Nodup) : without t.id (F ++ [t]) = F := by
  have hl := (not_mem_ids_of_split hn t.id_mem_ids).1
  rw [without_tree hn (by simp), List.filter_append, Tree.filter_of_not_mem hl]
  simp

/-- Taking a node out of the tree that holds it changes no other tree of a list. -/
theorem without_below (hn : (ids F).Nodup) (ht : t ∈ F) (hv : v ∈ t.subtrees)
    (hu : u ∈ v.children) (h : t.prune u.id = t.modifyAt v.id (Tree.dropChild u.id)) :
    without u.id F = modifyAt v.id (Tree.dropChild u.id) F := by
  have hut : u.id ∈ t.ids := Tree.mem_ids.2 ⟨u, Tree.child_mem_subtrees hv hu, rfl⟩
  have hvt : v.id ∈ t.ids := Tree.mem_ids.2 ⟨v, hv, rfl⟩
  have hnt : t.ids.Nodup := hn.sublist (ids_sublist (tree_mem_subtrees ht))
  have hf : F.filter (·.id ≠ u.id) = F := by
    refine List.filter_eq_self.2 fun c hc => decide_eq_true fun he => ?_
    obtain rfl := eq_of_mem_ids hn ht hc hut (he ▸ c.id_mem_ids)
    exact id_ne_of_below hnt hv hu he
  rw [without, Tree.pruneAll_eq, hf, modifyAt]
  refine List.map_congr_left fun c hc => ?_
  by_cases he : c = t
  · rw [he, h]
  · have hnot {a : NodeId} (ha : a ∈ t.ids) : a ∉ c.ids := fun hm =>
      he (eq_of_mem_ids hn hc ht hm ha)
    rw [Tree.prune_of_not_mem (hnot hut), Tree.modifyAt_of_not_mem _ (hnot hvt)]

theorem prune_eq_modifyAt (hn : t.ids.Nodup) (hv : v ∈ t.subtrees) (hu : u ∈ v.children) :
    t.prune u.id = t.modifyAt v.id (Tree.dropChild u.id) := by
  induction t using Tree.children_induction with
  | step t ih =>
    have hc := children_nodup hn
    rcases Tree.mem_subtrees.1 hv with rfl | ⟨c, hm, hv⟩
    · rw [Tree.modifyAt_of_eq _ rfl, Tree.dropChild, Tree.prune_eq, ← Tree.pruneAll_eq]
      exact congrArg (v.withChildren ·) (without_tree hc hu)
    · have hne : t.id ≠ v.id := by
        rw [Tree.ids_eq, List.nodup_cons] at hn
        exact fun he => hn.1 (List.mem_flatMap.2 ⟨c, hm, Tree.mem_ids.2 ⟨v, hv, he.symm⟩⟩)
      have hs := hc.sublist (ids_sublist (tree_mem_subtrees hm))
      rw [Tree.modifyAt_of_ne _ hne, Tree.prune_eq, ← Tree.pruneAll_eq]
      exact congrArg (t.withChildren ·) (without_below hc hm hv hu (ih c hm hs hv))

/-- A node that is not a root is taken out of the children of its parent. -/
theorem without_eq_modifyAt (hn : (ids F).Nodup) (hv : v ∈ subtrees F) (hu : u ∈ v.children) :
    without u.id F = modifyAt v.id (Tree.dropChild u.id) F := by
  obtain ⟨t, ht, hv⟩ := mem_subtrees.1 hv
  have hs := hn.sublist (ids_sublist (tree_mem_subtrees ht))
  exact without_below hn ht hv hu (prune_eq_modifyAt hs hv hu)

end Unique

end Forest

end LabelGrammar
