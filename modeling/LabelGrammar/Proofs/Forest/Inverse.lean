import Mathlib.Data.List.InsertIdx
import LabelGrammar.Proofs.Forest.Edit

/-! # Taking out and putting back

A child that is taken out of a forest and put back at its index leaves the forest as it was, and so
does a new child that is taken out again.
-/

namespace LabelGrammar

namespace Tree

variable {φ : Type} {id : NodeId} {f g : Tree φ → Tree φ} {t u c : Tree φ} {i : Nat}

@[simp] theorem withChildren_withChildren (t : Tree φ) (ts us : List (Tree φ)) :
    (t.withChildren ts).withChildren us = t.withChildren us := by cases t <;> rfl

theorem modifyAt_modifyAt (hg : ∀ u, (g u).id = u.id) (t : Tree φ) :
    (t.modifyAt id g).modifyAt id f = t.modifyAt id fun u => f (g u) := by
  induction t using children_induction with
  | step t ih =>
    by_cases he : t.id = id
    · rw [modifyAt_of_eq g he, modifyAt_of_eq f ((hg t).trans he), modifyAt_of_eq _ he]
    · rw [modifyAt_of_ne g he, modifyAt_of_ne f (by simpa using he), modifyAt_of_ne _ he,
        children_withChildren_map, withChildren_withChildren, List.map_map]
      exact congrArg t.withChildren (List.map_congr_left ih)

theorem modifyAt_eq_self (h : ∀ u ∈ t.subtrees, u.id = id → f u = u) : t.modifyAt id f = t := by
  induction t using children_induction with
  | step t ih =>
    by_cases he : t.id = id
    · rw [modifyAt_of_eq f he, h t t.self_mem_subtrees he]
    · have hc : t.children.map (modifyAt id f) = t.children :=
        (List.map_congr_left fun c hc =>
          ih c hc fun u hu => h u (mem_subtrees_of_child hc hu)).trans (List.map_id _)
      rw [modifyAt_of_ne f he, hc, withChildren_children]

theorem mem_subtrees_modifyAt (hn : t.ids.Nodup) (hu : u ∈ t.subtrees) :
    f u ∈ (t.modifyAt u.id f).subtrees := by
  induction t using children_induction with
  | step t ih =>
    rcases mem_subtrees.1 hu with rfl | ⟨c, hc, hu⟩
    · rw [modifyAt_of_eq f rfl]
      exact self_mem_subtrees _
    · rw [ids_eq, List.nodup_cons] at hn
      have hne : t.id ≠ u.id := fun he =>
        hn.1 (he ▸ List.mem_flatMap.2 ⟨c, hc, mem_ids.2 ⟨u, hu, rfl⟩⟩)
      have hnc : c.ids.Nodup := hn.2.sublist (List.sublist_flatten_of_mem (List.mem_map_of_mem hc))
      rw [modifyAt_of_ne f hne]
      refine mem_subtrees_of_child ?_ (ih c hc hnc hu)
      rw [children_withChildren_map]
      exact List.mem_map_of_mem hc

/-- An id names one of several trees only, so that without it they are those at other indices. -/
theorem filter_eq_eraseIdx {ts : List (Tree φ)} (hn : (ts.map Tree.id).Nodup)
    (hc : ts[i]? = some c) : ts.filter (·.id ≠ c.id) = ts.eraseIdx i := by
  induction ts generalizing i with
  | nil => cases hc
  | cons t ts ih =>
    rw [List.map_cons, List.nodup_cons] at hn
    cases i with
    | zero =>
      obtain rfl : t = c := Option.some.inj hc
      rw [List.filter_cons_of_neg (by simp), List.eraseIdx_zero, List.tail_cons]
      exact List.filter_eq_self.2 fun u hu => decide_eq_true fun he =>
        hn.1 (List.mem_map.2 ⟨u, hu, he⟩)
    | succ i =>
      rw [List.getElem?_cons_succ] at hc
      have hne : t.id ≠ c.id := fun he =>
        hn.1 (he ▸ List.mem_map_of_mem (List.mem_of_getElem? hc))
      rw [List.filter_cons_of_pos (by simpa using hne), ih hn.2 hc, List.eraseIdx_cons_succ]

theorem insertIdx_filter {ts : List (Tree φ)} (hn : (ts.map Tree.id).Nodup)
    (hc : ts[i]? = some c) : (ts.filter (·.id ≠ c.id)).insertIdx i c = ts := by
  obtain ⟨hi, rfl⟩ := List.getElem?_eq_some_iff.1 hc
  rw [filter_eq_eraseIdx hn hc, List.insertIdx_eraseIdx_getElem hi]

theorem filter_insertIdx {ts : List (Tree φ)} (hc : c.id ∉ ts.map Tree.id) (i : Nat) :
    (ts.insertIdx i c).filter (·.id ≠ c.id) = ts := by
  have hself {us : List (Tree φ)} (h : c.id ∉ us.map Tree.id) :
      us.filter (·.id ≠ c.id) = us :=
    List.filter_eq_self.2 fun u hu => decide_eq_true fun he =>
      h (List.mem_map.2 ⟨u, hu, he⟩)
  induction ts generalizing i with
  | nil => cases i <;> simp
  | cons t ts ih =>
    cases i with
    | zero => rw [List.insertIdx_zero, List.filter_cons_of_neg (by simp), hself hc]
    | succ i =>
      rw [List.map_cons, List.mem_cons, not_or] at hc
      rw [List.insertIdx_succ_cons, List.filter_cons_of_pos (by simpa using Ne.symm hc.1),
        ih hc.2]

theorem insertChild_dropChild (hn : (u.children.map Tree.id).Nodup) (hc : u.children[i]? = some c) :
    insertChild (some i) c (dropChild c.id u) = u := by
  rw [insertChild, dropChild, withChildren_withChildren, children_withChildren_filter,
    Option.getD_some, insertIdx_filter hn hc, withChildren_children]

theorem prune_withChildren (id : NodeId) (t : Tree φ) (ts : List (Tree φ)) :
    (t.withChildren ts).prune id = t.withChildren (pruneAll id ts) := by cases t <;> rfl

/-- A new child is the only node that is taken out again under its id. -/
theorem prune_modifyAt_insertChild {p : NodeId} {index : Option Nat} (hc : c.id ∉ t.ids) :
    (t.modifyAt p (insertChild index c)).prune c.id = t := by
  induction t using children_induction with
  | step t ih =>
    rw [ids_eq, List.mem_cons, List.mem_flatMap, not_or] at hc
    have hcs : ∀ d ∈ t.children, c.id ∉ d.ids := fun d hd hm => hc.2 ⟨d, hd, hm⟩
    have hm : c.id ∉ t.children.map Tree.id := fun hm => by
      obtain ⟨d, hd, he⟩ := List.mem_map.1 hm
      exact hcs d hd (he ▸ d.id_mem_ids)
    by_cases he : t.id = p
    · have hp : t.children.map (prune c.id) = t.children :=
        (List.map_congr_left fun d hd => prune_of_not_mem (hcs d hd)).trans (List.map_id _)
      rw [modifyAt_of_eq _ he, insertChild, prune_withChildren, pruneAll_eq, filter_insertIdx hm,
        hp, withChildren_children]
    · have hf : (t.children.map (modifyAt p (insertChild index c))).filter (·.id ≠ c.id) =
          t.children.map (modifyAt p (insertChild index c)) := by
        refine List.filter_eq_self.2 fun d hd => decide_eq_true fun hi => hm ?_
        obtain ⟨e, he, rfl⟩ := List.mem_map.1 hd
        rw [id_modifyAt (id_insertChild index c)] at hi
        exact List.mem_map.2 ⟨e, he, hi⟩
      have hp : (t.children.map (modifyAt p (insertChild index c))).map (prune c.id) =
          t.children := by
        rw [List.map_map]
        exact (List.map_congr_left fun d hd => ih d hd (hcs d hd)).trans (List.map_id _)
      rw [modifyAt_of_ne _ he, prune_withChildren, pruneAll_eq, hf, hp, withChildren_children]

end Tree

namespace Forest

variable {F : Forest} {id : NodeId} {f g : Tree Flavor → Tree Flavor} {u v c : Tree Flavor}
  {i : Nat}

theorem modifyAt_modifyAt (hg : ∀ u, (g u).id = u.id) (F : Forest) :
    modifyAt id f (modifyAt id g F) = modifyAt id (fun u => f (g u)) F := by
  rw [modifyAt, modifyAt, List.map_map]
  exact List.map_congr_left fun t _ => Tree.modifyAt_modifyAt hg t

theorem modifyAt_eq_self (h : ∀ u ∈ subtrees F, u.id = id → f u = u) : modifyAt id f F = F :=
  (List.map_congr_left fun t ht => Tree.modifyAt_eq_self fun u hu =>
    h u (mem_subtrees.2 ⟨t, ht, hu⟩)).trans (List.map_id _)

theorem mem_subtrees_modifyAt (hn : (ids F).Nodup) (hu : u ∈ subtrees F) :
    f u ∈ subtrees (modifyAt u.id f F) := by
  obtain ⟨t, ht, hu⟩ := mem_subtrees.1 hu
  have hnt : t.ids.Nodup := hn.sublist (ids_sublist (tree_mem_subtrees ht))
  exact mem_subtrees.2 ⟨_, List.mem_map_of_mem ht, Tree.mem_subtrees_modifyAt hnt hu⟩

theorem dropChild_mem_subtrees (hn : (ids F).Nodup) (hv : v ∈ subtrees F) (hc : c ∈ v.children) :
    v.dropChild c.id ∈ subtrees (without c.id F) := by
  rw [without_eq_modifyAt hn hv hc]
  exact mem_subtrees_modifyAt hn hv

theorem nodup_map_id_children (hn : (ids F).Nodup) (hv : v ∈ subtrees F) :
    (v.children.map Tree.id).Nodup :=
  (children_nodup (hn.sublist (ids_sublist hv))).sublist (map_id_sublist_ids _)

/-- A child that is taken out and put back at its index is where it was. -/
theorem insertAt_without (hn : (ids F).Nodup) (hv : v ∈ subtrees F) (hc : v.children[i]? = some c) :
    insertAt ⟨v.id, some i⟩ c (without c.id F) = F := by
  rw [without_eq_modifyAt hn hv (List.mem_of_getElem? hc), insertAt,
    modifyAt_modifyAt (Tree.id_dropChild c.id)]
  refine modifyAt_eq_self fun u hu he => ?_
  obtain rfl := eq_of_id_eq hn hu hv he
  exact Tree.insertChild_dropChild (nodup_map_id_children hn hv) hc

/-- A new child that is taken out again leaves no trace. -/
theorem without_insertAt (hc : c.id ∉ ids F) (place : Attachment) :
    without c.id (insertAt place c F) = F := by
  have hid (t : Tree Flavor) : (t.modifyAt place.parent (Tree.insertChild place.index c)).id =
      t.id := Tree.id_modifyAt (Tree.id_insertChild place.index c) t
  have hf : (insertAt place c F).filter (·.id ≠ c.id) = insertAt place c F := by
    refine List.filter_eq_self.2 fun t ht => decide_eq_true fun he => hc ?_
    obtain ⟨u, hu, rfl⟩ := List.mem_map.1 ht
    rw [hid] at he
    exact List.mem_flatMap.2 ⟨u, hu, he ▸ u.id_mem_ids⟩
  rw [without, Tree.pruneAll_eq, hf, insertAt, modifyAt, List.map_map]
  exact (List.map_congr_left fun t ht => Tree.prune_modifyAt_insertChild fun hm =>
    hc (List.mem_flatMap.2 ⟨t, ht, hm⟩)).trans (List.map_id _)

end Forest

end LabelGrammar
