import LabelGrammar.Proofs.Forest.Inverse
import LabelGrammar.Proofs.Workspace.Issued
import LabelGrammar.Proofs.Workspace.Suited

/-! # Undoing a move or a removal

A block that is taken from its parent can be put back at its index, and what was deleted can be
inserted again as the tree that the deletion returned. Blocks of the top level come back as its last
ones, since nothing is put back at an index there.
-/

namespace LabelGrammar

open Forest

namespace Workspace

/-- The same blocks with the same parents, children and flavors, the same top level, and the same
ids issued. Blocks are found by their ids and have no order beside that. -/
structure Identical (w v : Workspace) : Prop where
  blocks : v.blocks.Perm w.blocks
  find? (id : NodeId) : v.find? id = w.find? id
  topLevel : v.topLevel = w.topLevel
  issued : v.issued = w.issued

/-- The workspace with a block moved to the end of the top level. -/
def moveLast (w : Workspace) (id : NodeId) : Workspace :=
  { w with topLevel := w.topLevel.filter (· ≠ id) ++ [id] }

/-- What takes a block away can be undone by what puts it there, and the other way round for blocks
of the top level. -/
structure Undoes (w : Workspace) : Prop where
  connect_disconnect {p c : NodeId} {b : Block} {i : Nat} :
    w.find? p = some b → b.children[i]? = some c →
    ∃ v x, (disconnect c).run w = (.ok (), v) ∧
      (connect c ⟨p, some i⟩).run v = (.ok (), x) ∧ w.Identical x
  insertTree_delete {p c : NodeId} {b : Block} {i : Nat} :
    w.find? p = some b → b.children[i]? = some c →
    ∃ t v x, (delete c).run w = (.ok t, v) ∧
      (insertTree t (some ⟨p, some i⟩)).run v = (.ok c, x) ∧ w.Identical x
  disconnect_connect {c : NodeId} {place : Attachment} {v : Workspace} : c ∈ w.topLevel →
    (connect c place).run w = (.ok (), v) →
    ∃ x, (disconnect c).run v = (.ok (), x) ∧ (w.moveLast c).Identical x
  insertTree_delete_topLevel {c : NodeId} : c ∈ w.topLevel →
    ∃ t v x, (delete c).run w = (.ok t, v) ∧
      (insertTree t none).run v = (.ok c, x) ∧ (w.moveLast c).Identical x

end Workspace

namespace Tree

variable {u v : Tree Flavor} {i : Nat}

theorem Legal.takes_dropChild {atRoot : Bool} (hl : v.Legal atRoot)
    (hn : (v.children.map Tree.id).Nodup) (hu : v.children[i]? = some u) :
    (v.dropChild u.id).Takes (some i) u.kind := by
  have hi : i < v.children.length := (List.getElem?_eq_some_iff.1 hu).1
  have hf : (v.dropChild u.id).children = v.children.eraseIdx i := by
    rw [Tree.dropChild, children_withChildren_filter, filter_eq_eraseIdx hn hu]
  constructor
  case container =>
    rw [kind_dropChild]
    exact isContainer_of_child (List.mem_of_getElem? hu)
  case inRange =>
    rw [hf, List.length_eraseIdx_of_lt hi, Option.getD_some]
    omega
  case restLast =>
    rw [← List.map_insertIdx, hf, Option.getD_some, ← filter_eq_eraseIdx hn hu,
      insertIdx_filter hn hu]
    exact hl.fits.restLast

theorem Takes.mem_insertChild {index : Option Nat} (h : v.Takes index u.kind) :
    u ∈ (insertChild index u v).children := by
  rw [insertChild, children_withChildren _ h.container]
  exact (List.mem_insertIdx h.inRange).2 (.inl rfl)

end Tree

namespace Represents

open Workspace

variable {w x : Workspace} {F : Forest} {t u v : Tree Flavor} {i : Nat}

/-- Two workspaces that represent one forest differ in the ids that were issued at most. -/
theorem identical (h : Represents w F) (hx : Represents x F) (hi : x.issued = w.issued) :
    w.Identical x where
  blocks := hx.blocks.trans h.blocks.symm
  find? _ := Option.ext fun _ => hx.find?_eq_some_iff.trans h.find?_eq_some_iff.symm
  topLevel := hx.topLevel.trans h.topLevel.symm
  issued := hi

theorem exists_child (h : Represents w F) {p c : NodeId} {b : Block} (hb : w.find? p = some b)
    (hc : b.children[i]? = some c) :
    ∃ v ∈ subtrees F, v.id = p ∧ ∃ u, v.children[i]? = some u ∧ u.id = c := by
  obtain ⟨v, hv, rfl, he⟩ := h.exists_node hb
  rw [he, Tree.children_block, List.getElem?_map] at hc
  obtain ⟨u, hu, rfl⟩ := Option.map_eq_some_iff.1 hc
  exact ⟨v, hv, rfl, u, hu, rfl⟩

theorem exists_topLevel (h : Represents w F) {c : NodeId} (hc : c ∈ w.topLevel) :
    ∃ t ∈ F, t.id = c := List.mem_map.1 (h.topLevel ▸ hc)

theorem moveLast (h : Represents w F) (ht : t ∈ F) :
    Represents (w.moveLast t.id) (without t.id F ++ [t]) := by
  have hw := without_tree h.nodup ht
  refine h.of_map_id_eq rfl rfl ?_ ?_ ?_
  · rw [Workspace.moveLast, hw, h.topLevel, List.map_append, List.filter_map]
    rfl
  · have hp : (without t.id F ++ [t]).Perm F :=
      (List.perm_append_singleton t _).trans (hw ▸ (perm_cons_filter h.nodup ht).symm)
    exact h.blocks.trans (hp.flatMap_right (Tree.toBlocks none)).symm
  · intro u hu
    rcases List.mem_append.1 hu with hu | hu
    · exact h.legal u (List.mem_of_mem_filter (hw ▸ hu))
    · exact h.legal u (List.mem_singleton.1 hu ▸ ht)

theorem issued_insertTree_delete (h : Represents w F) (hu : u ∈ subtrees F)
    {place : Option Attachment} {y : Workspace} (hx : (delete u.id).run w = (.ok u, x))
    (hy : (insertTree u place).run x = (.ok u.id, y)) : y.issued = w.issued := by
  have hw : x.issued = w.issued := by simpa [hx] using issued_delete w u.id
  have hs : u.ids ⊆ x.issued := by
    rw [hw]
    intro id hi
    obtain ⟨v, hv, rfl⟩ := Forest.mem_ids.1 ((ids_sublist hu).subset hi)
    obtain ⟨parent, hb⟩ := h.find?_node hv
    have hm := h.issued _ (List.mem_of_find?_eq_some hb)
    rwa [Tree.id_block] at hm
  have hroot : ((insertTree u place).run x).1 = .ok u.id := by rw [hy]
  have hr := issued_insertTree hroot
  rw [hy, retire_of_subset hs] at hr
  exact hr.trans hw

theorem connect_disconnect (h : Represents w F) (hv : v ∈ subtrees F)
    (hu : v.children[i]? = some u) :
    ∃ x y, (disconnect u.id).run w = (.ok (), x) ∧
      (connect u.id ⟨v.id, some i⟩).run x = (.ok (), y) ∧ w.Identical y := by
  have hc := List.mem_of_getElem? hu
  obtain ⟨_, hl⟩ := h.legal.subtree hv
  have hx := h.detach hv hc
  have hp := dropChild_mem_subtrees h.nodup hv hc
  have hp' := mem_subtrees_append hp [u.retag true]
  have hnot : (v.dropChild u.id).id ∉ (u.retag true).ids := fun hm =>
    (not_mem_ids_of_split hx.nodup hm).1 (Forest.mem_ids.2 ⟨_, hp, rfl⟩)
  have hk : (v.dropChild u.id).Takes (some i) (u.retag true).kind := by
    rw [Tree.kind_retag]
    exact hl.takes_dropChild (nodup_map_id_children h.nodup hv) hu
  have ht : u.retag true ∈ without u.id F ++ [u.retag true] := by simp
  have hr := hx.connect_tree ht hp' hnot hk
  have hy := hx.attach ht hp' hnot hk
  rw [Tree.id_dropChild, Tree.id_retag] at hr
  rw [without_append hx.nodup, Tree.nested_eq_retag, Tree.retag_retag, Tree.id_dropChild,
    Tree.id_retag, (hl.child hc).retag_eq, insertAt_without h.nodup hv hu] at hy
  exact ⟨_, _, h.disconnect_child hv hc, hr, h.identical hy rfl⟩

theorem insertTree_delete (h : Represents w F) (hv : v ∈ subtrees F)
    (hu : v.children[i]? = some u) :
    ∃ x y, (delete u.id).run w = (.ok u, x) ∧
      (insertTree u (some ⟨v.id, some i⟩)).run x = (.ok u.id, y) ∧ w.Identical y := by
  have hc := List.mem_of_getElem? hu
  obtain ⟨_, hl⟩ := h.legal.subtree hv
  obtain ⟨x, hd, hx⟩ := h.delete_node (child_mem_subtrees hv hc)
  have hn := nodup_without_child h.nodup hv hc
  have ha : x.Admits u := hx.admits_of_legal (hl.child hc) hn.of_append_left
    fun _ hi => List.disjoint_of_nodup_append hn hi
  obtain ⟨y, hr, hy⟩ := hx.insertTree_node ha (dropChild_mem_subtrees h.nodup hv hc)
    (hl.takes_dropChild (nodup_map_id_children h.nodup hv) hu)
  rw [Tree.id_dropChild] at hr hy
  rw [(hl.child hc).settle_eq, insertAt_without h.nodup hv hu] at hy
  exact ⟨x, y, hd, hr, h.identical hy (h.issued_insertTree_delete (child_mem_subtrees hv hc) hd hr)⟩

theorem disconnect_connect (h : Represents w F) (ht : t ∈ F) {place : Attachment}
    (hr : (connect t.id place).run w = (.ok (), x)) :
    ∃ y, (disconnect t.id).run x = (.ok (), y) ∧ (w.moveLast t.id).Identical y := by
  rcases h.run_connect t.id place with ⟨e, he⟩ | ⟨s, hs, he, u, hu, hp, hk, hc, hx⟩
  · rw [he] at hr
    cases hr
  obtain rfl := eq_of_id_eq h.nodup (tree_mem_subtrees hs) (tree_mem_subtrees ht) he
  obtain rfl : _ = x := (Prod.mk.inj (hc.symm.trans hr)).2
  have hid : s.nested.id = s.id := Tree.id_retag false s
  have hd : s.nested.id ∉ ids (without s.id F) := by
    rw [hid]
    exact List.disjoint_of_nodup_append (nodup_without_tree h.nodup hs) s.id_mem_ids
  have hn : (ids (without s.id F)).Nodup := (nodup_without_tree h.nodup hs).of_append_right
  have hv : Tree.insertChild place.index s.nested u ∈
      subtrees (insertAt place s.nested (without s.id F)) := by
    rw [insertAt, ← hp]
    exact mem_subtrees_modifyAt hn hu
  have hk' : u.Takes place.index s.nested.kind := by rwa [Tree.nested_eq_retag, Tree.kind_retag]
  have hy := hx.detach hv hk'.mem_insertChild
  have hr' := hx.disconnect_child hv hk'.mem_insertChild
  rw [without_insertAt hd, hid, Tree.nested_eq_retag, Tree.retag_retag,
    (h.legal s hs).retag_eq] at hy
  rw [hid] at hr'
  exact ⟨_, hr', (h.moveLast hs).identical hy rfl⟩

theorem insertTree_delete_tree (h : Represents w F) (ht : t ∈ F) :
    ∃ x y, (delete t.id).run w = (.ok t, x) ∧
      (insertTree t none).run x = (.ok t.id, y) ∧ (w.moveLast t.id).Identical y := by
  obtain ⟨x, hd, hx⟩ := h.delete_node (tree_mem_subtrees ht)
  have hn := nodup_without_tree h.nodup ht
  have ha : x.Admits t := hx.admits_of_legal (h.legal t ht) hn.of_append_left
    fun _ hi => List.disjoint_of_nodup_append hn hi
  have hr := run_insertTree ha
  have hy := hx.place ha
  rw [(h.legal t ht).settle_eq] at hy
  exact ⟨x, _, hd, hr,
    (h.moveLast ht).identical hy (h.issued_insertTree_delete (tree_mem_subtrees ht) hd hr)⟩

end Represents

namespace Workspace

/-- Whatever calls led to a workspace, what takes a block away can be undone, exactly for children
and up to the order of the top level for its blocks. -/
theorem undoes_of_reachable {w : Workspace} (h : w.Reachable) : w.Undoes := by
  obtain ⟨F, hF⟩ := h.represents
  constructor
  case connect_disconnect =>
    intro p c b i hb hc
    obtain ⟨v, hv, rfl, u, hu, rfl⟩ := hF.exists_child hb hc
    exact hF.connect_disconnect hv hu
  case insertTree_delete =>
    intro p c b i hb hc
    obtain ⟨v, hv, rfl, u, hu, rfl⟩ := hF.exists_child hb hc
    exact ⟨u, hF.insertTree_delete hv hu⟩
  case disconnect_connect =>
    intro c place v hc hr
    obtain ⟨t, ht, rfl⟩ := hF.exists_topLevel hc
    exact hF.disconnect_connect ht hr
  case insertTree_delete_topLevel =>
    intro c hc
    obtain ⟨t, ht, rfl⟩ := hF.exists_topLevel hc
    exact ⟨t, hF.insertTree_delete_tree ht⟩

/-- A sequence before a rest, each taken out and put back, a block that goes between them for a
while, and the sequence above them, which comes back behind that block. -/
theorem undoes_besideRest :
    let w := movedSequence.after (.addBlock (.leaf (.string "AHU" "unit")) none ["d"])
    w.Reachable ∧
      (∃ v x, (disconnect "b").run w = (.ok (), v) ∧
        (connect "b" ⟨"a", some 0⟩).run v = (.ok (), x) ∧ w.Identical x) ∧
      (∃ t v x, (delete "c").run w = (.ok t, v) ∧
        (insertTree t (some ⟨"a", some 1⟩)).run v = (.ok "c", x) ∧ w.Identical x) ∧
      (∃ x, (disconnect "d").run (w.after (.connect "d" ⟨"a", some 1⟩)) = (.ok (), x) ∧
        (w.moveLast "d").Identical x) ∧
      (∃ t v x, (delete "a").run w = (.ok t, v) ∧
        (insertTree t none).run v = (.ok "a", x) ∧ (w.moveLast "a").Identical x) ∧
      (w.moveLast "a").topLevel = ["d", "a"] := by
  intro w
  have hw : w.Reachable := .call _ ReachableByValid.movedSequence.reachable
  have h := undoes_of_reachable hw
  have ha : w.find? "a" =
      some ⟨"a", .default .sequence true, none, .group .sequence ["b", "c"]⟩ := by decide
  have hd : (connect "d" ⟨"a", some 1⟩).run w =
      (.ok (), w.after (.connect "d" ⟨"a", some 1⟩)) := rfl
  exact ⟨hw, h.connect_disconnect ha rfl, h.insertTree_delete ha rfl,
    h.disconnect_connect (by decide) hd, h.insertTree_delete_topLevel (by decide), by decide⟩

end Workspace

end LabelGrammar
