import LabelGrammar.Proofs.Workspace.Blocks

/-! # Edits of a workspace as edits of its forest

What each change that an accepted operation makes to a workspace does to the forest that it
represents.
-/

namespace LabelGrammar

open Forest Block

namespace Workspace

theorem size_modifyBlock (w : Workspace) (id : NodeId) (f : Block → Block) :
    (w.modifyBlock id f).size = w.size := List.length_map _

theorem find?_modifyBlock (w : Workspace) (id : NodeId) {f : Block → Block}
    (hf : ∀ b, (f b).id = b.id) (i : NodeId) :
    (w.modifyBlock id f).find? i = (w.find? i).map (onId id f) := by
  have hp : (fun b : Block => b.id == i) ∘ onId id f = fun b => b.id == i := by
    ext b
    simp [id_onId hf]
  change (w.blocks.map (onId id f)).find? (·.id == i) = _
  rw [List.find?_map, hp]
  rfl

/-- The second workspace has the same blocks; further ids may have been issued. -/
structure Issues (w v : Workspace) : Prop where
  topLevel : v.topLevel = w.topLevel
  blocks : v.blocks = w.blocks
  issued : w.issued ⊆ v.issued

theorem Issues.refl (w : Workspace) : w.Issues w := ⟨rfl, rfl, List.Subset.refl _⟩

theorem Issues.trans {w v x : Workspace} (h : w.Issues v) (h' : v.Issues x) : w.Issues x :=
  ⟨h'.topLevel.trans h.topLevel, h'.blocks.trans h.blocks, List.Subset.trans h.issued h'.issued⟩

theorem issues_retire (w : Workspace) (ids : List NodeId) : w.Issues (w.retire ids) :=
  ⟨rfl, rfl, List.subset_append_left _ _⟩

end Workspace

namespace Represents

variable {w : Workspace} {F : Forest} {t u v : Tree Flavor}

theorem empty : Represents .empty [] where
  topLevel := rfl
  blocks := .refl _
  unique := List.nodup_nil
  issued _ h := by cases h
  legal _ h := by cases h

theorem of_issues {x : Workspace} (h : Represents w F) (hx : w.Issues x) : Represents x F where
  topLevel := hx.topLevel.trans h.topLevel
  blocks := hx.blocks ▸ h.blocks
  unique := hx.blocks ▸ h.unique
  issued b hm := hx.issued (h.issued b (hx.blocks ▸ hm))
  legal := h.legal

theorem mem_retire {ids : List NodeId} {id : NodeId} (h : id ∈ ids) :
    id ∈ (w.retire ids).issued := by
  rw [Workspace.retire, List.mem_append, List.mem_filter, decide_eq_true_eq]
  by_cases hi : id ∈ w.issued
  · exact .inl hi
  · exact .inr ⟨h, hi⟩

theorem retire (h : Represents w F) (ids : List NodeId) : Represents (w.retire ids) F :=
  h.of_issues (w.issues_retire ids)

theorem clear (w : Workspace) : Represents w.clear [] where
  topLevel := rfl
  blocks := .refl _
  unique := List.nodup_nil
  issued _ h := by cases h
  legal _ h := by cases h

theorem append {x : Workspace} (h : Represents w F) (hn : t.ids.Nodup)
    (hd : ∀ id ∈ t.ids, id ∉ ids F) (hl : (t.settle true).Legal true)
    (ht : x.topLevel = w.topLevel ++ [t.id]) (hb : x.blocks = w.blocks ++ t.toBlocks none)
    (hi : w.issued ⊆ x.issued) (hi' : t.ids ⊆ x.issued) :
    Represents x (F ++ [t.settle true]) where
  topLevel := by rw [ht, h.topLevel]; simp
  blocks := by
    rw [hb, Forest.blocks, List.flatMap_append, List.flatMap_singleton]
    rw [show (t.settle true).toBlocks none = t.toBlocks none from Tree.toBlocks_settle none t]
    exact h.blocks.append_right _
  unique := by
    rw [hb, List.map_append, Tree.map_id_toBlocks]
    refine h.unique.append hn fun id hw hm => hd id hm ?_
    rw [← map_id_blocks]
    exact ((h.blocks.map Block.id).mem_iff).1 hw
  issued b hm := by
    rw [hb, List.mem_append] at hm
    rcases hm with hm | hm
    · exact hi (h.issued b hm)
    · exact hi' (Tree.map_id_toBlocks none t ▸ List.mem_map_of_mem hm)
  legal := h.legal.append hl

theorem of_map_id_eq {x : Workspace} {G : Forest} (h : Represents w F)
    (hm : x.blocks.map Block.id = w.blocks.map Block.id) (hi : x.issued = w.issued)
    (ht : x.topLevel = G.map Tree.id) (hb : x.blocks.Perm (Forest.blocks G)) (hl : Legal G) :
    Represents x G where
  topLevel := ht
  blocks := hb
  unique := hm ▸ h.unique
  issued b hx := by
    have hx' : b.id ∈ w.blocks.map Block.id := hm ▸ List.mem_map_of_mem hx
    obtain ⟨c, hc, he⟩ := List.mem_map.1 hx'
    rw [hi, ← he]
    exact h.issued c hc
  legal := hl

theorem map_id_modifyAt {p : NodeId} {f : Tree Flavor → Tree Flavor} (hf : ∀ u, (f u).id = u.id)
    (F : Forest) : (modifyAt p f F).map Tree.id = F.map Tree.id := by
  rw [modifyAt, List.map_map]
  exact List.map_congr_left fun t _ => Tree.id_modifyAt hf t

theorem mem_subtrees_without (hn : (ids F).Nodup) (ht : t ∈ F) (hu : u ∈ subtrees F)
    (hnot : u.id ∉ t.ids) : u ∈ subtrees (without t.id F) := by
  obtain ⟨x, hx, hu⟩ := Forest.mem_subtrees.1 hu
  rw [without_tree hn ht]
  refine Forest.mem_subtrees.2 ⟨x, List.mem_filter.2 ⟨hx, decide_eq_true fun he => hnot ?_⟩, hu⟩
  rw [eq_of_mem_ids hn ht hx t.id_mem_ids (he ▸ x.id_mem_ids)]
  exact Tree.mem_ids.2 ⟨u, hu, rfl⟩

/-- A tree becomes a child of a node of another tree. -/
theorem attach (h : Represents w F) (ht : t ∈ F) (hu : u ∈ subtrees F) (hnot : u.id ∉ t.ids)
    {index : Option Nat} (hk : u.Takes index t.kind) :
    Represents (w.attach t.id ⟨u.id, index⟩)
      (insertAt ⟨u.id, index⟩ t.nested (without t.id F)) := by
  have hn := nodup_without_tree h.nodup ht
  have hw := without_tree h.nodup ht
  have hu' := mem_subtrees_without h.nodup ht hu hnot
  have hb := h.blocks.trans (perm_without_tree h.nodup ht).symm
  refine h.of_map_id_eq ?_ rfl ?_ (perm_attach hb hn hu' hk) ?_
  · exact (map_id_map_onId (id_reparent _) _).trans (map_id_map_onId (id_withChildren _) _)
  · rw [insertAt, map_id_modifyAt (fun v => Tree.id_insertChild _ _ v), hw]
    change w.topLevel.filter (· ≠ t.id) = _
    rw [h.topLevel, List.filter_map]
    rfl
  · have hl : Legal (without t.id F) := fun x hx => h.legal x (List.mem_of_mem_filter (hw ▸ hx))
    have hln : t.nested.Legal false := (h.legal t ht).retag false
    have hkn : t.nested.kind = t.kind := Tree.kind_retag false t
    refine hl.modifyAt (fun v _ _ => Tree.kind_insertChild _ _ v) fun v hv he b hlv => ?_
    obtain rfl := eq_of_id_eq hn.of_append_right hv hu' he
    exact hlv.insertChild hln hk.inRange (hkn ▸ hk.restLast)

theorem legal_without (h : Represents w F) (hv : v ∈ subtrees F) (hu : u ∈ v.children) :
    Legal (without u.id F) := by
  rw [without_eq_modifyAt h.nodup hv hu]
  exact h.legal.modifyAt (fun x _ _ => Tree.kind_dropChild _ x) fun x _ _ b hx => hx.dropChild u.id

theorem detach (h : Represents w F) (hv : v ∈ subtrees F) (hu : u ∈ v.children) :
    Represents (w.detach u.id v.id) (without u.id F ++ [u.retag true]) := by
  obtain ⟨b, hl⟩ := h.legal.subtree (child_mem_subtrees hv hu)
  refine h.of_map_id_eq ?_ rfl ?_ (perm_detach h.blocks h.nodup hv hu) ?_
  · exact (map_id_map_onId (id_reparent _) _).trans (map_id_map_onId (id_withChildren _) _)
  · change w.topLevel ++ [u.id] = _
    rw [without_eq_modifyAt h.nodup hv hu, List.map_append,
      map_id_modifyAt (fun x => Tree.id_dropChild _ x), h.topLevel]
    simp
  · exact (h.legal_without hv hu).append (hl.retag true)

theorem setRule {id : NodeId} {flavor : Flavor} {l l' : Leaf} (h : Represents w F)
    (hu : .leaf id flavor l ∈ subtrees F) (hk : l'.kind = l.kind) :
    Represents (w.modifyBlock id (withBody (.leaf l'))) (setRule id (.leaf l') F) := by
  have hp : (Forest.blocks (Forest.setRule id (.leaf l') F)).Perm
      ((Forest.blocks F).map (onId id (withBody (.leaf l')))) := by
    refine perm_blocks_modifyAt (A := []) (B := []) (Tree.id_withRule _) h.nodup hu fun q => ?_
    simp [Tree.toBlocks, Tree.withRule, onId, Tree.id, withBody]
  refine h.of_map_id_eq (map_id_map_onId (id_withBody _) _) rfl ?_
    ((h.blocks.map _).trans hp.symm) ?_
  · rw [Forest.setRule, map_id_modifyAt (Tree.id_withRule _)]
    exact h.topLevel
  · have hk' : (Tree.leaf id flavor l').kind = (Tree.leaf id flavor l).kind := hk
    refine h.legal.modifyAt (fun v hv he => ?_) fun v hv he b hl => ?_
    · obtain rfl : v = .leaf id flavor l := eq_of_id_eq h.nodup hv hu he
      exact hk
    · obtain rfl : v = .leaf id flavor l := eq_of_id_eq h.nodup hv hu he
      refine .intro ⟨?_, fun hs => hl.fits.sequence (hk' ▸ hs), rfl⟩ (fun c hc => by cases hc)
      change flavor.denotes (Tree.leaf id flavor l').kind = true
      rw [hk']
      exact hl.fits.denotes

@[simp] theorem topLevel_removeAll (w : Workspace) (n : Nat) (stack : List NodeId) :
    (w.removeAll n stack).topLevel = w.topLevel := by
  induction n generalizing w stack with
  | zero => rfl
  | succ n ih =>
    cases stack with
    | nil => rfl
    | cons id stack =>
      rw [Workspace.removeAll]
      split <;> simp [ih]

@[simp] theorem issued_removeAll (w : Workspace) (n : Nat) (stack : List NodeId) :
    (w.removeAll n stack).issued = w.issued := by
  induction n generalizing w stack with
  | zero => rfl
  | succ n ih =>
    cases stack with
    | nil => rfl
    | cons id stack =>
      rw [Workspace.removeAll]
      split <;> simp [ih]

/-- The stack holds the roots of what is still to be removed. -/
theorem perm_removeAll {n : Nat} {ts : List (Option NodeId × Tree Flavor)} {R : List Block}
    (hu : (w.blocks.map Block.id).Nodup)
    (hb : w.blocks.Perm (ts.flatMap (fun x => x.2.toBlocks x.1) ++ R))
    (hn : Tree.sizeAll (ts.map (·.2)) ≤ n) :
    (w.removeAll n (ts.map (·.2.id))).blocks.Perm R := by
  induction n generalizing w ts with
  | zero =>
    cases ts with
    | nil => simpa [Workspace.removeAll] using hb
    | cons x ts => rw [List.map_cons, Tree.sizeAll, Tree.size_eq] at hn; omega
  | succ n ih =>
    cases ts with
    | nil => simpa [Workspace.removeAll] using hb
    | cons x ts =>
      -- The children of the removed root take its place on the stack.
      obtain ⟨q, t⟩ := x
      rw [List.flatMap_cons, Tree.toBlocks_eq, List.cons_append, List.cons_append] at hb
      have hf : w.find? t.id = some (t.block q) := by
        have hm := Workspace.find?_of_mem hu (hb.mem_iff.2 List.mem_cons_self)
        rwa [Tree.id_block] at hm
      have hs : t.children.map Tree.id ++ ts.map (·.2.id) =
          (t.children.map (fun c => (some t.id, c)) ++ ts).map (·.2.id) := by
        simp [Function.comp_def]
      rw [List.map_cons, Workspace.removeAll, hf]
      change (Workspace.removeAll _ n ((t.block q).children ++ ts.map (·.2.id))).blocks.Perm R
      rw [Tree.children_block, hs]
      refine ih (hu.sublist (List.filter_sublist.map _)) ?_ ?_
      · have hids := (hb.map Block.id).nodup_iff.1 hu
        rw [List.map_cons, Tree.id_block, List.nodup_cons] at hids
        refine (hb.filter (·.id ≠ t.id)).trans (.of_eq ?_)
        rw [List.filter_cons_of_neg (by simp), List.filter_eq_self.2]
        · simp [List.flatMap_append, List.flatMap_map]
        · exact fun b hm => decide_eq_true fun he => hids.1 (List.mem_map.2 ⟨b, hm, he⟩)
      · have hm : (t.children.map fun c => (some t.id, c)).map (·.2) = t.children := by
          simp [Function.comp_def]
        rw [List.map_cons, Tree.sizeAll, Tree.size_eq] at hn
        change 1 + Tree.sizeAll t.children + _ ≤ n + 1 at hn
        rw [List.map_append, hm, Tree.sizeAll_append]
        omega

/-- Removing a tree that stands apart leaves the rest. -/
theorem removeAll {x : Workspace} {q : Option NodeId} {n : Nat}
    (hu : (x.blocks.map Block.id).Nodup) (hi : ∀ b ∈ x.blocks, b.id ∈ x.issued)
    (ht : x.topLevel = F.map Tree.id) (hb : x.blocks.Perm (t.toBlocks q ++ Forest.blocks F))
    (hl : Legal F) (hn : t.size ≤ n) : Represents (x.removeAll n [t.id]) F := by
  have hb' : x.blocks.Perm ([(q, t)].flatMap (fun y => y.2.toBlocks y.1) ++ Forest.blocks F) := by
    simpa using hb
  have hp : (x.removeAll n [t.id]).blocks.Perm (Forest.blocks F) :=
    perm_removeAll hu hb' hn
  have hd := (hb.map Block.id).nodup_iff.1 hu
  rw [List.map_append] at hd
  refine ⟨by simpa using ht, hp, (hp.map Block.id).nodup_iff.2 hd.of_append_right, ?_, hl⟩
  intro b hm
  rw [issued_removeAll]
  exact hi b (hb.mem_iff.2 (List.mem_append_right _ (hp.mem_iff.1 hm)))

theorem remove_tree (h : Represents w F) (ht : t ∈ F) {n : Nat} (hn : t.size ≤ n) :
    Represents (Workspace.removeAll { w with topLevel := w.topLevel.filter (· ≠ t.id) } n [t.id])
      (without t.id F) := by
  have hw := without_tree h.nodup ht
  refine removeAll h.unique h.issued ?_ (h.blocks.trans (perm_without_tree h.nodup ht).symm) ?_ hn
  · change w.topLevel.filter (· ≠ t.id) = _
    rw [hw, h.topLevel, List.filter_map]
    rfl
  · exact fun x hx => h.legal x (List.mem_of_mem_filter (hw ▸ hx))

theorem remove_child (h : Represents w F) (hv : v ∈ subtrees F) (hu : u ∈ v.children) {n : Nat}
    (hn : u.size ≤ n) : Represents ((w.modifyBlock v.id
      (withChildren (·.filter (· ≠ u.id)))).removeAll n [u.id]) (without u.id F) := by
  have hm : ((w.modifyBlock v.id (withChildren (·.filter (· ≠ u.id)))).blocks.map Block.id) =
      w.blocks.map Block.id := map_id_map_onId (id_withChildren _) _
  refine removeAll (hm ▸ h.unique) ?_ ?_
    ((h.blocks.map _).trans (perm_without_child h.nodup hv hu).symm) (h.legal_without hv hu) hn
  · intro b hb
    obtain ⟨c, hc, rfl⟩ := List.mem_map.1 hb
    rw [show (if c.id = v.id then _ else c).id = c.id from id_onId (id_withChildren _) c]
    exact h.issued c hc
  · rw [without_eq_modifyAt h.nodup hv hu, map_id_modifyAt (fun x => Tree.id_dropChild _ x)]
    exact h.topLevel

end Represents

end LabelGrammar
