import LabelGrammar.Proofs.Forest.Edit

/-! # Legal trees

Every flavor denotes the kind of its node, sequences have the flavor of their position, and no
rest is followed by a sibling. Every edit of a forest that is not refused keeps trees legal.
-/

namespace LabelGrammar

namespace Tree

/-- A node suits its position. -/
structure Fits (atRoot : Bool) (t : Tree Flavor) : Prop where
  denotes : t.flavor.denotes t.kind = true
  sequence : t.kind = .sequence → t.flavor = .default .sequence atRoot
  restLast : restBeforeEnd (t.children.map kind) = false

inductive Legal : Bool → Tree Flavor → Prop where
  | intro {atRoot : Bool} {t : Tree Flavor} : t.Fits atRoot →
      (∀ c ∈ t.children, Legal false c) → Legal atRoot t

variable {atRoot : Bool} {t u : Tree Flavor}

theorem Legal.fits (h : t.Legal atRoot) : t.Fits atRoot := by cases h; assumption

theorem Legal.child {c : Tree Flavor} (h : t.Legal atRoot) (hc : c ∈ t.children) :
    c.Legal false := by
  cases h with | intro _ h => exact h c hc

theorem Legal.subtree (h : t.Legal atRoot) (hu : u ∈ t.subtrees) : ∃ b, u.Legal b := by
  induction t using children_induction generalizing atRoot with
  | step t ih =>
    rcases mem_subtrees.1 hu with rfl | ⟨c, hc, hu⟩
    · exact ⟨_, h⟩
    · exact ih c hc (h.child hc) hu

theorem Legal.retag_eq (h : t.Legal atRoot) : t.retag atRoot = t := by
  refine ext_children (by simp) ?_ (by simp) (by simp)
  rw [flavor_retag]
  split
  · next hk => exact (h.fits.sequence hk).symm
  · rfl

theorem Fits.retag (h : t.Fits atRoot) (b : Bool) : (t.retag b).Fits b where
  denotes := by
    rw [flavor_retag, kind_retag]
    split
    · next hk => rw [hk]; exact Flavor.denotes_default _ _
    · exact h.denotes
  sequence hk := by
    rw [kind_retag] at hk
    rw [flavor_retag, if_pos hk]
  restLast := by simpa using h.restLast

theorem Legal.retag (h : t.Legal atRoot) (b : Bool) : (t.retag b).Legal b :=
  .intro (h.fits.retag b) fun c hc => h.child (by simpa using hc)

theorem Legal.settle_eq (h : t.Legal atRoot) : t.settle atRoot = t := by
  induction t using children_induction generalizing atRoot with
  | step t ih =>
    have hc : t.children.map (settle false) = t.children :=
      (List.map_congr_left fun c hc => ih c hc (h.child hc)).trans (List.map_id _)
    rw [Tree.settle_eq, hc, withChildren_children, h.retag_eq]

/-- Flavors by position make a tree legal that is so but for the flavors of its sequences. -/
theorem legal_settle (hd : ∀ u ∈ t.subtrees, u.flavor.denotes u.kind = true)
    (hr : ∀ u ∈ t.subtrees, restBeforeEnd (u.children.map kind) = false) (atRoot : Bool) :
    (t.settle atRoot).Legal atRoot := by
  induction t using children_induction generalizing atRoot with
  | step t ih =>
    rw [Tree.settle_eq]
    have hk : (t.children.map (settle false)).map kind = t.children.map kind := by
      simp [Function.comp_def]
    have hf : ((t.withChildren (t.children.map (settle false))).retag atRoot).Fits atRoot := by
      constructor
      case denotes =>
        rw [flavor_retag, kind_retag]
        split
        · next hs => rw [hs]; exact Flavor.denotes_default _ _
        · simpa using hd t t.self_mem_subtrees
      case sequence => intro hs; rw [flavor_retag, if_pos (by simpa using hs)]
      case restLast =>
        rw [children_retag, children_withChildren_map, hk]
        exact hr t t.self_mem_subtrees
    refine .intro hf fun c hc => ?_
    rw [children_retag, children_withChildren_map] at hc
    obtain ⟨d, hd', rfl⟩ := List.mem_map.1 hc
    exact ih d hd' (fun u hu => hd u (mem_subtrees_of_child hd' hu))
      (fun u hu => hr u (mem_subtrees_of_child hd' hu)) false

theorem Legal.modifyAt {id : NodeId} {f : Tree Flavor → Tree Flavor} (h : t.Legal atRoot)
    (hk : ∀ u ∈ t.subtrees, u.id = id → (f u).kind = u.kind)
    (hf : ∀ u ∈ t.subtrees, u.id = id → ∀ b, u.Legal b → (f u).Legal b) :
    (t.modifyAt id f).Legal atRoot := by
  induction t using children_induction generalizing atRoot with
  | step t ih =>
    rw [modifyAt_eq]
    split
    · next he => exact hf t t.self_mem_subtrees he _ h
    · have hks : (t.children.map (Tree.modifyAt id f)).map kind = t.children.map kind := by
        rw [List.map_map]
        exact List.map_congr_left fun c hc =>
          kind_modifyAt (hk c (mem_subtrees_of_child hc c.self_mem_subtrees))
      have hfits : (t.withChildren (t.children.map (Tree.modifyAt id f))).Fits atRoot := by
        constructor
        case denotes => simpa using h.fits.denotes
        case sequence => simpa using h.fits.sequence
        case restLast => rw [children_withChildren_map, hks]; exact h.fits.restLast
      refine .intro hfits fun c hc => ?_
      rw [children_withChildren_map] at hc
      obtain ⟨d, hd, rfl⟩ := List.mem_map.1 hc
      exact ih d hd (h.child hd) (fun u hu => hk u (mem_subtrees_of_child hd hu))
        fun u hu => hf u (mem_subtrees_of_child hd hu)

theorem Legal.insertChild {new : Tree Flavor} {index : Option Nat} (h : t.Legal atRoot)
    (hn : new.Legal false) (hi : index.getD t.children.length ≤ t.children.length)
    (hr : restBeforeEnd ((t.children.map kind).insertIdx
      (index.getD t.children.length) new.kind) = false) :
    (Tree.insertChild index new t).Legal atRoot := by
  unfold Tree.insertChild
  cases hk : t.kind.isContainer with
  | false =>
    rw [show t.withChildren _ = t by cases t with
      | leaf => rfl
      | group _ _ shape _ => cases shape <;> cases hk]
    exact h
  | true =>
    have hc := children_withChildren (t.children.insertIdx (index.getD t.children.length) new) hk
    refine .intro ⟨by simpa using h.fits.denotes, by simpa using h.fits.sequence, ?_⟩ ?_
    · rw [hc, List.map_insertIdx]; exact hr
    · intro c hm
      rw [hc, List.mem_insertIdx hi] at hm
      rcases hm with rfl | hm
      · exact hn
      · exact h.child hm

theorem restBeforeEnd_sublist {ks ks' : List Kind} (hs : ks'.Sublist ks)
    (h : restBeforeEnd ks = false) : restBeforeEnd ks' = false := by
  rw [restBeforeEnd, List.contains_eq_mem, decide_eq_false_iff_not] at h ⊢
  have hd : ks'.dropLast.Sublist ks.dropLast := by simpa using hs.reverse.tail.reverse
  exact fun hm => h (hd.subset hm)

theorem Legal.dropChild (h : t.Legal atRoot) (id : NodeId) :
    (Tree.dropChild id t).Legal atRoot := by
  unfold Tree.dropChild
  refine .intro ⟨by simpa using h.fits.denotes, by simpa using h.fits.sequence, ?_⟩ ?_
  · rw [children_withChildren_filter]
    exact restBeforeEnd_sublist (List.filter_sublist.map kind) h.fits.restLast
  · intro c hc
    rw [children_withChildren_filter] at hc
    exact h.child (List.mem_of_mem_filter hc)

end Tree

namespace Forest

/-- Every tree of a forest is legal at the top level. -/
def Legal (F : Forest) : Prop := ∀ t ∈ F, t.Legal true

variable {F : Forest} {t u : Tree Flavor}

theorem Legal.subtree (h : Legal F) (hu : u ∈ subtrees F) : ∃ b, u.Legal b := by
  obtain ⟨t, ht, hu⟩ := mem_subtrees.1 hu
  exact (h t ht).subtree hu

theorem Legal.append (h : Legal F) (ht : t.Legal true) : Legal (F ++ [t]) := by
  intro u hu
  rcases List.mem_append.1 hu with hu | hu
  · exact h u hu
  · rw [List.mem_singleton.1 hu]; exact ht

theorem Legal.modifyAt {id : NodeId} {f : Tree Flavor → Tree Flavor} (h : Legal F)
    (hk : ∀ u ∈ subtrees F, u.id = id → (f u).kind = u.kind)
    (hf : ∀ u ∈ subtrees F, u.id = id → ∀ b, u.Legal b → (f u).Legal b) :
    Legal (modifyAt id f F) := by
  intro t ht
  obtain ⟨v, hv, rfl⟩ := List.mem_map.1 ht
  exact (h v hv).modifyAt (fun u hu => hk u (mem_subtrees.2 ⟨v, hv, hu⟩))
    fun u hu => hf u (mem_subtrees.2 ⟨v, hv, hu⟩)

end Forest

end LabelGrammar
