import LabelGrammar.Proofs.Workspace.Simulation

/-! # Admitting trees

The check of a tree stops at its first problem, so a tree passes it if every node passes. A tree
that is admitted can be placed, and the check before an attachment answers for the attachment.
-/

namespace LabelGrammar

open Forest

namespace Workspace

variable {w : Workspace} {t : Tree Flavor} {seen seen' : List NodeId} {e : WorkspaceError}

theorem walk_visitNode_error (t : Tree Flavor) (depth : Nat) :
    t.walk w.visitNode depth (.error e) = .error e := by
  rw [Tree.walk_eq]; rfl

/-- The outcome of a visit to a tree is that of a check of its nodes in pre-order. -/
theorem walk_visitNode (t : Tree Flavor) (depth : Nat) (seen : List NodeId) :
    t.walk w.visitNode depth (.ok seen) = t.subtrees.foldlM w.checkNode seen := by
  induction t using Tree.children_induction generalizing depth seen with
  | step t ih =>
    have hall : ∀ ts ⊆ t.children, ∀ outcome : Except WorkspaceError (List NodeId),
        ts.foldl (fun o c => Tree.walk w.visitNode (depth + 1) c o) outcome =
          outcome.bind fun seen => (ts.flatMap Tree.subtrees).foldlM w.checkNode seen := by
      intro ts hts outcome
      induction ts generalizing outcome with
      | nil => cases outcome <;> rfl
      | cons c ts ihs =>
        rw [List.cons_subset] at hts
        rw [List.foldl_cons, ihs hts.2]
        cases outcome with
        | error e => rw [walk_visitNode_error]; rfl
        | ok seen =>
          rw [ih c hts.1, List.flatMap_cons]
          simp only [Except.bind, List.foldlM_append]
          rfl
    rw [Tree.walk_eq, Tree.subtrees_eq, List.foldlM_cons, visitNode]
    cases hn : w.checkNode seen t with
    | error e => rfl
    | ok seen => exact hall t.children (List.Subset.refl _) (.ok seen)

structure Accepts (w : Workspace) (seen : List NodeId) (t : Tree Flavor) : Prop where
  fresh : w.contains t.id = false
  unseen : t.id ∉ seen
  denotes : t.flavor.denotes t.kind = true
  restLast : restBeforeEnd (t.children.map Tree.kind) = false

theorem checkNode_eq_ok_iff :
    w.checkNode seen t = .ok seen' ↔ w.Accepts seen t ∧ seen' = t.id :: seen := by
  have hx : w.Accepts seen t ↔ (w.contains t.id = false ∧ t.id ∉ seen) ∧
      t.flavor.denotes t.kind = true ∧ restBeforeEnd (t.children.map Tree.kind) = false :=
    ⟨fun h => ⟨⟨h.fresh, h.unseen⟩, h.denotes, h.restLast⟩, fun h => ⟨h.1.1, h.1.2, h.2.1, h.2.2⟩⟩
  rw [hx]
  unfold checkNode checkFlavor checkRestLast
  by_cases hi : w.contains t.id = true ∨ t.id ∈ seen
  · have hn : ¬ (w.contains t.id = false ∧ t.id ∉ seen) := by
      rcases hi with hi | hi <;> simp [hi]
    simp [hi, hn, bind, Except.bind, throw, throwThe, MonadExceptOf.throw]
  · rw [not_or, Bool.not_eq_true] at hi
    by_cases hd : t.flavor.denotes t.kind = true
    · cases restBeforeEnd (t.children.map Tree.kind) <;>
        simp [hi, hd, bind, Except.bind, Except.mapError, pure, Except.pure, eq_comm]
    · simp [hi, hd, bind, Except.bind, Except.mapError]

theorem foldlM_checkNode_cons (ts : List (Tree Flavor)) (seen : List NodeId) :
    (∃ seen', (t :: ts).foldlM w.checkNode seen = .ok seen') ↔
      w.Accepts seen t ∧ ∃ seen', ts.foldlM w.checkNode (t.id :: seen) = .ok seen' := by
  rw [List.foldlM_cons]
  cases hc : w.checkNode seen t with
  | error e =>
    have hn : ¬ w.Accepts seen t := fun h => by
      rw [checkNode_eq_ok_iff.2 ⟨h, rfl⟩] at hc
      cases hc
    simp [hn, bind, Except.bind]
  | ok s =>
    obtain ⟨ha, rfl⟩ := checkNode_eq_ok_iff.1 hc
    simp [ha, bind, Except.bind]

theorem foldlM_checkNode (ts : List (Tree Flavor)) (seen : List NodeId) :
    (∃ seen', ts.foldlM w.checkNode seen = .ok seen') ↔
      (∀ t ∈ ts, w.Accepts seen t) ∧ (ts.map Tree.id).Nodup := by
  induction ts generalizing seen with
  | nil => simp [pure, Except.pure]
  | cons t ts ih =>
    rw [foldlM_checkNode_cons, ih, List.forall_mem_cons, List.map_cons, List.nodup_cons, and_assoc]
    refine and_congr_right fun _ => ?_
    constructor
    · rintro ⟨ha, hn⟩
      refine ⟨fun u hu => ?_, fun hm => ?_, hn⟩
      · exact { ha u hu with unseen := fun hm => (ha u hu).unseen (List.mem_cons_of_mem _ hm) }
      · obtain ⟨u, hu, he⟩ := List.mem_map.1 hm
        exact (ha u hu).unseen (he ▸ List.mem_cons_self)
    · rintro ⟨ha, hm, hn⟩
      refine ⟨fun u hu => { ha u hu with unseen := fun hs => ?_ }, hn⟩
      rcases List.mem_cons.1 hs with he | hs
      · exact hm (he ▸ List.mem_map_of_mem hu)
      · exact (ha u hu).unseen hs

/-- A tree can join a workspace. -/
structure Admits (w : Workspace) (t : Tree Flavor) : Prop where
  nodup : t.ids.Nodup
  fresh : ∀ id ∈ t.ids, w.contains id = false
  denotes : ∀ u ∈ t.subtrees, u.flavor.denotes u.kind = true
  restLast : ∀ u ∈ t.subtrees, restBeforeEnd (u.children.map Tree.kind) = false

theorem checkTree_eq_ok_iff : w.checkTree t = .ok () ↔ w.Admits t := by
  have hs : w.checkTree t = .ok () ↔ ∃ seen, t.subtrees.foldlM w.checkNode [] = .ok seen := by
    rw [checkTree, walk_visitNode]
    cases t.subtrees.foldlM w.checkNode [] <;> simp [Except.map]
  rw [hs, foldlM_checkNode]
  constructor
  · rintro ⟨ha, hn⟩
    refine ⟨hn, fun id hi => ?_, fun u hu => (ha u hu).denotes, fun u hu => (ha u hu).restLast⟩
    obtain ⟨u, hu, rfl⟩ := Tree.mem_ids.1 hi
    exact (ha u hu).fresh
  · intro h
    refine ⟨fun u hu => ⟨h.fresh u.id (Tree.mem_ids.2 ⟨u, hu, rfl⟩), List.not_mem_nil, ?_, ?_⟩,
      h.nodup⟩
    · exact h.denotes u hu
    · exact h.restLast u hu

theorem run_insertTree (h : w.Admits t) : (insertTree t none).run w = (.ok t.id, w.place t) := by
  have hc := checkTree_eq_ok_iff.2 h
  simp only [insertTree, Action.run_bind, Action.run_check, Action.run_modify, Action.run_pure, hc]

theorem run_insertTree_of_not (h : ¬ w.Admits t) :
    ∃ e, (insertTree t none).run w = (.error e, w) := by
  cases hc : w.checkTree t with
  | error e =>
    refine ⟨e, ?_⟩
    simp only [insertTree, Action.run_bind, Action.run_check, hc]
  | ok _ => exact (h (checkTree_eq_ok_iff.1 hc)).elim

theorem ofTree_of_admits (h : empty.Admits t) : ofTree t = .ok (empty.place t) := by
  rw [ofTree, run_insertTree h]

theorem admits_of_ofTree (h : ofTree t = .ok w) : empty.Admits t := by
  by_contra hn
  obtain ⟨e, hr⟩ := run_insertTree_of_not hn
  rw [ofTree, hr] at h
  cases h

theorem Admits.legal (h : w.Admits t) (atRoot : Bool) : (t.settle atRoot).Legal atRoot :=
  Tree.legal_settle h.denotes h.restLast atRoot

end Workspace

namespace Represents

variable {w : Workspace} {F : Forest} {t u : Tree Flavor}

theorem not_mem_of_admits (h : Represents w F) (ha : w.Admits t) : ∀ id ∈ t.ids, id ∉ ids F := by
  intro id hi hm
  have hf := ha.fresh id hi
  rw [h.contains_iff.2 hm] at hf
  cases hf

theorem admits_of_legal (h : Represents w F) {atRoot : Bool} (hl : t.Legal atRoot)
    (hn : t.ids.Nodup) (hd : ∀ id ∈ t.ids, id ∉ ids F) : w.Admits t where
  nodup := hn
  fresh id hi := Bool.eq_false_iff.2 fun hc => hd id hi (h.contains_iff.1 hc)
  denotes u hu := by
    obtain ⟨_, hl⟩ := hl.subtree hu
    exact hl.fits.denotes
  restLast u hu := by
    obtain ⟨_, hl⟩ := hl.subtree hu
    exact hl.fits.restLast

theorem place (h : Represents w F) (ha : w.Admits t) :
    Represents (w.place t) (F ++ [t.settle true]) :=
  h.append ha.nodup (h.not_mem_of_admits ha) (ha.legal true) rfl rfl (w.issues_retire t.ids).issued
    fun _ hi => mem_retire hi

end Represents

end LabelGrammar
