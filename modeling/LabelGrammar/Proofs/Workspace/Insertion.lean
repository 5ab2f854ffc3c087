import LabelGrammar.Proofs.Workspace.Atomicity
import LabelGrammar.Proofs.Workspace.Moves

/-! # Which trees are inserted

A tree joins a workspace if its ids are new and distinct, its flavors denote kinds and no rest in it
is followed by a sibling. Its nodes are checked in pre-order, each against those before it, and a
place for its root only after them, so that a tree is refused for its first problem.
-/

namespace LabelGrammar

/-- Of several siblings only the last one is a rest. -/
def Orderly (kinds : List Kind) : Prop := ∀ i, kinds[i]? = some .rest → i + 1 = kinds.length

theorem Forest.Legal.orderly {F : Forest} {u : Tree Flavor} (h : Legal F) (hu : u ∈ subtrees F) :
    Orderly (u.children.map Tree.kind) := by
  obtain ⟨_, hl⟩ := h.subtree hu
  exact restBeforeEnd_eq_false_iff.1 hl.fits.restLast

namespace FirstOf

variable {ε : Type} {l r : List (Prop × ε)} {e : ε}

theorem append_iff :
    FirstOf (l ++ r) e ↔ FirstOf l e ∨ (∀ c ∈ l, ¬ c.1) ∧ FirstOf r e := by
  induction l with
  | nil => simp [FirstOf]
  | cons c l ih =>
    rw [List.cons_append, FirstOf, ih, FirstOf, List.forall_mem_cons]
    tauto

theorem not_of_forall (h : ∀ c ∈ l, ¬ c.1) : ¬ FirstOf l e := fun hf => by
  obtain ⟨c, hc, hp⟩ := hf.exists_mem
  exact h c hc hp

end FirstOf

/-- A computation gives a result if none of several conditions holds, and fails with the error of
the first one otherwise. -/
def Reports {ε α : Type} (x : Except ε α) (a : α) (conditions : List (Prop × ε)) : Prop :=
  x = .ok a ∧ (∀ c ∈ conditions, ¬ c.1) ∨ ∃ e, x = .error e ∧ FirstOf conditions e

namespace Reports

variable {ε α β : Type} {x : Except ε α} {a b : α} {l r : List (Prop × ε)} {e : ε}

theorem ok (a : α) : Reports (.ok a : Except ε α) a [] := .inl ⟨rfl, List.forall_mem_nil _⟩

theorem ok_iff (h : Reports x a l) : x = .ok b ↔ (∀ c ∈ l, ¬ c.1) ∧ b = a := by
  rcases h with ⟨rfl, hn⟩ | ⟨e, rfl, hf⟩
  · rw [Except.ok.injEq, eq_comm, and_iff_right hn]
  · exact iff_of_false nofun fun hn => FirstOf.not_of_forall hn.1 hf

theorem error_iff (h : Reports x a l) : x = .error e ↔ FirstOf l e := by
  rcases h with ⟨rfl, hn⟩ | ⟨e', rfl, hf⟩
  · exact iff_of_false nofun (FirstOf.not_of_forall hn)
  · rw [Except.error.injEq]
    constructor
    · rintro rfl
      exact hf
    · exact hf.unique

theorem bind {f : α → Except ε β} {b : β} (h : Reports x a l) (hf : Reports (f a) b r) :
    Reports (x.bind f) b (l ++ r) := by
  rw [Reports, List.forall_mem_append]
  simp only [FirstOf.append_iff]
  rcases h with ⟨rfl, hn⟩ | ⟨e, rfl, he⟩
  · rcases hf with ⟨hb, hr⟩ | ⟨e, hb, he⟩
    · exact .inl ⟨hb, hn, hr⟩
    · exact .inr ⟨e, hb, .inr ⟨hn, he⟩⟩
  · exact .inr ⟨e, rfl, .inl he⟩

theorem map (h : Reports x a l) (f : α → β) : Reports (x.map f) (f a) l := by
  rcases h with ⟨rfl, hn⟩ | ⟨e, rfl, he⟩
  · exact .inl ⟨rfl, hn⟩
  · exact .inr ⟨e, rfl, he⟩

end Reports

namespace Workspace

/-- A tree can join a workspace, apart from any place for it. -/
structure Joins (w : Workspace) (t : Tree Flavor) : Prop where
  distinct : t.ids.Nodup
  fresh {id : NodeId} : id ∈ t.ids → w.find? id = none
  denotes {u : Tree Flavor} : u ∈ t.subtrees → u.flavor.denotes u.kind = true
  orderly {u : Tree Flavor} : u ∈ t.subtrees → Orderly (u.children.map Tree.kind)

def childKinds (w : Workspace) (p : Block) : List Kind :=
  p.children.filterMap fun id => (w.find? id).map Block.kind

/-- A place takes a new child of the given kind. -/
def HasRoom (w : Workspace) (place : Attachment) (kind : Kind) : Prop :=
  ∃ p, w.find? place.parent = some p ∧ (p.kind = .sequence ∨ p.kind = .choice) ∧
    (∀ i ∈ place.index, i ≤ p.children.length) ∧
    Orderly ((w.childKinds p).insertIdx (place.index.getD p.children.length) kind)

/-- What keeps a node of a tree from joining a workspace after the nodes before it, with the errors
in the order of their precedence. -/
def nodeObstacles (w : Workspace) (before : List (Tree Flavor)) (u : Tree Flavor) :
    List (Prop × WorkspaceError) :=
  [((∃ b, w.find? u.id = some b) ∨ ∃ v ∈ before, v.id = u.id, .duplicateId u.id),
    (u.flavor.denotes u.kind = false, .invalid (.flavorMismatch u.flavor u.kind)),
    (¬ Orderly (u.children.map Tree.kind), .restNotLast u.id)]

def nodesObstacles (w : Workspace) (before : List (Tree Flavor)) :
    List (Tree Flavor) → List (Prop × WorkspaceError)
  | [] => []
  | u :: us => w.nodeObstacles before u ++ nodesObstacles w (before ++ [u]) us

def treeObstacles (w : Workspace) (t : Tree Flavor) : List (Prop × WorkspaceError) :=
  w.nodesObstacles [] t.subtrees

/-- What keeps a place from taking a new child of the given kind. -/
def roomObstacles (w : Workspace) (place : Attachment) (kind : Kind) :
    List (Prop × WorkspaceError) :=
  match w.find? place.parent with
  | none => [(True, .unknownNode place.parent)]
  | some p =>
    [(p.kind ≠ .sequence ∧ p.kind ≠ .choice, .notAContainer place.parent p.kind),
      (∃ i ∈ place.index, p.children.length < i,
        .indexOutOfRange place.parent (place.index.getD p.children.length) p.children.length),
      (¬ Orderly ((w.childKinds p).insertIdx (place.index.getD p.children.length) kind),
        .restNotLast place.parent)]

/-- All that keeps a tree from being inserted. The place comes last. -/
def insertObstacles (w : Workspace) (t : Tree Flavor) (place : Option Attachment) :
    List (Prop × WorkspaceError) :=
  w.treeObstacles t ++ place.elim [] fun place => w.roomObstacles place t.kind

/-- Trees are inserted exactly if they can join and their places take them, and refused by their
first obstacle. -/
structure InsertsExactly (w : Workspace) : Prop where
  accepted (t : Tree Flavor) (place : Option Attachment) (id : NodeId) :
    ((Workspace.insertTree t place).run w).1 = .ok id ↔
      w.Joins t ∧ (∀ p ∈ place, w.HasRoom p t.kind) ∧ id = t.id
  refused (t : Tree Flavor) (place : Option Attachment) (e : WorkspaceError) :
    ((Workspace.insertTree t place).run w).1 = .error e ↔ FirstOf (w.insertObstacles t place) e
  joins_iff (t : Tree Flavor) : w.Joins t ↔ ∀ o ∈ w.treeObstacles t, ¬ o.1
  hasRoom_iff (place : Attachment) (kind : Kind) :
    w.HasRoom place kind ↔ ∀ o ∈ w.roomObstacles place kind, ¬ o.1

variable {w : Workspace} {t u : Tree Flavor} {before : List (Tree Flavor)} {seen : List NodeId}

theorem restBeforeEnd_iff {kinds : List Kind} : restBeforeEnd kinds = true ↔ ¬ Orderly kinds := by
  rw [Orderly, ← restBeforeEnd_eq_false_iff, Bool.not_eq_false]

def Seen (before : List (Tree Flavor)) (seen : List NodeId) : Prop :=
  ∀ id, id ∈ seen ↔ ∃ v ∈ before, v.id = id

theorem Seen.cons (h : Seen before seen) (u : Tree Flavor) :
    Seen (before ++ [u]) (u.id :: seen) := by
  intro id
  simp only [List.mem_cons, h id, List.mem_append, List.not_mem_nil, or_false, or_and_right,
    exists_or, exists_eq_left]
  rw [or_comm, eq_comm]

theorem reports_checkNode (h : Seen before seen) (u : Tree Flavor) :
    Reports (w.checkNode seen u) (u.id :: seen) (w.nodeObstacles before u) := by
  have hid : w.contains u.id = true ∨ u.id ∈ seen ↔
      (∃ b, w.find? u.id = some b) ∨ ∃ v ∈ before, v.id = u.id :=
    or_congr Option.isSome_iff_exists (h u.id)
  unfold Reports checkNode checkFlavor checkRestLast
  simp only [nodeObstacles, FirstOf, List.forall_mem_cons, ← hid, ← restBeforeEnd_iff]
  by_cases hi : w.contains u.id = true ∨ u.id ∈ seen
  · refine .inr ⟨.duplicateId u.id, ?_, .inl ⟨hi, rfl⟩⟩
    simp [hi, bind, Except.bind, throw, throwThe, MonadExceptOf.throw]
  cases hd : u.flavor.denotes u.kind with
  | false =>
    refine .inr ⟨.invalid (.flavorMismatch u.flavor u.kind), ?_, .inr ⟨hi, .inl ⟨rfl, rfl⟩⟩⟩
    simp [hi, bind, Except.bind, Except.mapError]
  | true =>
    cases hr : restBeforeEnd (u.children.map Tree.kind) with
    | true =>
      refine .inr ⟨.restNotLast u.id, ?_, .inr ⟨hi, .inr ⟨nofun, .inl ⟨rfl, rfl⟩⟩⟩⟩
      simp [hi, bind, Except.bind, Except.mapError]
    | false =>
      refine .inl ⟨?_, hi, nofun, nofun, List.forall_mem_nil _⟩
      simp [hi, bind, Except.bind, Except.mapError, pure, Except.pure]

/-- A run through several nodes stops at the first obstacle of all of them. -/
theorem reports_foldlM (h : Seen before seen) (us : List (Tree Flavor)) :
    Reports (us.foldlM w.checkNode seen) ((us.map Tree.id).reverse ++ seen)
      (w.nodesObstacles before us) := by
  induction us generalizing before seen with
  | nil => exact .ok seen
  | cons u us ih =>
    rw [List.foldlM_cons, nodesObstacles, List.map_cons, List.reverse_cons, List.append_assoc]
    exact (reports_checkNode h u).bind (ih (h.cons u))

theorem reports_checkTree (w : Workspace) (t : Tree Flavor) :
    Reports (w.checkTree t) () (w.treeObstacles t) := by
  have hseen : Seen [] [] := fun id => by simp
  rw [checkTree, walk_visitNode]
  exact (reports_foldlM hseen t.subtrees).map _

theorem joins_iff_admits : w.Joins t ↔ w.Admits t := by
  have hfresh (id : NodeId) : w.find? id = none ↔ w.contains id = false := by
    rw [contains, Option.isSome_eq_false_iff, Option.isNone_iff_eq_none]
  constructor
  · intro h
    exact ⟨h.distinct, fun id hi => (hfresh id).1 (h.fresh hi), fun _ hu => h.denotes hu,
      fun _ hu => restBeforeEnd_eq_false_iff.2 (h.orderly hu)⟩
  · intro h
    exact ⟨h.nodup, fun {id} hi => (hfresh id).2 (h.fresh id hi), fun hu => h.denotes _ hu,
      fun hu => restBeforeEnd_eq_false_iff.1 (h.restLast _ hu)⟩

theorem joins_iff_checkTree : w.Joins t ↔ w.checkTree t = .ok () :=
  joins_iff_admits.trans checkTree_eq_ok_iff.symm

theorem hasRoom_iff_forall (place : Attachment) (kind : Kind) :
    w.HasRoom place kind ↔ ∀ o ∈ w.roomObstacles place kind, ¬ o.1 := by
  rw [roomObstacles, HasRoom]
  cases w.find? place.parent with
  | none => simp
  | some p =>
    simp only [Option.some.injEq, exists_eq_left', List.forall_mem_cons, ne_eq, ← not_or, not_not,
      not_exists, not_and, not_lt, List.not_mem_nil, false_imp_iff, implies_true, and_true]

theorem reports_checkRoom (w : Workspace) (place : Attachment) (kind : Kind) :
    Reports (w.checkAttachment place kind none) () (w.roomObstacles place kind) := by
  rw [roomObstacles]
  cases hp : w.find? place.parent with
  | none =>
    refine .inr ⟨.unknownNode place.parent, ?_, .inl ⟨trivial, rfl⟩⟩
    simp [checkAttachment, block, hp, bind, Except.bind]
  | some p =>
    have hleaf : p.kind.isContainer = false ↔ p.kind ≠ .sequence ∧ p.kind ≠ .choice := by
      rw [← not_or, ← isContainer_iff, Bool.not_eq_true]
    have hbeyond : p.children.length < place.index.getD p.children.length ↔
        ∃ i ∈ place.index, p.children.length < i := by
      cases place.index <;> simp
    rw [checkAttachment_none hp, checkRestLast]
    split_ifs with hk hi hr
    · exact .inr ⟨_, rfl, .inl ⟨hleaf.1 hk, rfl⟩⟩
    · exact .inr ⟨_, rfl, .inr ⟨mt hleaf.2 hk, .inl ⟨hbeyond.1 hi, rfl⟩⟩⟩
    · exact .inr ⟨_, rfl, .inr ⟨mt hleaf.2 hk, .inr ⟨mt hbeyond.2 hi,
        .inl ⟨restBeforeEnd_iff.1 hr, rfl⟩⟩⟩⟩
    · refine .inl ⟨rfl, ?_⟩
      simp only [List.forall_mem_cons]
      exact ⟨mt hleaf.2 hk, mt hbeyond.2 hi, mt restBeforeEnd_iff.2 hr, List.forall_mem_nil _⟩

end Workspace

namespace Represents

open Workspace

variable {w : Workspace} {F : Forest}

/-- A tree is checked before its place is, and once both checks are passed nothing fails. -/
theorem result_insertTree (h : Represents w F) (t : Tree Flavor) (place : Option Attachment) :
    ((Workspace.insertTree t place).run w).1 = (w.checkTree t).bind fun _ =>
      (place.elim (.ok ()) fun place => w.checkAttachment place t.kind none).map fun _ => t.id := by
  cases hc : w.checkTree t with
  | error e => simp [Workspace.insertTree, Action.run_bind, hc, Except.bind]
  | ok _ =>
    cases place with
    | none =>
      rw [run_insertTree (checkTree_eq_ok_iff.1 hc)]
      rfl
    | some place =>
      cases hp : w.checkAttachment place t.kind none with
      | error e => simp [Workspace.insertTree, Action.run_bind, hc, hp, Except.bind, Except.map]
      | ok _ =>
        rw [(h.run_insertTree_of_check hc hp).2]
        simp [hp, Except.bind, Except.map]

theorem reports_insertTree (h : Represents w F) (t : Tree Flavor) (place : Option Attachment) :
    Reports ((Workspace.insertTree t place).run w).1 t.id (w.insertObstacles t place) := by
  rw [h.result_insertTree]
  refine (w.reports_checkTree t).bind ?_
  cases place with
  | none => exact .ok t.id
  | some place => exact (w.reports_checkRoom place t.kind).map _

end Represents

namespace Workspace

variable {w : Workspace}

theorem joins_iff_forall (t : Tree Flavor) : w.Joins t ↔ ∀ o ∈ w.treeObstacles t, ¬ o.1 := by
  rw [joins_iff_checkTree, (w.reports_checkTree t).ok_iff, and_iff_left rfl]

theorem insertable_iff_forall (t : Tree Flavor) (place : Option Attachment) :
    (w.Joins t ∧ ∀ p ∈ place, w.HasRoom p t.kind) ↔
      ∀ o ∈ w.insertObstacles t place, ¬ o.1 := by
  rw [insertObstacles, List.forall_mem_append, joins_iff_forall]
  refine and_congr_right fun _ => ?_
  cases place with
  | none => simp
  | some place => simp [hasRoom_iff_forall]

/-- Whatever calls led to a workspace, trees are inserted into it exactly if they can join it and
their places take them, and the first obstacle to any other tree is the one that is reported. -/
theorem insertsExactly_of_reachable {w : Workspace} (h : w.Reachable) : w.InsertsExactly := by
  obtain ⟨F, hF⟩ := h.represents
  constructor
  case accepted =>
    intro t place id
    rw [(hF.reports_insertTree t place).ok_iff, ← and_assoc, insertable_iff_forall]
  case refused => exact fun t place e => (hF.reports_insertTree t place).error_iff
  case joins_iff => exact joins_iff_forall
  case hasRoom_iff => exact hasRoom_iff_forall

/-- A choice that goes before a rest but not behind it, and trees with several problems each. -/
theorem insertsExactly_besideRest :
    let w := restBelowSequence
    let string (id flavor : String) : Tree Flavor := .leaf id ⟨flavor⟩ (.string "AHU" "unit")
    let rest (id : String) : Tree Flavor := .leaf id ⟨"rest"⟩ (.rest "wing")
    let choice (children : List (Tree Flavor)) := Tree.group "x" ⟨"choice"⟩ .choice children
    w.Reachable ∧
      (w.Joins (choice [string "y" "string-url", rest "z"]) ∧ w.HasRoom ⟨"a", some 0⟩ .choice) ∧
      FirstOf (w.insertObstacles (choice [rest "z"]) (some ⟨"a", none⟩)) (.restNotLast "a") ∧
      FirstOf (w.insertObstacles (choice [string "b" "rest", string "x" "rest"])
        (some ⟨"c", none⟩)) (.duplicateId "b") ∧
      FirstOf (w.insertObstacles (choice [rest "y", rest "y"]) none) (.restNotLast "x") := by
  intro w string rest choice
  have hw : w.Reachable := .restBelowSequence
  have h := insertsExactly_of_reachable hw
  obtain ⟨hj, hr, -⟩ := (h.accepted (choice [string "y" "string-url", rest "z"])
    (some ⟨"a", some 0⟩) "x").1 (by decide)
  exact ⟨hw, ⟨hj, hr _ rfl⟩, (h.refused ..).1 (by decide), (h.refused ..).1 (by decide),
    (h.refused ..).1 (by decide)⟩

end Workspace

end LabelGrammar
