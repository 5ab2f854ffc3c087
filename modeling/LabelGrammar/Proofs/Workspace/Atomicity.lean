import LabelGrammar.Proofs.Workspace.Reachable

/-! # Refused operations

An operation that is refused leaves the workspace as it was. It could not if one of its look-ups
failed after its first change, so the operations are compared with ones that look up every block
they change, and fail if it is not there.
-/

namespace LabelGrammar

open Forest

/-- The operation changes nothing if it is refused. -/
def Action.Atomic {ε α : Type} (action : Action ε α) (w : Workspace) : Prop :=
  ∀ e, (action.run w).1 = .error e → (action.run w).2 = w

namespace Action.Atomic

variable {ε α : Type} {action : Action ε α} {w v : Workspace}

theorem of_error {e : ε} (h : action.run w = (.error e, w)) : action.Atomic w := by
  rintro _ -
  rw [h]

theorem of_ok {a : α} (h : action.run w = (.ok a, v)) : action.Atomic w := by
  rintro _ he
  rw [h] at he
  cases he

end Action.Atomic

namespace Workspace

/-- What is refused changes nothing, except that an import may have drawn ids. -/
structure Atomic (w : Workspace) : Prop where
  addBlock (rule : Rule) (flavor : Option Flavor) (offers : List NodeId) :
    (Workspace.addBlock rule flavor offers).Atomic w
  insertTree (t : Tree Flavor) (place : Option Attachment) : (Workspace.insertTree t place).Atomic w
  connect (child : NodeId) (place : Attachment) : (Workspace.connect child place).Atomic w
  disconnect (id : NodeId) : (Workspace.disconnect id).Atomic w
  delete (id : NodeId) : (Workspace.delete id).Atomic w
  edit (id : NodeId) (edit : FieldEdit) : (Workspace.edit id edit).Atomic w
  importPairs {pairs : List Pair} {place : Option Attachment} {flavor : Flavor}
      {offers : List NodeId} {e : ImportError} :
    ((Workspace.importPairs pairs place flavor offers).run w).1 = .error e →
    w.Issues ((Workspace.importPairs pairs place flavor offers).run w).2

variable {w : Workspace} {id child : NodeId} {b : Block} {place : Attachment}

def alter (id : NodeId) (f : Block → Block) : Action WorkspaceError Unit := do
  let _ ← Action.check (·.block id)
  modify (·.modifyBlock id f)

def connectByStep (child : NodeId) (place : Attachment) : Action WorkspaceError Unit := do
  let b ← Action.check (·.block child)
  if b.parent.isSome then throw (.alreadyAttached child)
  Action.check (·.checkAttachment place b.kind (some child))
  modify fun w => { w with topLevel := w.topLevel.filter (· ≠ child) }
  alter place.parent (Block.withChildren fun children =>
    children.insertIdx (place.index.getD children.length) child)
  alter child (Block.reparent (some place.parent))

def disconnectByStep (id : NodeId) : Action WorkspaceError Unit := do
  let b ← Action.check (·.block id)
  if let some parent := b.parent then
    alter parent (Block.withChildren (·.filter (· ≠ id)))
    alter id (Block.reparent none)
    modify fun w => { w with topLevel := w.topLevel ++ [id] }

def deleteByStep (id : NodeId) : Action WorkspaceError (Tree Flavor) := do
  let t ← Action.check (·.snapshot id)
  let b ← Action.check (·.block id)
  match b.parent with
  | some parent => alter parent (Block.withChildren (·.filter (· ≠ id)))
  | none => modify fun w => { w with topLevel := w.topLevel.filter (· ≠ id) }
  modify fun w => w.removeAll w.size [id]
  return t

def editByStep (id : NodeId) (edit : FieldEdit) : Action WorkspaceError Unit := do
  let b ← Action.check (·.block id)
  let body ← Action.check fun _ => (b.body.edit edit).mapError .invalid
  alter id (Block.withBody body)

theorem run_alter (h : w.contains id = true) (f : Block → Block) :
    (alter id f).run w = (.ok (), w.modifyBlock id f) := by
  obtain ⟨b, hb⟩ := Option.isSome_iff_exists.1 h
  rw [alter, Action.run_bind, Action.run_check, block_eq_ok_iff.2 hb]
  rfl

theorem contains_modifyBlock (h : w.contains child = true) (id : NodeId) {f : Block → Block}
    (hf : ∀ b, (f b).id = b.id) : (w.modifyBlock id f).contains child = true := by
  rw [contains, find?_modifyBlock w id hf, Option.isSome_map]
  exact h

theorem contains_of_block (h : w.block id = .ok b) : w.contains id = true := by
  rw [contains, block_eq_ok_iff.1 h]
  rfl

theorem contains_of_checkAttachment {kind : Kind} {below : Option NodeId}
    (h : w.checkAttachment place kind below = .ok ()) : w.contains place.parent = true := by
  unfold checkAttachment at h
  cases hb : w.block place.parent with
  | error e =>
    rw [hb] at h
    cases h
  | ok b => exact contains_of_block hb

/-- Nothing fails once the checks are passed, and no copy of a block that is there does. -/
structure ChecksFirst (w : Workspace) : Prop where
  insertTree {t : Tree Flavor} : w.checkTree t = .ok () →
    (Workspace.insertTree t none).run w = (.ok t.id, w.place t)
  insertTree_at {t : Tree Flavor} {place : Attachment} : w.checkTree t = .ok () →
    w.checkAttachment place t.kind none = .ok () →
    (connectByStep t.id place).run (w.place t) = (.ok (), (w.place t).attach t.id place) ∧
      (Workspace.insertTree t (some place)).run w = (.ok t.id, (w.place t).attach t.id place)
  connect {child : NodeId} {place : Attachment} {b : Block} : w.block child = .ok b →
    b.parent = none → w.checkAttachment place b.kind (some child) = .ok () →
    (connectByStep child place).run w = (.ok (), w.attach child place)
  connect_eq (child : NodeId) (place : Attachment) :
    (connectByStep child place).run w = (Workspace.connect child place).run w
  disconnect_eq (id : NodeId) : (disconnectByStep id).run w = (Workspace.disconnect id).run w
  delete_eq (id : NodeId) : (deleteByStep id).run w = (Workspace.delete id).run w
  edit_eq (id : NodeId) (edit : FieldEdit) :
    (editByStep id edit).run w = (Workspace.edit id edit).run w
  snapshot {id : NodeId} {e : WorkspaceError} : w.snapshot id = .error e → w.find? id = none

theorem run_connectByStep_of_check (hb : w.block child = .ok b) (hp : b.parent = none)
    (hc : w.checkAttachment place b.kind (some child) = .ok ()) :
    (connectByStep child place).run w = (.ok (), w.attach child place) := by
  have hparent : contains ⟨w.blocks, w.topLevel.filter (· ≠ child), w.issued⟩ place.parent =
      true := contains_of_checkAttachment (w := w) hc
  have hchild : contains ⟨w.blocks, w.topLevel.filter (· ≠ child), w.issued⟩ child = true :=
    contains_of_block (w := w) hb
  have hlater := contains_modifyBlock hchild place.parent (Block.id_withChildren fun children =>
    children.insertIdx (place.index.getD children.length) child)
  simp only [connectByStep, Action.run_bind, Action.run_check, hb, hp, hc, Option.isSome_none,
    Bool.false_eq_true, if_false, Action.run_modify, run_alter hparent, run_alter hlater]
  rfl

theorem run_connectByStep (child : NodeId) (place : Attachment) :
    (connectByStep child place).run w = (connect child place).run w := by
  cases hb : w.block child with
  | error e => simp [connectByStep, connect, Action.run_bind, hb]
  | ok b =>
    cases hp : b.parent with
    | some p => simp [connectByStep, connect, Action.run_bind, hb, hp]
    | none =>
      cases hc : w.checkAttachment place b.kind (some child) with
      | error e => simp [connectByStep, connect, Action.run_bind, hb, hp, hc]
      | ok _ =>
        rw [run_connectByStep_of_check hb hp hc]
        simp [connect, Action.run_bind, hb, hp, hc]

theorem run_editByStep (id : NodeId) (edit : FieldEdit) :
    (editByStep id edit).run w = (Workspace.edit id edit).run w := by
  cases hb : w.block id with
  | error e => simp [editByStep, Workspace.edit, Action.run_bind, hb]
  | ok b =>
    cases he : (b.body.edit edit).mapError WorkspaceError.invalid with
    | error e => simp [editByStep, Workspace.edit, Action.run_bind, hb, he]
    | ok body =>
      simp only [editByStep, Workspace.edit, Action.run_bind, Action.run_check, hb, he,
        run_alter (contains_of_block hb), Action.run_modify]
      rfl

end Workspace

namespace Represents

variable {w : Workspace} {F : Forest}

theorem contains_parent (h : Represents w F) {id p : NodeId} {b : Block} (hb : w.find? id = some b)
    (hp : b.parent = some p) : w.contains p = true := by
  obtain ⟨v, hv, rfl, -⟩ := h.exists_parent hb hp
  exact h.contains_iff.2 (Forest.mem_ids.2 ⟨v, hv, rfl⟩)

theorem run_disconnectByStep (h : Represents w F) (id : NodeId) :
    (Workspace.disconnectByStep id).run w = (Workspace.disconnect id).run w := by
  cases hb : w.block id with
  | error e => simp [Workspace.disconnectByStep, Workspace.disconnect, Action.run_bind, hb]
  | ok b =>
    cases hp : b.parent with
    | none => simp [Workspace.disconnectByStep, Workspace.disconnect, Action.run_bind, hb, hp]
    | some p =>
      have hparent := h.contains_parent (Workspace.block_eq_ok_iff.1 hb) hp
      have hchild := Workspace.contains_modifyBlock (Workspace.contains_of_block hb) p
        (Block.id_withChildren (·.filter (· ≠ id)))
      simp only [Workspace.disconnectByStep, Workspace.disconnect, Action.run_bind,
        Action.run_check, hb, hp, Workspace.run_alter hparent, Workspace.run_alter hchild,
        Action.run_modify]
      rfl

theorem run_deleteByStep (h : Represents w F) (id : NodeId) :
    (Workspace.deleteByStep id).run w = (Workspace.delete id).run w := by
  cases hs : w.snapshot id with
  | error e => simp [Workspace.deleteByStep, Workspace.delete, Action.run_bind, hs]
  | ok t =>
    cases hb : w.block id with
    | error e => simp [Workspace.deleteByStep, Workspace.delete, Action.run_bind, hs, hb]
    | ok b =>
      cases hp : b.parent with
      | none => simp [Workspace.deleteByStep, Workspace.delete, Action.run_bind, hs, hb, hp]
      | some p =>
        have hparent := h.contains_parent (Workspace.block_eq_ok_iff.1 hb) hp
        simp only [Workspace.deleteByStep, Workspace.delete, Action.run_bind, Action.run_check,
          hs, hb, hp, Workspace.run_alter hparent, Action.run_modify]
        rfl

/-- A tree that was checked together with a place is connected there. -/
theorem run_insertTree_of_check (h : Represents w F) {t : Tree Flavor} {place : Attachment}
    (hc : w.checkTree t = .ok ()) (hp : w.checkAttachment place t.kind none = .ok ()) :
    (Workspace.connectByStep t.id place).run (w.place t) =
        (.ok (), (w.place t).attach t.id place) ∧
      (Workspace.insertTree t (some place)).run w =
        (.ok t.id, (w.place t).attach t.id place) := by
  obtain ⟨u, hu, he, hk, -⟩ := h.checkAttachment_eq_ok_iff.1 hp
  obtain ⟨p, index⟩ := place
  obtain rfl : u.id = p := he
  obtain ⟨hr, -⟩ := h.connect_placed (Workspace.checkTree_eq_ok_iff.1 hc) hu hk
  constructor
  · rw [Workspace.run_connectByStep, hr]
  · simp only [Workspace.insertTree, Action.run_bind, Action.run_check, Action.run_modify,
      Action.run_pure, hc, hp, hr]

theorem checksFirst (h : Represents w F) : w.ChecksFirst where
  insertTree hc := Workspace.run_insertTree (Workspace.checkTree_eq_ok_iff.1 hc)
  insertTree_at := h.run_insertTree_of_check
  connect := Workspace.run_connectByStep_of_check
  connect_eq := Workspace.run_connectByStep
  disconnect_eq := h.run_disconnectByStep
  delete_eq := h.run_deleteByStep
  edit_eq := Workspace.run_editByStep
  snapshot {id e} he := by
    rw [Option.eq_none_iff_forall_ne_some]
    rintro b hb
    obtain ⟨u, hu, rfl, -⟩ := h.exists_node hb
    cases he.symm.trans (h.snapshot_eq hu)

theorem atomic (h : Represents w F) : w.Atomic where
  addBlock rule flavor offers := by
    rcases h.run_addBlock rule flavor offers with ⟨e, hr⟩ | ⟨v, hr, -⟩
    · exact .of_error hr
    · exact .of_ok hr
  insertTree t place _ he := h.insertTree_refused he
  connect child place := by
    rcases h.run_connect child place with ⟨e, hr⟩ | ⟨t, -, -, u, -, -, -, hr, -⟩
    · exact .of_error hr
    · exact .of_ok hr
  disconnect id := by
    rcases h.run_disconnect id with ⟨e, hr⟩ | ⟨t, -, -, hr⟩ | ⟨v, -, u, -, -, hr, -⟩
    · exact .of_error hr
    · exact .of_ok hr
    · exact .of_ok hr
  delete id := by
    rcases h.run_delete id with ⟨e, hr⟩ | ⟨u, -, -, v, hr, -⟩
    · exact .of_error hr
    · exact .of_ok hr
  edit id edit := by
    rcases h.run_edit id edit with ⟨e, hr⟩ | ⟨flavor, l, l', -, -, v, hr, -⟩
    · exact .of_error hr
    · exact .of_ok hr
  importPairs he := h.importPairs_refused he

end Represents

namespace Workspace

/-- Whatever calls led to a workspace, what it refuses leaves it as it was, since all that may be
refused is refused by a check before the first change. -/
theorem atomic_of_reachable {w : Workspace} (h : w.Reachable) : w.Atomic ∧ w.ChecksFirst := by
  obtain ⟨F, hF⟩ := h.represents
  exact ⟨hF.atomic, hF.checksFirst⟩

/-- A tree that may not follow the rest, and a table whose second row has an empty cell. -/
theorem atomic_restBelowSequence :
    ((insertTree (.leaf "c" ⟨"string"⟩ (.string "AHU" "unit")) (some ⟨"a", none⟩)).run
      restBelowSequence).1 = .error (.restNotLast "a") ∧
    ((insertTree (.leaf "c" ⟨"string"⟩ (.string "AHU" "unit")) (some ⟨"a", none⟩)).run
      restBelowSequence).2 = restBelowSequence ∧
    ((importPairs [("AHU", "unit"), ("", "unit")] none .importedString ["c", "d"]).run
      restBelowSequence).1 = .error (.invalid (.emptyField .pattern)) ∧
    restBelowSequence.Issues
      ((importPairs [("AHU", "unit"), ("", "unit")] none .importedString ["c", "d"]).run
        restBelowSequence).2 :=
  have h := (atomic_of_reachable .restBelowSequence).1
  ⟨rfl, h.insertTree _ _ _ rfl, rfl, h.importPairs rfl⟩

end Workspace

end LabelGrammar
