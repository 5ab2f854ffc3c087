import LabelGrammar.Workspace.Attachment
import LabelGrammar.Workspace.Draw

/-! # Editing the workspace

Operations read and change a workspace and may fail. What a failing operation did to the
workspace before it failed stays visible, so that each of them has to check before it acts.
-/

namespace LabelGrammar

/-- An operation on a workspace. -/
abbrev Action (ε α : Type) := ExceptT ε (StateM Workspace) α

namespace Action

variable {ε ε' α : Type}

def run (action : Action ε α) (w : Workspace) : Except ε α × Workspace :=
  StateT.run (ExceptT.run action) w

def check (f : Workspace → Except ε α) : Action ε α := do
  match f (← get) with
  | .ok a => return a
  | .error e => throw e

def mapError (f : ε → ε') (action : Action ε α) : Action ε' α :=
  ExceptT.mk do
    match ← ExceptT.run action with
    | .ok a => return .ok a
    | .error e => return .error (f e)

variable {β : Type} {w : Workspace}

@[simp] theorem run_pure (a : α) : (pure a : Action ε α).run w = (.ok a, w) := rfl

@[simp] theorem run_throw (e : ε) : (throw e : Action ε α).run w = (.error e, w) := rfl

@[simp] theorem run_get : (get : Action ε Workspace).run w = (.ok w, w) := rfl

@[simp] theorem run_set (v : Workspace) : (set v : Action ε PUnit).run w = (.ok ⟨⟩, v) := rfl

@[simp] theorem run_modify (f : Workspace → Workspace) :
    (modify f : Action ε PUnit).run w = (.ok ⟨⟩, f w) := rfl

@[simp] theorem run_check (f : Workspace → Except ε α) : (check f).run w = (f w, w) := by
  change (match f w with
    | .ok a => (pure a : Action ε α)
    | .error e => throw e).run w = _
  cases f w <;> rfl

theorem run_bind (action : Action ε α) (f : α → Action ε β) :
    (action >>= f).run w = match action.run w with
      | (.ok a, v) => (f a).run v
      | (.error e, v) => (.error e, v) := by
  simp only [run, ExceptT.run, StateT.run, bind, ExceptT.bind, ExceptT.mk, StateT.bind]
  obtain ⟨r, v⟩ := action w
  cases r <;> rfl

theorem run_mapError (f : ε → ε') (action : Action ε α) :
    (action.mapError f).run w = ((action.run w).1.mapError f, (action.run w).2) := by
  simp only [run, mapError, ExceptT.run, StateT.run, bind, ExceptT.mk, StateT.bind]
  obtain ⟨r, v⟩ := action w
  cases r <;> rfl

end Action

mutual

/-- The blocks of a tree below a parent, in pre-order. Sequences take the flavor of their
position. -/
def Tree.toBlocks (parent : Option NodeId) : Tree Flavor → List Block
  | .leaf id flavor l => [⟨id, flavor, parent, .leaf l⟩]
  | .group id flavor shape children =>
    Block.retag ⟨id, flavor, parent, .group shape (children.map Tree.id)⟩ ::
      Tree.toBlocksAll (some id) children

def Tree.toBlocksAll (parent : Option NodeId) : List (Tree Flavor) → List Block
  | [] => []
  | t :: ts => t.toBlocks parent ++ Tree.toBlocksAll parent ts

end

namespace Workspace

def checkNode (w : Workspace) (seen : List NodeId) (t : Tree Flavor) :
    Except WorkspaceError (List NodeId) := do
  if w.contains t.id || t.id ∈ seen then throw (.duplicateId t.id)
  let _ ← (checkFlavor t.flavor t.kind).mapError .invalid
  checkRestLast t.id (t.children.map Tree.kind)
  return t.id :: seen

/-- Goes on with the check of a tree at one of its nodes. The outcome so far is a problem, or the
ids seen; after a problem no further node is checked. -/
def visitNode (w : Workspace) (outcome : Except WorkspaceError (List NodeId)) (t : Tree Flavor)
    (_depth : Nat) : Bool × Except WorkspaceError (List NodeId) :=
  match outcome with
  | .error e => (false, .error e)
  | .ok seen =>
    match w.checkNode seen t with
    | .ok seen => (true, .ok seen)
    | .error e => (false, .error e)

/-- Checks every node of a tree that is to be inserted, in pre-order. -/
def checkTree (w : Workspace) (t : Tree Flavor) : Except WorkspaceError Unit :=
  (t.walk w.visitNode 0 (.ok [])).map fun _ => ()

/-- Adds the blocks of a tree, its root at the end of the top level. -/
def place (w : Workspace) (t : Tree Flavor) : Workspace :=
  let w := w.retire t.ids
  { w with blocks := w.blocks ++ t.toBlocks none, topLevel := w.topLevel ++ [t.id] }

/-- Draws an id that was never issued. -/
def freshId {ε : Type} (offers : List NodeId) : Action ε NodeId := do
  let w ← get
  let id := w.pick offers
  set (w.retire [id])
  return id

/-- Makes a new block without children at the end of the top level. -/
def addBlock (rule : Rule) (flavor : Option Flavor) (offers : List NodeId) :
    Action WorkspaceError NodeId := do
  let flavor ← Action.check fun _ =>
    match flavor with
    | some flavor => (checkFlavor flavor rule.kind).mapError .invalid
    | none => .ok (.default rule.kind true)
  let id ← freshId offers
  let w ← get
  set { w with
    blocks := w.blocks ++ (Tree.ofRule id flavor rule).toBlocks none
    topLevel := w.topLevel ++ [id] }
  return id

def connect (child : NodeId) (place : Attachment) : Action WorkspaceError Unit := do
  let b ← Action.check (·.block child)
  if b.parent.isSome then throw (.alreadyAttached child)
  Action.check (·.checkAttachment place b.kind (some child))
  modify (·.attach child place)

/-- Moves a block to the top level, unless it is there. -/
def disconnect (id : NodeId) : Action WorkspaceError Unit := do
  let b ← Action.check (·.block id)
  if let some parent := b.parent then
    modify (·.detach id parent)

/-- Inserts a tree, at the end of the top level or at a place below a block. The whole tree and
then the place are checked before anything is inserted. -/
def insertTree (t : Tree Flavor) (place : Option Attachment) : Action WorkspaceError NodeId := do
  Action.check (·.checkTree t)
  if let some place := place then
    Action.check (·.checkAttachment place t.kind none)
  modify (·.place t)
  if let some place := place then
    connect t.id place
  return t.id

/-- Removes at most as many blocks as the first argument: those on a stack of ids, and with each
of them the blocks that it lists as its children. -/
def removeAll (w : Workspace) : Nat → List NodeId → Workspace
  | 0, _ => w
  | _ + 1, [] => w
  | n + 1, id :: stack =>
    match w.find? id with
    | none => removeAll w n stack
    | some b =>
      removeAll { w with blocks := w.blocks.filter (·.id ≠ id) } n (b.children ++ stack)

/-- Removes a block with everything below it, and returns it as a tree. -/
def delete (id : NodeId) : Action WorkspaceError (Tree Flavor) := do
  let t ← Action.check (·.snapshot id)
  let b ← Action.check (·.block id)
  match b.parent with
  | some parent => modify (·.modifyBlock parent fun b =>
      { b with body := b.body.mapChildren (·.filter (· ≠ id)) })
  | none => modify fun w => { w with topLevel := w.topLevel.filter (· ≠ id) }
  modify fun w => w.removeAll w.size [id]
  return t

def edit (id : NodeId) (edit : FieldEdit) : Action WorkspaceError Unit := do
  let b ← Action.check (·.block id)
  let body ← Action.check fun _ => (b.body.edit edit).mapError .invalid
  modify (·.modifyBlock id fun b => { b with body })

/-- A workspace that holds one tree. -/
def ofTree (t : Tree Flavor) : Except WorkspaceError Workspace :=
  match (insertTree t none).run .empty with
  | (.ok _, w) => .ok w
  | (.error e, _) => .error e

end Workspace

end LabelGrammar
