import LabelGrammar.Workspace.Basic

/-! # Attaching blocks

Where a block may stand below another one: under a container that is not below the block itself,
at an index up to the number of children, and such that no rest is followed by a sibling.
-/

namespace LabelGrammar

/-- A place below a block; without index the place after its last child. -/
structure Attachment where
  parent : NodeId
  index : Option Nat
  deriving DecidableEq, Repr

/-- Whether a rest stands before the end of a list of kinds. -/
def restBeforeEnd (kinds : List Kind) : Bool := kinds.dropLast.contains .rest

/-- Refuses a list of children in which a rest is followed by a sibling. -/
def checkRestLast (parent : NodeId) (kinds : List Kind) : Except WorkspaceError Unit :=
  if restBeforeEnd kinds then .error (.restNotLast parent) else .ok ()

namespace Workspace

/-- Whether `ancestor` is found on the way of at most `n` blocks upwards from `id`. -/
def climb (w : Workspace) (ancestor : NodeId) : Nat → NodeId → Bool
  | 0, _ => false
  | n + 1, id =>
    id == ancestor ||
      match (w.find? id).bind (·.parent) with
      | none => false
      | some parent => climb w ancestor n parent

def isAncestorOrSelf (w : Workspace) (ancestor id : NodeId) : Bool :=
  w.climb ancestor (w.size + 1) id

/-- Checks a place for a block of the given kind. A block that is already in the workspace is
given by its id. -/
def checkAttachment (w : Workspace) (place : Attachment) (kind : Kind) (child : Option NodeId) :
    Except WorkspaceError Unit := do
  let parent ← w.block place.parent
  if !parent.kind.isContainer then throw (.notAContainer parent.id parent.kind)
  if let some child := child then
    if w.isAncestorOrSelf child place.parent then throw (.cycle child place.parent)
  let count := parent.children.length
  let index := place.index.getD count
  if count < index then throw (.indexOutOfRange place.parent index count)
  let kinds := parent.children.filterMap fun id => (w.find? id).map Block.kind
  checkRestLast place.parent (kinds.insertIdx index kind)

/-- Moves a block from the top level to a place below another one. -/
def attach (w : Workspace) (child : NodeId) (place : Attachment) : Workspace :=
  let insert (children : List NodeId) : List NodeId :=
    children.insertIdx (place.index.getD children.length) child
  let w := { w with topLevel := w.topLevel.filter (· ≠ child) }
  let w := w.modifyBlock place.parent fun b => { b with body := b.body.mapChildren insert }
  w.modifyBlock child fun b => { b with parent := some place.parent }.retag

/-- Moves a block from below its parent to the end of the top level. -/
def detach (w : Workspace) (id parent : NodeId) : Workspace :=
  let w := w.modifyBlock parent fun b =>
    { b with body := b.body.mapChildren (·.filter (· ≠ id)) }
  let w := w.modifyBlock id fun b => { b with parent := none }.retag
  { w with topLevel := w.topLevel ++ [id] }

end Workspace

end LabelGrammar
