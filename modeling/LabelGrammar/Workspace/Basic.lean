import LabelGrammar.Grammar.Tree

/-! # The workspace

An editable forest of blocks. Each block knows its parent, a block with children lists them in
order, and the blocks without parent are listed at the top level. The first of these is the root
of the grammar. Blocks are found by their ids.
-/

namespace LabelGrammar

/-- What a block holds beside its place in the forest. -/
inductive Body where
  | leaf (l : Leaf)
  | group (shape : Shape) (children : List NodeId)
  deriving DecidableEq, Repr

def Body.rule : Body → Rule
  | .leaf l => .leaf l
  | .group shape _ => .group shape

def Body.children : Body → List NodeId
  | .leaf _ => []
  | .group _ children => children

def Body.mapChildren (f : List NodeId → List NodeId) : Body → Body
  | .leaf l => .leaf l
  | .group shape children => .group shape (f children)

def Body.edit (edit : FieldEdit) : Body → Except ValidationError Body
  | .leaf l => (edit.applyLeaf l).map .leaf
  | .group shape _ => .error (.fieldNotApplicable edit.field shape.kind)

structure Block where
  id : NodeId
  flavor : Flavor
  parent : Option NodeId
  body : Body
  deriving DecidableEq, Repr

namespace Block

def rule (b : Block) : Rule := b.body.rule

def kind (b : Block) : Kind := b.rule.kind

def children (b : Block) : List NodeId := b.body.children

def retag (b : Block) : Block :=
  if b.kind = .sequence then { b with flavor := .default .sequence b.parent.isNone } else b

end Block

inductive WorkspaceError where
  | unknownNode (id : NodeId)
  | notAContainer (id : NodeId) (kind : Kind)
  | alreadyAttached (id : NodeId)
  | cycle (child parent : NodeId)
  | restNotLast (parent : NodeId)
  | indexOutOfRange (parent : NodeId) (index count : Nat)
  | duplicateId (id : NodeId)
  | invalid (cause : ValidationError)
  deriving DecidableEq, Repr

def WorkspaceError.message : WorkspaceError → String
  | .unknownNode id => s!"no node with id `{id}` in the workspace"
  | .notAContainer id kind => s!"node `{id}` is a {kind.name} and has no child slot"
  | .alreadyAttached id => s!"node `{id}` is already attached to a parent"
  | .cycle child parent => s!"attaching `{child}` under `{parent}` would create a cycle"
  | .restNotLast parent => s!"a rest node must be the last child of `{parent}`"
  | .indexOutOfRange parent index count =>
    s!"child index {index} is out of range for `{parent}` ({count} children)"
  | .duplicateId id => s!"id `{id}` is already in use"
  | .invalid cause => cause.message

structure Workspace where
  blocks : List Block
  topLevel : List NodeId
  /-- Every id that was drawn or admitted so far. None of them is drawn again, even after the
  block that carried it is gone. -/
  issued : List NodeId
  deriving Repr

namespace Workspace

def empty : Workspace := ⟨[], [], []⟩

instance : Inhabited Workspace := ⟨empty⟩

def find? (w : Workspace) (id : NodeId) : Option Block := w.blocks.find? (·.id == id)

def contains (w : Workspace) (id : NodeId) : Bool := (w.find? id).isSome

def size (w : Workspace) : Nat := w.blocks.length

def isEmpty (w : Workspace) : Bool := w.blocks.isEmpty

def root? (w : Workspace) : Option Block := w.topLevel.head?.bind w.find?

def block (w : Workspace) (id : NodeId) : Except WorkspaceError Block :=
  match w.find? id with
  | some b => .ok b
  | none => .error (.unknownNode id)

def modifyBlock (w : Workspace) (id : NodeId) (f : Block → Block) : Workspace :=
  { w with blocks := w.blocks.map fun b => if b.id = id then f b else b }

def retire (w : Workspace) (ids : List NodeId) : Workspace :=
  { w with issued := w.issued ++ ids.filter (· ∉ w.issued) }

/-- Drops every block. Issued ids stay so. -/
def clear (w : Workspace) : Workspace := { w with blocks := [], topLevel := [] }

/-- The blocks of an earlier workspace; ids issued since then stay so. -/
def rollBack (w earlier : Workspace) : Workspace := earlier.retire w.issued

/-- The subtree of a block, as deep as the first argument. Children at a greater depth, like
children that are missing, are errors. -/
def snapshotWithin (w : Workspace) : Nat → NodeId → Except WorkspaceError (Tree Flavor)
  | 0, id => .error (.unknownNode id)
  | depth + 1, id =>
    match w.find? id with
    | none => .error (.unknownNode id)
    | some b =>
      match b.body with
      | .leaf l => .ok (.leaf b.id b.flavor l)
      | .group shape children =>
        (children.mapM (snapshotWithin w depth)).map fun ts =>
          .group b.id b.flavor shape (ts.map Tree.nested)

/-- A copy of the subtree of a block. No path visits more blocks than there are. -/
def snapshot (w : Workspace) (id : NodeId) : Except WorkspaceError (Tree Flavor) :=
  w.snapshotWithin w.size id

/-- Takes at most as many blocks as the first argument from a stack of ids with depths, and puts
the children of each in its place. -/
def traverse (w : Workspace) : Nat → List (NodeId × Nat) → List (Block × Nat)
  | 0, _ => []
  | _ + 1, [] => []
  | n + 1, (id, depth) :: stack =>
    match w.find? id with
    | none => traverse w n stack
    | some b => (b, depth) :: traverse w n (b.children.map (·, depth + 1) ++ stack)

/-- All blocks in pre-order, each with its depth below the top level. -/
def preOrder (w : Workspace) : List (Block × Nat) :=
  w.traverse w.size (w.topLevel.map (·, 0))

end Workspace

end LabelGrammar
