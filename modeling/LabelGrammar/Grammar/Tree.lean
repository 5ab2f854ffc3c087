import LabelGrammar.Grammar.Rule

/-! # Grammar trees

A grammar that stands on its own. Leaves have no children by construction. The type of flavors is
a parameter, since nothing that concerns matching depends on it.
-/

namespace LabelGrammar

inductive Tree (φ : Type) where
  | leaf (id : NodeId) (flavor : φ) (rule : Leaf)
  | group (id : NodeId) (flavor : φ) (shape : Shape) (children : List (Tree φ))
  deriving Repr

namespace Tree

variable {φ ψ : Type}

def id : Tree φ → NodeId
  | .leaf id _ _ => id
  | .group id _ _ _ => id

def flavor : Tree φ → φ
  | .leaf _ flavor _ => flavor
  | .group _ flavor _ _ => flavor

def rule : Tree φ → Rule
  | .leaf _ _ l => .leaf l
  | .group _ _ shape _ => .group shape

def kind (t : Tree φ) : Kind := t.rule.kind

def children : Tree φ → List (Tree φ)
  | .leaf _ _ _ => []
  | .group _ _ _ children => children

def withFlavor (flavor : ψ) : (t : Tree ψ) → Tree ψ
  | .leaf id _ l => .leaf id flavor l
  | .group id _ shape children => .group id flavor shape children

def ofRule (id : NodeId) (flavor : φ) : Rule → Tree φ
  | .leaf l => .leaf id flavor l
  | .group shape => .group id flavor shape []

mutual

def size : Tree φ → Nat
  | .leaf _ _ _ => 1
  | .group _ _ _ children => 1 + sizeAll children

def sizeAll : List (Tree φ) → Nat
  | [] => 0
  | t :: ts => size t + sizeAll ts

end

mutual

def height : Tree φ → Nat
  | .leaf _ _ _ => 1
  | .group _ _ _ children => 1 + heightAll children

def heightAll : List (Tree φ) → Nat
  | [] => 0
  | t :: ts => max (height t) (heightAll ts)

end

mutual

def map (f : φ → ψ) : Tree φ → Tree ψ
  | .leaf id flavor l => .leaf id (f flavor) l
  | .group id flavor shape children => .group id (f flavor) shape (mapAll f children)

def mapAll (f : φ → ψ) : List (Tree φ) → List (Tree ψ)
  | [] => []
  | t :: ts => map f t :: mapAll f ts

end

mutual

/-- The subtrees in pre-order, each with its depth. -/
def preOrder (depth : Nat) : Tree φ → List (Tree φ × Nat)
  | .leaf id flavor l => [(.leaf id flavor l, depth)]
  | .group id flavor shape children =>
    (.group id flavor shape children, depth) :: preOrderAll (depth + 1) children

def preOrderAll (depth : Nat) : List (Tree φ) → List (Tree φ × Nat)
  | [] => []
  | t :: ts => preOrder depth t ++ preOrderAll depth ts

end

def subtrees (t : Tree φ) : List (Tree φ) := (t.preOrder 0).map (·.1)

def ids (t : Tree φ) : List NodeId := t.subtrees.map (·.id)

mutual

/-- Visits the nodes in pre-order with a state. Where `enter` answers `false` the children are
left out. -/
def walk {σ : Type} (enter : σ → Tree φ → Nat → Bool × σ) (depth : Nat) : Tree φ → σ → σ
  | .leaf id flavor l, s => (enter s (.leaf id flavor l) depth).2
  | .group id flavor shape children, s =>
    match enter s (.group id flavor shape children) depth with
    | (true, s) => walkAll enter (depth + 1) children s
    | (false, s) => s

def walkAll {σ : Type} (enter : σ → Tree φ → Nat → Bool × σ) (depth : Nat) :
    List (Tree φ) → σ → σ
  | [], s => s
  | t :: ts, s => walkAll enter depth ts (walk enter depth t s)

end

mutual

def decEq [DecidableEq φ] : (t u : Tree φ) → Decidable (t = u)
  | .leaf i f l, .leaf j g m =>
    if h : i = j ∧ f = g ∧ l = m then
      isTrue (by obtain ⟨rfl, rfl, rfl⟩ := h; rfl)
    else isFalse (by intro e; cases e; exact h ⟨rfl, rfl, rfl⟩)
  | .leaf _ _ _, .group _ _ _ _ => isFalse (by intro e; cases e)
  | .group _ _ _ _, .leaf _ _ _ => isFalse (by intro e; cases e)
  | .group i f s ts, .group j g r us =>
    if h : i = j ∧ f = g ∧ s = r then
      match decEqAll ts us with
      | isTrue hs => isTrue (by obtain ⟨rfl, rfl, rfl⟩ := h; rw [hs])
      | isFalse hs => isFalse (by intro e; cases e; exact hs rfl)
    else isFalse (by intro e; cases e; exact h ⟨rfl, rfl, rfl⟩)

def decEqAll [DecidableEq φ] : (ts us : List (Tree φ)) → Decidable (ts = us)
  | [], [] => isTrue rfl
  | [], _ :: _ => isFalse (by intro e; cases e)
  | _ :: _, [] => isFalse (by intro e; cases e)
  | t :: ts, u :: us =>
    match decEq t u, decEqAll ts us with
    | isTrue h, isTrue hs => isTrue (by rw [h, hs])
    | isFalse h, _ => isFalse (by intro e; cases e; exact h rfl)
    | _, isFalse hs => isFalse (by intro e; cases e; exact hs rfl)

end

instance [DecidableEq φ] : DecidableEq (Tree φ) := decEq

/-- The tree as a child: a sequence takes the inner flavor. -/
def nested (t : Tree Flavor) : Tree Flavor :=
  if t.kind = .sequence then t.withFlavor .innerSequence else t

def makeGroup (id : NodeId) (shape : Shape) (children : List (Tree Flavor)) : Tree Flavor :=
  .group id (.default shape.kind true) shape (children.map nested)

def makeLeaf (id : NodeId) (l : Leaf) : Tree Flavor :=
  .leaf id (.default l.kind false) l

def push (t child : Tree Flavor) : Except ValidationError (Tree Flavor) :=
  match t with
  | .leaf _ _ l => .error (.notAContainer l.kind)
  | .group id flavor shape children => .ok (.group id flavor shape (children ++ [child.nested]))

theorem mapAll_eq_map (f : φ → ψ) (ts : List (Tree φ)) : mapAll f ts = ts.map (map f) := by
  induction ts with
  | nil => rfl
  | cons t ts ih => simp [mapAll, ih]

theorem preOrderAll_eq_flatMap (depth : Nat) (ts : List (Tree φ)) :
    preOrderAll depth ts = ts.flatMap (preOrder depth) := by
  induction ts with
  | nil => rfl
  | cons t ts ih => simp [preOrderAll, ih]

theorem walkAll_eq_foldl {σ : Type} (enter : σ → Tree φ → Nat → Bool × σ) (depth : Nat)
    (ts : List (Tree φ)) (s : σ) :
    walkAll enter depth ts s = ts.foldl (fun s t => walk enter depth t s) s := by
  induction ts generalizing s with
  | nil => rfl
  | cons t ts ih => simp [walkAll, ih]

end Tree

end LabelGrammar
