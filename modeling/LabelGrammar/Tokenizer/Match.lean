import LabelGrammar.Grammar.Tree
import LabelGrammar.Tokenizer.Result

/-! # Matching labels

Matching is ordered and never goes back: a choice takes its first child that matches without
error and yields a token, a sequence stops at its first child that fails. Lengths count
characters.
-/

namespace LabelGrammar

/-- A matched part of a label, or the error that stopped matching. -/
inductive Piece where
  | matched (id : NodeId) (typeName : String) (value : List Char)
  | failed (id : NodeId) (error : String)
  deriving DecidableEq, Repr

namespace Piece

def error? : Piece → Option String
  | .matched _ _ _ => none
  | .failed _ error => some error

def value : Piece → List Char
  | .matched _ _ value => value
  | .failed _ _ => []

def toWireToken : Piece → WireToken
  | .matched id typeName value =>
    ⟨some typeName, some (String.ofList value), value.length, some id, none⟩
  | .failed id error => ⟨none, none, 0, some id, some error⟩

def firstError? (pieces : List Piece) : Option String := pieces.findSome? error?

def consumed (pieces : List Piece) : List Char := pieces.flatMap value

end Piece

def Leaf.run (id : NodeId) (target : List Char) : Leaf → Piece
  | .string pattern typeName =>
    let chars := pattern.toList
    if chars.isPrefixOf target then .matched id typeName chars
    else .failed id s!"Expected {pattern}, got {String.ofList (target.take chars.length)}"
  | .rest typeName => .matched id typeName target
  | .substring length typeName =>
    let taken := target.take length
    if taken.length = length then .matched id typeName taken
    else .failed id s!"Expected {length} characters, got {String.ofList taken}"

namespace Tree

variable {φ : Type}

mutual

/-- The pieces of a text that a tree matches. -/
def run (target : List Char) : Tree φ → List Piece
  | .leaf id _ l => [l.run id target]
  | .group _ _ .sequence children => runAll target children
  | .group id _ .choice children =>
    match runFirst target children with
    | .ok pieces => pieces
    | .error errors => [.failed id (" | ".intercalate errors)]

def runAll (target : List Char) : List (Tree φ) → List Piece
  | [] => []
  | t :: ts =>
    let pieces := run target t
    if (Piece.firstError? pieces).isSome then pieces
    else pieces ++ runAll (target.drop (Piece.consumed pieces).length) ts

/-- The pieces of the first tree that matches with at least one piece, or the errors of all. -/
def runFirst (target : List Char) : List (Tree φ) → Except (List String) (List Piece)
  | [] => .error []
  | t :: ts =>
    let pieces := run target t
    match Piece.firstError? pieces with
    | some e => (runFirst target ts).mapError (e :: ·)
    | none => if pieces.isEmpty then runFirst target ts else .ok pieces

end

/-- The result for one label. It succeeds if there is no error and the whole label is matched. -/
def evaluate (t : Tree φ) (label : String) : WireResult :=
  let pieces := t.run label.toList
  let errors := pieces.filterMap Piece.error?
  { success := errors.isEmpty && (Piece.consumed pieces).length == label.length
    errors
    tokens := pieces.map Piece.toWireToken }

end Tree

end LabelGrammar
