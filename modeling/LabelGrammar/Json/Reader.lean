import LabelGrammar.Json.Token

/-! # Reading JSON

Tokens are read from left to right against a stack of open arrays and objects. The height of the
stack is the nesting depth, which is bounded.
-/

namespace LabelGrammar.Json

/-- An array or object that is still open, with what was read of it. -/
inductive Frame where
  | array (reversed : List Json)
  | object (members : List (String × Json)) (key : String)

/-- What may come next. -/
inductive Expecting where
  | value
  | itemOrEnd
  | keyOrEnd
  | key
  | colon
  | separator
  | nothing (result : Json)

structure ReaderState where
  stack : List Frame
  expecting : Expecting

/-- The greatest number of arrays and objects around a value. -/
def depthLimit : Nat := 127

namespace ReaderState

def initial : ReaderState := ⟨[], .value⟩

/-- Hands a finished value to the innermost open array or object. -/
def deliver (v : Json) : List Frame → ReaderState
  | [] => ⟨[], .nothing v⟩
  | .array reversed :: stack => ⟨.array (v :: reversed) :: stack, .separator⟩
  | .object members key :: stack => ⟨.object (putMember key v members) key :: stack, .separator⟩

def push (frame : Frame) (expecting : Expecting) (stack : List Frame) : Option ReaderState :=
  if stack.length < depthLimit then some ⟨frame :: stack, expecting⟩ else none

def stepValue (stack : List Frame) : Token → Option ReaderState
  | .leftBracket => push (.array []) .itemOrEnd stack
  | .leftBrace => push (.object [] "") .keyOrEnd stack
  | .atom v => some (deliver v stack)
  | .string s => some (deliver (.str s) stack)
  | _ => none

def stepKey : List Frame → Token → Option ReaderState
  | .object members _ :: stack, .string key => some ⟨.object members key :: stack, .colon⟩
  | _, _ => none

def stepClose : List Frame → Token → Option ReaderState
  | .array reversed :: stack, .rightBracket => some (deliver (.arr reversed.reverse) stack)
  | .object members _ :: stack, .rightBrace => some (deliver (.obj members) stack)
  | _, _ => none

def step (state : ReaderState) (token : Token) : Option ReaderState :=
  match state.expecting with
  | .value => stepValue state.stack token
  | .itemOrEnd => stepClose state.stack token <|> stepValue state.stack token
  | .keyOrEnd => stepClose state.stack token <|> stepKey state.stack token
  | .key => stepKey state.stack token
  | .colon =>
    match token with
    | .colon => some ⟨state.stack, .value⟩
    | _ => none
  | .separator =>
    match token, state.stack with
    | .comma, .array _ :: _ => some ⟨state.stack, .value⟩
    | .comma, .object _ _ :: _ => some ⟨state.stack, .key⟩
    | token, stack => stepClose stack token
  | .nothing _ => none

def result? (state : ReaderState) : Option Json :=
  match state.expecting with
  | .nothing v => some v
  | _ => none

end ReaderState

/-- The value that a text writes, with the members of its objects sorted by key. -/
def parse? (text : String) : Option Json := do
  let tokens ← tokens text.toList
  let state ← tokens.foldlM ReaderState.step .initial
  state.result?

end LabelGrammar.Json
