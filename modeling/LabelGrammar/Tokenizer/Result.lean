import LabelGrammar.Document.Fields
import LabelGrammar.Grammar.Kind

/-! # Tokenizer results

What a tokenizer answers for a label, as it is sent, with fields that may be absent, and as the
session shows it.
-/

namespace LabelGrammar

structure WireToken where
  typeName : Option String
  value : Option String
  length : Nat
  id : Option NodeId
  error : Option String
  deriving DecidableEq, Repr

structure WireResult where
  success : Bool
  errors : List String
  tokens : List WireToken
  deriving DecidableEq, Repr

/-- A typed part of a label, or the error at which matching stopped. -/
structure Token where
  value : String
  length : Nat
  typeName : String
  source : Option NodeId
  error : Option String
  deriving DecidableEq, Repr

structure Tokenization where
  success : Bool
  errors : List String
  tokens : List Token
  deriving DecidableEq, Repr

def Token.isError (t : Token) : Bool := t.error.isSome

/-- Absent texts become empty. -/
def WireToken.toToken (t : WireToken) : Token :=
  ⟨t.value.getD "", t.length, t.typeName.getD "", t.id, t.error⟩

def WireResult.toTokenization (r : WireResult) : Tokenization :=
  ⟨r.success, r.errors, r.tokens.map WireToken.toToken⟩

def Json.ofOption : Option String → Json
  | some s => .str s
  | none => .null

def errorMember : Option String → List (String × Json)
  | some e => [("error", .str e)]
  | none => []

namespace WireToken

def toJson (t : WireToken) : Json :=
  .obj ([("token", .ofOption t.typeName), ("value", .ofOption t.value), ("length", .int t.length),
    ("id", .ofOption t.id)] ++ errorMember t.error)

def recordType : RecordType :=
  ⟨"WireToken", [.withDefault "token" Json.optionalText, .withDefault "value" Json.optionalText,
    .required "length" Json.natural, .withDefault "id" Json.optionalText,
    .withDefault "error" Json.optionalText], false⟩

def ofJson (v : Json) : Except FieldError WireToken := do
  let m ← recordType.members v
  return {
    typeName := ← readFieldOr none m "token" Json.optionalText
    value := ← readFieldOr none m "value" Json.optionalText
    length := ← readField m "length" Json.natural
    id := ← readFieldOr none m "id" Json.optionalText
    error := ← readFieldOr none m "error" Json.optionalText }

end WireToken

namespace WireResult

def toJson (r : WireResult) : Json :=
  .obj [("success", .bool r.success), ("_errors", .arr (r.errors.map .str)),
    ("tokens", .arr (r.tokens.map WireToken.toJson))]

def readTokens (v : Json) : Except FieldError (List WireToken) := do
  (← Json.list v).mapM WireToken.ofJson

def recordType : RecordType :=
  ⟨"WireResult", [.required "success" Json.boolean, .withDefault "_errors" Json.texts,
    .withDefault "tokens" readTokens], false⟩

def ofJson (v : Json) : Except FieldError WireResult := do
  let m ← recordType.members v
  return {
    success := ← readField m "success" Json.boolean
    errors := ← readFieldOr [] m "_errors" Json.texts
    tokens := ← readFieldOr [] m "tokens" readTokens }

def readAll (v : Json) : Except FieldError (List WireResult) := do
  (← Json.list v).mapM ofJson

end WireResult

def Token.toJson (t : Token) : Json :=
  .obj ([("value", .str t.value), ("length", .int t.length), ("type_name", .str t.typeName),
    ("source_node_id", .ofOption t.source)] ++ errorMember t.error)

def Tokenization.toJson (r : Tokenization) : Json :=
  .obj [("success", .bool r.success), ("errors", .arr (r.errors.map .str)),
    ("tokens", .arr (r.tokens.map Token.toJson))]

end LabelGrammar
