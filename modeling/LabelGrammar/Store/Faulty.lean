import LabelGrammar.Store.Basic

/-! # Failing stores

A store some of whose actions fail, for the study of what a session makes of that.
-/

namespace LabelGrammar

inductive StoreAction where
  | get
  | set
  | remove
  deriving DecidableEq, Repr

/-- An action that fails, on one key or on every key. -/
structure Fault where
  action : StoreAction
  key : Option String
  deriving DecidableEq, Repr

/-- A store of which the listed actions fail without effect. -/
structure FaultyStore (σ : Type) where
  inner : σ
  faults : List Fault

namespace FaultyStore

variable {σ : Type}

def fails (s : FaultyStore σ) (action : StoreAction) (key : String) : Bool :=
  s.faults.any fun f => f.action == action && f.key.all (· == key)

instance [Store σ] : Store (FaultyStore σ) where
  get s key := if s.fails .get key then .error ⟨key⟩ else Store.get s.inner key
  set s key value :=
    if s.fails .set key then (.error ⟨key⟩, s)
    else
      let (result, inner) := Store.set s.inner key value
      (result, { s with inner })
  remove s key :=
    if s.fails .remove key then (.error ⟨key⟩, s)
    else
      let (result, inner) := Store.remove s.inner key
      (result, { s with inner })

end FaultyStore

end LabelGrammar
