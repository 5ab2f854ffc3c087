/-! # Stores

A store keeps texts under keys. Any of its actions may fail.
-/

namespace LabelGrammar

/-- An action on the given key failed. -/
structure StoreError where
  key : String
  deriving DecidableEq, Repr

/-- Stores with states of type `σ`. A failing action may leave a changed state behind. -/
class Store (σ : Type) where
  get : σ → String → Except StoreError (Option String)
  set : σ → (key value : String) → Except StoreError Unit × σ
  /-- Removes a key. It is no failure if there is none. -/
  remove : σ → String → Except StoreError Unit × σ

end LabelGrammar
