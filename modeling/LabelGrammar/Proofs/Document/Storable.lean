import LabelGrammar.Number.Limits
import LabelGrammar.Proofs.Forest.Edit

/-! # Storable trees

The trees that a document for storage can be read back from: the fields of leaves pass their
checks, and the flavors are those that reading gives.
-/

namespace LabelGrammar

/-- The fields of a leaf pass its checks. -/
def Leaf.Valid : Leaf → Prop
  | .string pattern typeName => pattern ≠ "" ∧ typeName ≠ ""
  | .rest typeName => typeName ≠ ""
  | .substring length typeName => 1 ≤ length ∧ length ≤ Limits.maxInteger64 ∧ typeName ≠ ""

instance : DecidablePred Leaf.Valid
  | .string pattern typeName => inferInstanceAs (Decidable (pattern ≠ "" ∧ typeName ≠ ""))
  | .rest typeName => inferInstanceAs (Decidable (typeName ≠ ""))
  | .substring length typeName =>
    inferInstanceAs (Decidable (1 ≤ length ∧ length ≤ Limits.maxInteger64 ∧ typeName ≠ ""))

section Results

variable {ε ε' α β : Type}

theorem bind_eq_ok_iff {x : Except ε α} {f : α → Except ε β} {b : β} :
    x >>= f = .ok b ↔ ∃ a, x = .ok a ∧ f a = .ok b := by
  cases x <;> simp [bind, Except.bind]

theorem map_eq_ok_iff {x : Except ε α} {f : α → β} {b : β} :
    x.map f = .ok b ↔ ∃ a, x = .ok a ∧ f a = b := by
  cases x <;> simp [Except.map]

theorem mapError_eq_ok_iff {x : Except ε α} {f : ε → ε'} {a : α} :
    x.mapError f = .ok a ↔ x = .ok a := by
  cases x <;> simp [Except.mapError]

end Results

theorem nonEmpty_eq_ok_iff {field : Field} {value s : String} :
    nonEmpty field value = .ok s ↔ value ≠ "" ∧ s = value := by
  unfold nonEmpty
  split
  · next hv => simp [hv]
  · next hv => simp [hv, eq_comm]

theorem positiveLength_eq_ok_iff {value : Int} {n : Nat} :
    positiveLength value = .ok n ↔ 0 < value ∧ n = value.toNat := by
  unfold positiveLength
  split
  · next hv => simp [Int.not_lt.2 hv]
  · next hv => rw [Except.ok.injEq]; omega

namespace Leaf

variable {pattern typeName : String} {length : Int} {l : Leaf}

theorem makeString_eq_ok_iff :
    makeString pattern typeName = .ok l ↔ l = .string pattern typeName ∧ l.Valid := by
  simp only [makeString, bind_eq_ok_iff, nonEmpty_eq_ok_iff]
  constructor
  · rintro ⟨_, ⟨hp, rfl⟩, _, ⟨ht, rfl⟩, h⟩
    obtain rfl := Except.ok.inj h
    exact ⟨rfl, hp, ht⟩
  · rintro ⟨rfl, hp, ht⟩
    exact ⟨pattern, ⟨hp, rfl⟩, typeName, ⟨ht, rfl⟩, rfl⟩

theorem makeRest_eq_ok_iff : makeRest typeName = .ok l ↔ l = .rest typeName ∧ l.Valid := by
  simp only [makeRest, bind_eq_ok_iff, nonEmpty_eq_ok_iff]
  constructor
  · rintro ⟨_, ⟨ht, rfl⟩, h⟩
    obtain rfl := Except.ok.inj h
    exact ⟨rfl, ht⟩
  · rintro ⟨rfl, ht⟩
    exact ⟨typeName, ⟨ht, rfl⟩, rfl⟩

theorem makeSubstring_eq_ok_iff (hl : length ≤ Limits.maxInteger64) :
    makeSubstring length typeName = .ok l ↔ l = .substring length.toNat typeName ∧ l.Valid := by
  simp only [makeSubstring, bind_eq_ok_iff, nonEmpty_eq_ok_iff, positiveLength_eq_ok_iff]
  constructor
  · rintro ⟨_, ⟨hp, rfl⟩, _, ⟨ht, rfl⟩, h⟩
    obtain rfl := Except.ok.inj h
    exact ⟨rfl, by omega, by omega, ht⟩
  · rintro ⟨rfl, hp, -, ht⟩
    exact ⟨length.toNat, ⟨by omega, rfl⟩, typeName, ⟨ht, rfl⟩, rfl⟩

end Leaf

namespace Tree

/-- A tree can be stored at its position and read back. -/
structure Storable (atRoot : Bool) (t : Tree Flavor) : Prop where
  fields : ∀ u ∈ t.subtrees, ∀ l, u.rule = .leaf l → l.Valid
  denotes : ∀ u ∈ t.subtrees, u.kind ≠ .sequence → u.flavor.denotes u.kind = true
  root : t.kind = .sequence → t.flavor = .default .sequence atRoot
  inner : ∀ u ∈ t.subtrees, ∀ c ∈ u.children, c.kind = .sequence →
    c.flavor = .default .sequence false

variable {atRoot : Bool} {t c : Tree Flavor}

theorem Storable.child (h : t.Storable atRoot) (hc : c ∈ t.children) : c.Storable false where
  fields u hu := h.fields u (mem_subtrees_of_child hc hu)
  denotes u hu := h.denotes u (mem_subtrees_of_child hc hu)
  root := h.inner t t.self_mem_subtrees c hc
  inner u hu := h.inner u (mem_subtrees_of_child hc hu)

theorem storable_of_children (hf : ∀ l, t.rule = .leaf l → l.Valid)
    (hd : t.kind ≠ .sequence → t.flavor.denotes t.kind = true)
    (hr : t.kind = .sequence → t.flavor = .default .sequence atRoot)
    (hc : ∀ c ∈ t.children, c.Storable false) : t.Storable atRoot where
  fields u hu := by
    rcases mem_subtrees.1 hu with rfl | ⟨c, hm, hu⟩
    · exact hf
    · exact (hc c hm).fields u hu
  denotes u hu := by
    rcases mem_subtrees.1 hu with rfl | ⟨c, hm, hu⟩
    · exact hd
    · exact (hc c hm).denotes u hu
  root := hr
  inner u hu := by
    rcases mem_subtrees.1 hu with rfl | ⟨c, hm, hu⟩
    · exact fun c hm => (hc c hm).root
    · exact (hc c hm).inner u hu

theorem Storable.flavor_denotes (h : t.Storable atRoot) : t.flavor.denotes t.kind = true := by
  by_cases hk : t.kind = .sequence
  · rw [h.root hk, hk]
    exact Flavor.denotes_default _ _
  · exact h.denotes t t.self_mem_subtrees hk

end Tree

end LabelGrammar
