import LabelGrammar.Workspace.Basic

/-! # Drawing ids

A random source offers candidates, of which the first that was never issued is taken. A source
that offers none gives way to an id that is longer than every issued one.
-/

namespace LabelGrammar

def idAlphabet : List Char :=
  "!#$%()*+,-./:;=?@[]^_`\x7b|\x7d~".toList ++
    "ABCDEFGHIJKLMNOPQRSTUVWXYZabcdefghijklmnopqrstuvwxyz0123456789".toList

def idLength : Nat := 20

def idDigits : (length n : Nat) → List Char
  | 0, _ => []
  | length + 1, n =>
    idAlphabet.getD (n % idAlphabet.length) '!' :: idDigits length (n / idAlphabet.length)

def NodeId.ofNumber (n : Nat) : NodeId := String.ofList (idDigits idLength n).reverse

def idCount : Nat := Nat.pow idAlphabet.length idLength

namespace Workspace

/-- An id that is longer than every issued one. -/
def unused (w : Workspace) : NodeId :=
  String.ofList (List.replicate (w.issued.foldl (fun n id => max n id.length) 0 + 1) 'a')

/-- The first offer that was never issued. -/
def pick (w : Workspace) (offers : List NodeId) : NodeId :=
  (offers.find? (· ∉ w.issued)).getD w.unused

theorem length_le_foldl_max (ids : List NodeId) (n : Nat) :
    n ≤ ids.foldl (fun n id => max n id.length) n ∧
      ∀ id ∈ ids, id.length ≤ ids.foldl (fun n id => max n id.length) n := by
  induction ids generalizing n with
  | nil => simp
  | cons i ids ih =>
    obtain ⟨h₁, h₂⟩ := ih (max n i.length)
    refine ⟨by simp only [List.foldl_cons]; omega, fun id hid => ?_⟩
    simp only [List.foldl_cons]
    rcases List.mem_cons.1 hid with rfl | hid
    · omega
    · exact h₂ id hid

theorem unused_not_mem_issued (w : Workspace) : w.unused ∉ w.issued := by
  intro h
  have := (length_le_foldl_max w.issued 0).2 _ h
  simp only [unused, String.length_ofList, List.length_replicate] at this
  omega

theorem pick_not_mem_issued (w : Workspace) (offers : List NodeId) :
    w.pick offers ∉ w.issued := by
  unfold pick
  cases h : offers.find? (· ∉ w.issued) with
  | none => simpa using unused_not_mem_issued w
  | some id => simpa using List.find?_some h

end Workspace

end LabelGrammar
