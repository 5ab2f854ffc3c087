import Mathlib.Data.Option.Basic
import LabelGrammar.Json.Reader

/-! # Steps of the reader

A token opens or closes an array or object, stands for a value without parts, or names a member.
What each of these steps keeps holds when a text has been read.
-/

namespace LabelGrammar.Json

open ReaderState

def Scalar : Json → Prop
  | .arr _ | .obj _ => False
  | _ => True

def Token.Scalar : Token → Prop
  | .atom v => v.Scalar
  | _ => True

variable {v : Json}

theorem scalar_numberValue {negative : Bool} {whole : List Char} {fraction : Option (List Char)}
    {exponent : Option Int} (h : numberValue? negative whole fraction exponent = some v) :
    v.Scalar := by
  have hfloat {x : Option Binary64} (h : x.map Json.float = some v) : v.Scalar := by
    obtain ⟨x, -, rfl⟩ := Option.map_eq_some_iff.1 h
    trivial
  unfold numberValue? at h
  simp only at h
  split at h
  · split at h
    · cases h
      trivial
    · split at h
      · cases h
        trivial
      · exact hfloat h
  · exact hfloat h

theorem scalar_readNumber {negative : Bool} {cs rest : List Char}
    (h : readNumber negative cs = some (v, rest)) : v.Scalar := by
  unfold readNumber at h
  simp only [Option.bind_eq_bind] at h
  split at h
  · cases h
  · simp only [Option.bind_eq_some_iff] at h
    obtain ⟨_, -, _, -, v', hv, h⟩ := h
    cases h
    exact scalar_numberValue hv

theorem scalar_readToken {cs rest : List Char} {token : Token}
    (h : readToken cs = some (token, rest)) : token.Scalar := by
  have hnumber {negative : Bool} {cs : List Char}
      (h : (readNumber negative cs).map (fun r => (Token.atom r.1, r.2)) = some (token, rest)) :
      token.Scalar := by
    obtain ⟨r, hr, he⟩ := Option.map_eq_some_iff.1 h
    obtain ⟨rfl, rfl⟩ := Prod.mk.inj he
    exact scalar_readNumber hr
  unfold readToken at h
  split at h
  case h_10 =>
    obtain ⟨r, -, he⟩ := Option.map_eq_some_iff.1 h
    obtain ⟨rfl, rfl⟩ := Prod.mk.inj he
    trivial
  case h_11 => exact hnumber h
  case h_12 => exact hnumber h
  all_goals
    cases h
    trivial

theorem scalar_tokensWithin {n : Nat} {cs : List Char} {ts : List Token}
    (h : tokensWithin n cs = some ts) : ∀ token ∈ ts, token.Scalar := by
  induction n generalizing cs ts with
  | zero =>
    unfold tokensWithin at h
    split at h
    · cases h
      exact List.forall_mem_nil _
    · cases h
  | succ n ih =>
    unfold tokensWithin at h
    split at h
    · cases h
      exact List.forall_mem_nil _
    · simp only [Option.bind_eq_bind, Option.bind_eq_some_iff] at h
      obtain ⟨⟨token, rest⟩, ht, us, hus, h⟩ := h
      cases h
      exact List.forall_mem_cons.2 ⟨scalar_readToken ht, ih hus⟩

/-- Where a token may lead, given the arrays and objects that are open. -/
inductive Step : List Frame → ReaderState → Prop where
  | openArray {stack : List Frame} : stack.length < depthLimit →
      Step stack ⟨.array [] :: stack, .itemOrEnd⟩
  | openObject {stack : List Frame} : stack.length < depthLimit →
      Step stack ⟨.object [] "" :: stack, .keyOrEnd⟩
  | scalar {stack : List Frame} {v : Json} : v.Scalar → Step stack (deliver v stack)
  | closeArray {stack : List Frame} {reversed : List Json} :
      Step (.array reversed :: stack) (deliver (.arr reversed.reverse) stack)
  | closeObject {stack : List Frame} {members : List (String × Json)} {key : String} :
      Step (.object members key :: stack) (deliver (.obj members) stack)
  | key {stack : List Frame} {members : List (String × Json)} {key key' : String} :
      Step (.object members key :: stack) ⟨.object members key' :: stack, .colon⟩
  | mark {stack : List Frame} {expecting : Expecting} : (∀ v, expecting ≠ .nothing v) →
      Step stack ⟨stack, expecting⟩

variable {stack : List Frame} {state next : ReaderState} {token : Token}

theorem step_stepValue (ht : token.Scalar) (h : stepValue stack token = some next) :
    Step stack next := by
  have hpush {frame : Frame} {expecting : Expecting} (h : push frame expecting stack = some next) :
      stack.length < depthLimit ∧ next = ⟨frame :: stack, expecting⟩ := by
    unfold push at h
    split at h
    · next hl => exact ⟨hl, (Option.some.inj h).symm⟩
    · cases h
  unfold stepValue at h
  split at h
  · obtain ⟨hl, rfl⟩ := hpush h
    exact .openArray hl
  · obtain ⟨hl, rfl⟩ := hpush h
    exact .openObject hl
  · cases h
    exact .scalar ht
  · cases h
    exact .scalar trivial
  · cases h

theorem step_stepKey (h : stepKey stack token = some next) : Step stack next := by
  unfold stepKey at h
  split at h
  · cases h
    exact .key
  · cases h

theorem step_stepClose (h : stepClose stack token = some next) : Step stack next := by
  unfold stepClose at h
  split at h
  · cases h
    exact .closeArray
  · cases h
    exact .closeObject
  · cases h

theorem step_of_step (ht : token.Scalar) (h : state.step token = some next) :
    Step state.stack next := by
  unfold ReaderState.step at h
  split at h
  · exact step_stepValue ht h
  · rcases (Option.orElse_eq_some ..).1 h with h | ⟨-, h⟩
    · exact step_stepClose h
    · exact step_stepValue ht h
  · rcases (Option.orElse_eq_some ..).1 h with h | ⟨-, h⟩
    · exact step_stepClose h
    · exact step_stepKey h
  · exact step_stepKey h
  · split at h
    · cases h
      exact .mark nofun
    · cases h
  · split at h
    · cases h
      exact .mark nofun
    · cases h
      exact .mark nofun
    · exact step_stepClose h
  · cases h

/-- What every step keeps is true when a text has been read. -/
theorem parse?_induction {P : ReaderState → Prop} (initial : P .initial)
    (step : ∀ {state next : ReaderState}, P state → Step state.stack next → P next)
    {text : String} (h : parse? text = some v) : ∃ stack, P ⟨stack, .nothing v⟩ := by
  have hfold {ts : List Token} {state next : ReaderState} (hs : P state)
      (ht : ∀ token ∈ ts, token.Scalar) (h : ts.foldlM ReaderState.step state = some next) :
      P next := by
    induction ts generalizing state with
    | nil =>
      cases h
      exact hs
    | cons token ts ih =>
      rw [List.forall_mem_cons] at ht
      rw [List.foldlM_cons, Option.bind_eq_bind, Option.bind_eq_some_iff] at h
      obtain ⟨state', hstep, h⟩ := h
      exact ih (step hs (step_of_step ht.1 hstep)) ht.2 h
  unfold parse? at h
  simp only [Option.bind_eq_bind, Option.bind_eq_some_iff] at h
  obtain ⟨ts, ht, ⟨stack, expecting⟩, hs, h⟩ := h
  have hp := hfold initial (scalar_tokensWithin ht) hs
  unfold ReaderState.result? at h
  split at h
  · next v' he =>
    cases h
    exact ⟨stack, he ▸ hp⟩
  · cases h

end LabelGrammar.Json
