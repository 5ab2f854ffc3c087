import LabelGrammar.Proofs.Json.Steps
import Mathlib.Data.List.Sort
import Mathlib.Data.String.Basic

/-! # Values in order

Every value that is read has the members of its objects in the order of their keys, each key
once, and so has a value that was sorted.
-/

namespace LabelGrammar.Json

/-- Members are in the order of their keys, each key once. -/
def Increasing (members : List (String × Json)) : Prop :=
  (members.map Prod.fst).Pairwise (· < ·)

inductive Ordered : Json → Prop
  | null : Ordered .null
  | bool (b : Bool) : Ordered (.bool b)
  | int (i : Int) : Ordered (.int i)
  | float (x : Binary64) : Ordered (.float x)
  | str (s : String) : Ordered (.str s)
  | arr {items : List Json} : (∀ v ∈ items, Ordered v) → Ordered (.arr items)
  | obj {members : List (String × Json)} : Increasing members →
      (∀ m ∈ members, Ordered m.2) → Ordered (.obj members)

variable {key : String} {v : Json} {members : List (String × Json)}

theorem ordered_obj_nil : Ordered (.obj []) := .obj .nil (List.forall_mem_nil _)

theorem mem_putMember {m : String × Json} (h : m ∈ putMember key v members) :
    m = (key, v) ∨ m ∈ members := by
  induction members with
  | nil => exact .inl (List.mem_singleton.1 h)
  | cons n rest ih =>
    unfold putMember at h
    split at h
    · exact (List.mem_cons.1 h).imp_right (List.mem_cons_of_mem n)
    · split at h
      · exact List.mem_cons.1 h
      · rcases List.mem_cons.1 h with rfl | h
        · exact .inr List.mem_cons_self
        · exact (ih h).imp_right (List.mem_cons_of_mem n)

theorem Increasing.putMember (h : Increasing members) :
    Increasing (putMember key v members) := by
  unfold Increasing at *
  induction members with
  | nil => exact List.pairwise_singleton _ _
  | cons n rest ih =>
    rw [List.map_cons, List.pairwise_cons] at h
    unfold Json.putMember
    split
    · next he =>
      subst he
      exact List.pairwise_cons.2 h
    · split
      · next hlt =>
        refine List.pairwise_cons.2 ⟨?_, List.pairwise_cons.2 h⟩
        rintro k hk
        rcases List.mem_cons.1 hk with rfl | hk
        · exact hlt
        · exact hlt.trans (h.1 k hk)
      · next hne hlt =>
        refine List.pairwise_cons.2 ⟨?_, ih h.2⟩
        rintro k hk
        obtain ⟨m, hm, rfl⟩ := List.mem_map.1 hk
        rcases mem_putMember hm with rfl | hm
        · exact lt_of_le_of_ne (not_lt.1 hlt) (Ne.symm hne)
        · exact h.1 m.1 (List.mem_map_of_mem hm)

theorem Ordered.putMember (h : Ordered (.obj members)) (hv : v.Ordered) :
    Ordered (.obj (putMember key v members)) := by
  cases h with
  | obj hi hm =>
    refine .obj hi.putMember ?_
    rintro m h
    rcases mem_putMember h with rfl | h
    · exact hv
    · exact hm m h

theorem ordered_sorted (v : Json) : v.sorted.Ordered := by
  refine sorted.induct (fun v => v.sorted.Ordered)
    (fun members => ∀ m ∈ sortedMembers members, m.2.Ordered)
    (fun items => ∀ v ∈ sortedItems items, v.Ordered)
    ?null ?bool ?int ?float ?str ?arr ?obj ?itemsNil ?itemsCons ?membersNil ?membersCons v
  case null => exact .null
  case bool => exact .bool
  case int => exact .int
  case float => exact .float
  case str => exact .str
  case arr => exact fun items ih => .arr ih
  case obj =>
    intro members ih
    rw [sorted, sortMembers]
    refine List.foldlRecOn (motive := fun members => Ordered (.obj members)) _ _ ordered_obj_nil ?_
    exact fun members h m hm => h.putMember (ih m hm)
  case itemsNil => exact List.forall_mem_nil _
  case itemsCons => exact fun v rest hv ih => List.forall_mem_cons.2 ⟨hv, ih⟩
  case membersNil => exact List.forall_mem_nil _
  case membersCons => exact fun k v rest hv ih => List.forall_mem_cons.2 ⟨hv, ih⟩

theorem member?_eq_none_iff : member? key members = none ↔ key ∉ members.map Prod.fst := by
  induction members with
  | nil => simp [member?]
  | cons m members ih =>
    rw [member?, List.map_cons, List.mem_cons, not_or, ← ih]
    by_cases hk : key = m.1
    · simp [hk]
    · simp [hk]

theorem isSome_member?_iff :
    (member? key members).isSome = true ↔ key ∈ members.map Prod.fst := by
  rw [Option.isSome_iff_ne_none, Ne, member?_eq_none_iff, not_not]

theorem mem_of_member? (h : member? key members = some v) : (key, v) ∈ members := by
  induction members with
  | nil => cases h
  | cons m members ih =>
    rw [member?] at h
    split at h
    · next hk =>
      cases h
      rw [hk]
      exact List.mem_cons_self
    · exact List.mem_cons_of_mem _ (ih h)

/-- Members in order are known by their keys and what stands under them. -/
theorem eq_of_member? {others : List (String × Json)} (hi : Increasing others)
    (hn : members.map Prod.fst = others.map Prod.fst)
    (h : ∀ m ∈ others, member? m.1 members = some m.2) : members = others := by
  induction others generalizing members with
  | nil => exact List.map_eq_nil_iff.1 hn
  | cons other others ih =>
    obtain ⟨⟨key, v⟩, rest, rfl, rfl, hrest⟩ := List.map_eq_cons_iff.1 hn
    rw [Increasing, List.map_cons, List.pairwise_cons] at hi
    rw [List.forall_mem_cons] at h
    obtain rfl : v = other.2 := by simpa [member?] using h.1
    refine congrArg _ (ih hi.2 hrest ?_)
    rintro m hm
    have hne : m.1 ≠ other.1 := (hi.1 m.1 (List.mem_map_of_mem hm)).ne'
    simpa [member?, hne] using h.2 m hm

theorem member?_of_mem (hi : Increasing members) {m : String × Json} (h : m ∈ members) :
    member? m.1 members = some m.2 := by
  obtain ⟨v, hv⟩ :=
    Option.isSome_iff_exists.1 (isSome_member?_iff.2 (List.mem_map_of_mem (f := Prod.fst) h))
  have he := List.inj_on_of_nodup_map hi.nodup (mem_of_member? hv) h rfl
  rw [hv, ← he]

theorem Increasing.ext {others : List (String × Json)} (hi : Increasing members)
    (ho : Increasing others) (h : ∀ key, member? key members = member? key others) :
    members = others := by
  refine eq_of_member? ho ?_ fun m hm => (h m.1).trans (member?_of_mem ho hm)
  apply List.Pairwise.eq_of_mem_iff hi ho
  intro key
  rw [← isSome_member?_iff, ← isSome_member?_iff, h]

theorem Scalar.ordered (h : v.Scalar) : v.Ordered := by
  cases v with
  | arr | obj => cases h
  | null => exact .null
  | bool b => exact .bool b
  | int i => exact .int i
  | float x => exact .float x
  | str s => exact .str s

def Frame.Ordered : Frame → Prop
  | .array reversed => ∀ v ∈ reversed, v.Ordered
  | .object members _ => Json.Ordered (.obj members)

namespace ReaderState

structure Ordered (state : ReaderState) : Prop where
  stack : ∀ frame ∈ state.stack, frame.Ordered
  result : ∀ v, state.expecting = .nothing v → v.Ordered

variable {stack : List Frame} {state next : ReaderState}

theorem ordered_initial : initial.Ordered := ⟨List.forall_mem_nil _, nofun⟩

theorem ordered_deliver (hv : v.Ordered) (hs : ∀ frame ∈ stack, frame.Ordered) :
    (deliver v stack).Ordered := by
  cases stack with
  | nil =>
    refine ⟨hs, ?_⟩
    rintro _ h
    obtain rfl := Expecting.nothing.inj h
    exact hv
  | cons frame stack =>
    rw [List.forall_mem_cons] at hs
    cases frame with
    | array reversed =>
      exact ⟨List.forall_mem_cons.2 ⟨List.forall_mem_cons.2 ⟨hv, hs.1⟩, hs.2⟩, nofun⟩
    | object members key =>
      exact ⟨List.forall_mem_cons.2 ⟨hs.1.putMember hv, hs.2⟩, nofun⟩

theorem Ordered.step (h : state.Ordered) (hn : Step state.stack next) : next.Ordered := by
  obtain ⟨stack, expecting⟩ := state
  have hs : ∀ frame ∈ stack, frame.Ordered := h.stack
  cases hn with
  | openArray => exact ⟨List.forall_mem_cons.2 ⟨List.forall_mem_nil _, hs⟩, nofun⟩
  | openObject => exact ⟨List.forall_mem_cons.2 ⟨ordered_obj_nil, hs⟩, nofun⟩
  | scalar hv => exact ordered_deliver hv.ordered hs
  | closeArray =>
    rw [List.forall_mem_cons] at hs
    exact ordered_deliver (.arr fun v hv => hs.1 v (List.mem_reverse.1 hv)) hs.2
  | closeObject =>
    rw [List.forall_mem_cons] at hs
    exact ordered_deliver hs.1 hs.2
  | key =>
    rw [List.forall_mem_cons] at hs
    exact ⟨List.forall_mem_cons.2 ⟨hs.1, hs.2⟩, nofun⟩
  | mark he => exact ⟨hs, fun v h => (he v h).elim⟩

end ReaderState

/-- Every value that is read is in order. -/
theorem ordered_of_parse? {text : String} (h : parse? text = some v) : v.Ordered := by
  obtain ⟨_, ho⟩ := parse?_induction ReaderState.ordered_initial ReaderState.Ordered.step h
  exact ho.result v rfl

end LabelGrammar.Json
