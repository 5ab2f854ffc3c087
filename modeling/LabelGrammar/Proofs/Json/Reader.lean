import LabelGrammar.Proofs.Json.Ordered
import LabelGrammar.Proofs.Json.Token

/-! # Reading back printed values

The text of a plain value on one line is read as that value with sorted members if arrays and
objects are not nested too deeply, and refused if they are.
-/

namespace LabelGrammar.Json

open ReaderState

mutual

/-- How deeply arrays and objects are nested. -/
def depth : Json → Nat
  | .arr items => 1 + depthItems items
  | .obj members => 1 + depthMembers members
  | _ => 0

def depthItems : List Json → Nat
  | [] => 0
  | v :: rest => max (depth v) (depthItems rest)

def depthMembers : List (String × Json) → Nat
  | [] => 0
  | (_, v) :: rest => max (depth v) (depthMembers rest)

end

theorem depth_arr_add_le {items : List Json} {n limit : Nat} :
    (Json.arr items).depth + n ≤ limit ↔
      n < limit ∧ ∀ v ∈ items, v.depth + (n + 1) ≤ limit := by
  rw [depth]
  induction items with
  | nil => simp [depthItems]; omega
  | cons v rest ih =>
    rw [depthItems, List.forall_mem_cons, and_left_comm, ← ih]
    omega

theorem depth_obj_add_le {members : List (String × Json)} {n limit : Nat} :
    (Json.obj members).depth + n ≤ limit ↔
      n < limit ∧ ∀ m ∈ members, m.2.depth + (n + 1) ≤ limit := by
  rw [depth]
  induction members with
  | nil => simp [depthMembers]; omega
  | cons m rest ih =>
    rw [depthMembers, List.forall_mem_cons, and_left_comm, ← ih]
    omega

section Steps

variable {stack : List Frame} {ts : List Token}

/-- The tokens of a value are read where a value must stand, within the limit of the depth. -/
def Reads (v : Json) : Prop := ∀ stack ts, stack.length ≤ depthLimit →
  (tokensOf v ++ ts).foldlM step ⟨stack, .value⟩ =
    if v.depth + stack.length ≤ depthLimit then ts.foldlM step (deliver v.sorted stack) else none

theorem foldlM_itemOrEnd (v : Json) (stack : List Frame) (ts : List Token) :
    (tokensOf v ++ ts).foldlM step ⟨stack, .itemOrEnd⟩ =
      (tokensOf v ++ ts).foldlM step ⟨stack, .value⟩ := by
  have hclose (token : Token) (h₁ : token ≠ .rightBracket) (h₂ : token ≠ .rightBrace) :
      step ⟨stack, .itemOrEnd⟩ token = step ⟨stack, .value⟩ token := by
    have hc : stepClose stack token = none := by
      unfold stepClose
      split
      · exact (h₁ rfl).elim
      · exact (h₂ rfl).elim
      · rfl
    change (stepClose stack token <|> stepValue stack token) = stepValue stack token
    rw [hc]
    rfl
  cases v <;> simp only [tokensOf, List.cons_append, List.foldlM_cons] <;>
    rw [hclose _ (by simp) (by simp)]

theorem foldlM_items {items : List Json} (h : ∀ v ∈ items, Reads v)
    (hl : stack.length < depthLimit) (reversed : List Json) :
    ((items.flatMap fun v => .comma :: tokensOf v) ++ .rightBracket :: ts).foldlM step
        ⟨.array reversed :: stack, .separator⟩ =
      if ∀ v ∈ items, v.depth + (stack.length + 1) ≤ depthLimit then
        ts.foldlM step (deliver (.arr (reversed.reverse ++ items.map sorted)) stack)
      else none := by
  induction items generalizing reversed with
  | nil => simp; rfl
  | cons v items ih =>
    rw [List.forall_mem_cons] at h
    simp only [List.flatMap_cons, List.cons_append, List.append_assoc, List.foldlM_cons]
    change List.foldlM step ⟨.array reversed :: stack, .value⟩ _ = _
    rw [h.1 (.array reversed :: stack) _ hl, List.length_cons]
    by_cases hv : v.depth + (stack.length + 1) ≤ depthLimit
    · rw [if_pos hv]
      change List.foldlM step ⟨.array (v.sorted :: reversed) :: stack, .separator⟩ _ = _
      rw [ih h.2]
      simp [hv]
    · rw [if_neg hv, if_neg fun hall => hv (hall v List.mem_cons_self)]

theorem foldlM_array {items : List Json} (h : ∀ v ∈ items, Reads v)
    (hl : stack.length < depthLimit) :
    (tokensOfItems items ++ .rightBracket :: ts).foldlM step ⟨.array [] :: stack, .itemOrEnd⟩ =
      if ∀ v ∈ items, v.depth + (stack.length + 1) ≤ depthLimit then
        ts.foldlM step (deliver (.arr (items.map sorted)) stack)
      else none := by
  cases items with
  | nil => simp [tokensOfItems]; rfl
  | cons v items =>
    rw [List.forall_mem_cons] at h
    rw [tokensOfItems_cons, List.append_assoc, foldlM_itemOrEnd,
      h.1 (.array [] :: stack) _ hl, List.length_cons]
    by_cases hv : v.depth + (stack.length + 1) ≤ depthLimit
    · rw [if_pos hv]
      change List.foldlM step ⟨.array [v.sorted] :: stack, .separator⟩ _ = _
      rw [foldlM_items h.2 hl]
      simp [hv]
    · rw [if_neg hv, if_neg fun hall => hv (hall v List.mem_cons_self)]

theorem Reads.array {items : List Json} (h : ∀ v ∈ items, Reads v) : Reads (.arr items) := by
  intro stack ts _
  simp only [tokensOf, List.cons_append, List.append_assoc, List.nil_append, List.foldlM_cons,
    depth_arr_add_le]
  change (push (.array []) .itemOrEnd stack).bind _ = _
  unfold push
  by_cases hl : stack.length < depthLimit
  · rw [if_pos hl, Option.bind_some, foldlM_array h hl]
    simp only [hl, true_and, sorted, sortedItems_eq_map]
  · rw [if_neg hl, if_neg fun hc => hl hc.1]
    rfl

theorem foldlM_member {m : String × Json} (h : Reads m.2) (hl : stack.length < depthLimit)
    (members : List (String × Json)) (key : String) :
    (memberTokens m ++ ts).foldlM step ⟨.object members key :: stack, .key⟩ =
      if m.2.depth + (stack.length + 1) ≤ depthLimit then
        ts.foldlM step ⟨.object (putMember m.1 m.2.sorted members) m.1 :: stack, .separator⟩
      else none := by
  rw [memberTokens, List.cons_append, List.cons_append, List.foldlM_cons]
  change List.foldlM step ⟨.object members m.1 :: stack, .value⟩ _ = _
  rw [h (.object members m.1 :: stack) _ hl, List.length_cons]
  rfl

theorem foldlM_keyOrEnd (m : String × Json) (members : List (String × Json)) (key : String) :
    (memberTokens m ++ ts).foldlM step ⟨.object members key :: stack, .keyOrEnd⟩ =
      (memberTokens m ++ ts).foldlM step ⟨.object members key :: stack, .key⟩ := rfl

def putSorted (members : List (String × Json)) (m : String × Json) : List (String × Json) :=
  putMember m.1 m.2.sorted members

theorem foldlM_members {ms : List (String × Json)} (h : ∀ m ∈ ms, Reads m.2)
    (hl : stack.length < depthLimit) (members : List (String × Json)) (key : String) :
    ((ms.flatMap fun m => .comma :: memberTokens m) ++ .rightBrace :: ts).foldlM step
        ⟨.object members key :: stack, .separator⟩ =
      if ∀ m ∈ ms, m.2.depth + (stack.length + 1) ≤ depthLimit then
        ts.foldlM step (deliver (.obj (ms.foldl putSorted members)) stack)
      else none := by
  induction ms generalizing members key with
  | nil => simp; rfl
  | cons m ms ih =>
    rw [List.forall_mem_cons] at h
    simp only [List.flatMap_cons, List.cons_append, List.append_assoc, List.foldlM_cons]
    change List.foldlM step ⟨.object members key :: stack, .key⟩ _ = _
    rw [foldlM_member h.1 hl]
    by_cases hm : m.2.depth + (stack.length + 1) ≤ depthLimit
    · rw [if_pos hm, ih h.2]
      simp only [List.forall_mem_cons, hm, true_and]
      rfl
    · rw [if_neg hm, if_neg fun hall => hm (hall m List.mem_cons_self)]

theorem foldlM_object {ms : List (String × Json)} (h : ∀ m ∈ ms, Reads m.2)
    (hl : stack.length < depthLimit) :
    (tokensOfMembers ms ++ .rightBrace :: ts).foldlM step ⟨.object [] "" :: stack, .keyOrEnd⟩ =
      if ∀ m ∈ ms, m.2.depth + (stack.length + 1) ≤ depthLimit then
        ts.foldlM step (deliver (.obj (ms.foldl putSorted [])) stack)
      else none := by
  cases ms with
  | nil => simp [tokensOfMembers]; rfl
  | cons m ms =>
    rw [List.forall_mem_cons] at h
    rw [tokensOfMembers_cons, List.append_assoc, foldlM_keyOrEnd, foldlM_member h.1 hl]
    by_cases hm : m.2.depth + (stack.length + 1) ≤ depthLimit
    · rw [if_pos hm, foldlM_members h.2 hl]
      simp only [List.forall_mem_cons, hm, true_and]
      rfl
    · rw [if_neg hm, if_neg fun hall => hm (hall m List.mem_cons_self)]

theorem sorted_obj (members : List (String × Json)) :
    (Json.obj members).sorted = .obj (members.foldl putSorted []) := by
  rw [sorted, sortMembers, sortedMembers_eq_map, List.foldl_map]
  rfl

theorem Reads.object {members : List (String × Json)} (h : ∀ m ∈ members, Reads m.2) :
    Reads (.obj members) := by
  intro stack ts _
  simp only [tokensOf, List.cons_append, List.append_assoc, List.nil_append, List.foldlM_cons,
    depth_obj_add_le]
  change (push (.object [] "") .keyOrEnd stack).bind _ = _
  unfold push
  by_cases hl : stack.length < depthLimit
  · rw [if_pos hl, Option.bind_some, foldlM_object h hl]
    simp only [hl, true_and, sorted_obj]
  · rw [if_neg hl, if_neg fun hc => hl hc.1]
    rfl

theorem Reads.atom {v : Json} {token : Token} (ht : tokensOf v = [token]) (hd : v.depth = 0)
    (hs : ∀ stack, step ⟨stack, .value⟩ token = some (deliver v.sorted stack)) : Reads v := by
  intro stack ts hl
  rw [ht, hd, Nat.zero_add, if_pos hl, List.singleton_append, List.foldlM_cons, hs]
  rfl

theorem Plain.reads {v : Json} (h : Plain v) : Reads v := by
  induction h with
  | null => exact .atom rfl (by simp [depth]) fun _ => rfl
  | bool b => exact .atom rfl (by simp [depth]) fun _ => rfl
  | int _ _ => exact .atom rfl (by simp [depth]) fun _ => rfl
  | str s => exact .atom rfl (by simp [depth]) fun _ => rfl
  | arr _ ih => exact .array ih
  | obj _ ih => exact .object ih

end Steps

/-- The reader inverts the writer up to the limit of the depth, and refuses what is deeper. -/
theorem Plain.parse_compact {v : Json} (h : Plain v) :
    parse? v.compact = if v.depth ≤ depthLimit then some v.sorted else none := by
  have hr := h.reads [] [] (Nat.zero_le _)
  rw [List.append_nil, List.length_nil, Nat.add_zero] at hr
  rw [parse?, compact, String.toList_ofList, h.tokens_eq]
  change (List.foldlM step ⟨[], .value⟩ (tokensOf v)).bind result? = _
  rw [hr]
  split <;> rfl

def Frame.values : Frame → List Json
  | .array reversed => reversed
  | .object members _ => members.map Prod.snd

/-- Open arrays and objects and what they hold are within the limit of the depth. -/
def Nested : List Frame → Prop
  | [] => True
  | frame :: stack => stack.length < depthLimit ∧
      (∀ v ∈ frame.values, v.depth + (stack.length + 1) ≤ depthLimit) ∧ Nested stack

namespace ReaderState

structure Nested (state : ReaderState) : Prop where
  stack : Json.Nested state.stack
  result : ∀ v, state.expecting = .nothing v → v.depth ≤ depthLimit

variable {stack : List Frame} {state next : ReaderState} {v : Json}

theorem nested_initial : initial.Nested := ⟨trivial, nofun⟩

theorem nested_deliver (hv : v.depth + stack.length ≤ depthLimit) (hs : Json.Nested stack) :
    (deliver v stack).Nested := by
  cases stack with
  | nil =>
    refine ⟨trivial, ?_⟩
    rintro _ h
    obtain rfl := Expecting.nothing.inj h
    exact hv
  | cons frame stack =>
    obtain ⟨hl, hvs, hs⟩ := hs
    cases frame with
    | array reversed => exact ⟨⟨hl, List.forall_mem_cons.2 ⟨hv, hvs⟩, hs⟩, nofun⟩
    | object members key =>
      refine ⟨⟨hl, ?_, hs⟩, nofun⟩
      rintro _ hw
      obtain ⟨m, hm, rfl⟩ := List.mem_map.1 hw
      rcases mem_putMember hm with rfl | hm
      · exact hv
      · exact hvs m.2 (List.mem_map_of_mem hm)

theorem nested_deliver_scalar (hv : v.Scalar) (hs : Json.Nested stack) :
    (deliver v stack).Nested := by
  have hl : stack.length ≤ depthLimit := by
    cases stack with
    | nil => exact Nat.zero_le _
    | cons frame stack => exact hs.1
  have hd : v.depth = 0 := by cases v <;> first | rfl | cases hv
  exact nested_deliver (by omega) hs

theorem Nested.step (h : state.Nested) (hn : Step state.stack next) : next.Nested := by
  obtain ⟨stack, expecting⟩ := state
  have hs : Json.Nested stack := h.stack
  cases hn with
  | openArray hl | openObject hl => exact ⟨⟨hl, List.forall_mem_nil _, hs⟩, nofun⟩
  | scalar hv => exact nested_deliver_scalar hv hs
  | closeArray =>
    obtain ⟨hl, hvs, hs⟩ := hs
    refine nested_deliver (depth_arr_add_le.2 ⟨hl, ?_⟩) hs
    exact fun v hv => hvs v (List.mem_reverse.1 hv)
  | closeObject =>
    obtain ⟨hl, hvs, hs⟩ := hs
    refine nested_deliver (depth_obj_add_le.2 ⟨hl, ?_⟩) hs
    exact fun m hm => hvs m.2 (List.mem_map_of_mem hm)
  | key => exact ⟨hs, nofun⟩
  | mark he => exact ⟨hs, fun v h => (he v h).elim⟩

end ReaderState

/-- No value that is read is nested more deeply than the limit. -/
theorem depth_le_of_parse? {v : Json} {text : String} (h : parse? text = some v) :
    v.depth ≤ depthLimit := by
  obtain ⟨_, hn⟩ := parse?_induction ReaderState.nested_initial ReaderState.Nested.step h
  exact hn.result v rfl

end LabelGrammar.Json
