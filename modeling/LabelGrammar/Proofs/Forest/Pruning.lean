import Mathlib.Data.List.Induction
import Mathlib.Data.List.Lex
import LabelGrammar.Proofs.Forest.Basic

/-! # Walks that leave nodes out

What a visitor answers may depend on all that it has seen, and what it sees depends on its answers.
A node is told apart by the way to it, since equal subtrees may stand in several places. Then a walk
calls the visitor for just those nodes above which there was no refusal, in pre-order.
-/

namespace LabelGrammar.Tree

variable {φ σ : Type}

def nodeAt? (t : Tree φ) : List Nat → Option (Tree φ)
  | [] => some t
  | i :: way => t.children[i]?.bind fun c => c.nodeAt? way

/-- The first way leads to a proper ancestor of the node at the end of the second. There are as many
of them as the second way has steps. -/
def Above (way way' : List Nat) : Prop := way <+: way' ∧ way ≠ way'

structure Call (φ : Type) where
  node : Tree φ
  depth : Nat
  answer : Bool

structure Visit (φ : Type) extends Call φ where
  way : List Nat

/-- A visitor that keeps a record of its calls beside its state. -/
def recording (enter : σ → Tree φ → Nat → Bool × σ) (x : σ × List (Call φ)) (t : Tree φ)
    (depth : Nat) : Bool × σ × List (Call φ) :=
  let (answer, s) := enter x.1 t depth
  (answer, s, x.2 ++ [⟨t, depth, answer⟩])

/-- Among the nodes that ways lead to, just those are visited above which no answer was `false`,
each of them once. Ways are compared from the left, so that a node comes before those below it, and
those come before its later siblings. The empty way has the depth `base`. -/
structure Unpruned (find? : List Nat → Option (Tree φ)) (base : Nat) (visits : List (Visit φ)) :
    Prop where
  node : ∀ v ∈ visits, find? v.way = some v.node
  depth : ∀ v ∈ visits, v.depth = base + v.way.length
  visited_iff {way : List Nat} {u : Tree φ} : find? way = some u →
    (way ∈ visits.map Visit.way ↔ ∀ v ∈ visits, Above v.way way → v.answer = true)
  ordered : (visits.map Visit.way).Pairwise (· < ·)

/-- The node at the end of a way from above the given trees. -/
def below? (ts : List (Tree φ)) : List Nat → Option (Tree φ)
  | [] => none
  | i :: way => ts[i]?.bind fun c => c.nodeAt? way

variable {t c u : Tree φ} {ts : List (Tree φ)} {i j depth : Nat} {way way' : List Nat}
  {visits others : List (Visit φ)}

theorem above_cons_cons : Above (i :: way) (j :: way') ↔ i = j ∧ Above way way' := by
  rw [Above, Above, List.cons_prefix_cons]
  constructor
  · rintro ⟨⟨rfl, hp⟩, hn⟩
    exact ⟨rfl, hp, fun he => hn (he ▸ rfl)⟩
  · rintro ⟨rfl, hp, hn⟩
    exact ⟨⟨rfl, hp⟩, fun he => hn (List.cons.inj he).2⟩

theorem not_above_nil : ¬ Above way [] := fun h => h.2 (List.prefix_nil.1 h.1)

theorem exists_of_below? (h : below? ts way = some u) :
    ∃ i way', way = i :: way' ∧ i < ts.length := by
  cases way with
  | nil => cases h
  | cons i way =>
    obtain ⟨c, hc, -⟩ := Option.bind_eq_some_iff.1 h
    exact ⟨i, way, rfl, (List.getElem?_eq_some_iff.1 hc).1⟩

theorem below?_append (h : i < ts.length) (way : List Nat) :
    below? (ts ++ [c]) (i :: way) = below? ts (i :: way) := by
  rw [below?, below?, List.getElem?_append_left h]

theorem below?_length (ts : List (Tree φ)) (c : Tree φ) (way : List Nat) :
    below? (ts ++ [c]) (ts.length :: way) = c.nodeAt? way := by
  rw [below?, List.getElem?_concat_length]
  rfl

def Visit.under (i : Nat) (v : Visit φ) : Visit φ := { v with way := i :: v.way }

theorem Unpruned.exists_way (h : Unpruned (below? ts) depth visits) {v : Visit φ}
    (hv : v ∈ visits) : ∃ i way, v.way = i :: way ∧ i < ts.length :=
  exists_of_below? (h.node v hv)

theorem Unpruned.refused (t : Tree φ) (depth : Nat) :
    Unpruned t.nodeAt? depth [⟨⟨t, depth, false⟩, []⟩] := by
  constructor
  case node => exact List.forall_mem_singleton.2 rfl
  case depth => exact List.forall_mem_singleton.2 rfl
  case visited_iff =>
    intro way u _
    cases way with
    | nil => simp [not_above_nil]
    | cons i way => simp [Above]
  case ordered => exact List.pairwise_singleton _ _

theorem Unpruned.entered (h : Unpruned (below? t.children) depth visits) :
    Unpruned t.nodeAt? depth (⟨⟨t, depth, true⟩, []⟩ :: visits) := by
  constructor
  case node =>
    refine List.forall_mem_cons.2 ⟨rfl, fun v hv => ?_⟩
    obtain ⟨i, way, hw, -⟩ := h.exists_way hv
    have hn := h.node v hv
    rw [hw] at hn ⊢
    exact hn
  case depth => exact List.forall_mem_cons.2 ⟨rfl, h.depth⟩
  case visited_iff =>
    intro way u hu
    cases way with
    | nil => simp [not_above_nil]
    | cons i way =>
      have hb : below? t.children (i :: way) = some u := hu
      simpa using h.visited_iff hb
  case ordered =>
    refine List.pairwise_cons.2 ⟨List.forall_mem_map.2 fun v hv => ?_, h.ordered⟩
    obtain ⟨i, way, hw, -⟩ := h.exists_way hv
    rw [hw]
    exact List.nil_lt_cons i way

theorem Unpruned.nil (depth : Nat) : Unpruned (below? ([] : List (Tree φ))) depth [] where
  node := List.forall_mem_nil _
  depth := List.forall_mem_nil _
  visited_iff hu := by
    obtain ⟨i, way, -, hi⟩ := exists_of_below? hu
    cases hi
  ordered := .nil

/-- What is answered below one child has no bearing on what is visited below another. -/
theorem Unpruned.visited_snoc_iff (h : Unpruned (below? ts) depth visits)
    (hc : Unpruned c.nodeAt? (depth + 1) others) (hu : below? (ts ++ [c]) way = some u) :
    way ∈ (visits ++ others.map (Visit.under ts.length)).map Visit.way ↔
      ∀ v ∈ visits ++ others.map (Visit.under ts.length), Above v.way way → v.answer = true := by
  obtain ⟨i, way, rfl, hi⟩ := exists_of_below? hu
  rw [List.length_append, List.length_singleton, Nat.lt_succ_iff_lt_or_eq] at hi
  rw [List.map_append, List.mem_append, List.forall_mem_append, List.forall_mem_map, List.map_map]
  rcases hi with hi | rfl
  · rw [below?_append hi] at hu
    have hm : i :: way ∉ others.map (Visit.way ∘ Visit.under ts.length) := fun hm => by
      obtain ⟨v, -, he⟩ := List.mem_map.1 hm
      exact hi.ne' (List.cons.inj he).1
    have ha : ∀ v ∈ others, ¬ Above (v.under ts.length).way (i :: way) :=
      fun v _ ha => hi.ne' (above_cons_cons.1 ha).1
    rw [or_iff_left hm, h.visited_iff hu]
    exact (and_iff_left fun v hv hab => absurd hab (ha v hv)).symm
  · rw [below?_length] at hu
    have hm : ts.length :: way ∉ visits.map Visit.way := fun hm => by
      obtain ⟨v, hv, he⟩ := List.mem_map.1 hm
      obtain ⟨i, _, hw, hi⟩ := h.exists_way hv
      exact hi.ne (List.cons.inj (hw.symm.trans he)).1
    have ha : ∀ v ∈ visits, ¬ Above v.way (ts.length :: way) := fun v hv ha => by
      obtain ⟨i, _, hw, hi⟩ := h.exists_way hv
      rw [hw] at ha
      exact hi.ne (above_cons_cons.1 ha).1
    rw [or_iff_right hm, and_iff_right fun v hv hab => absurd hab (ha v hv)]
    simpa [Visit.under, above_cons_cons] using hc.visited_iff hu

theorem Unpruned.snoc (h : Unpruned (below? ts) depth visits)
    (hc : Unpruned c.nodeAt? (depth + 1) others) :
    Unpruned (below? (ts ++ [c])) depth (visits ++ others.map (Visit.under ts.length)) := by
  constructor
  case node =>
    refine List.forall_mem_append.2 ⟨fun v hv => ?_, List.forall_mem_map.2 fun v hv => ?_⟩
    · obtain ⟨i, way, hw, hi⟩ := h.exists_way hv
      rw [hw, below?_append hi, ← hw, h.node v hv]
    · exact (below?_length ts c v.way).trans (hc.node v hv)
  case depth =>
    refine List.forall_mem_append.2 ⟨h.depth, List.forall_mem_map.2 fun v hv => ?_⟩
    have hd := hc.depth v hv
    simp only [Visit.under, List.length_cons]
    omega
  case visited_iff => exact h.visited_snoc_iff hc
  case ordered =>
    rw [List.map_append, List.map_map, List.pairwise_append]
    refine ⟨h.ordered, List.pairwise_map.2 ?_, ?_⟩
    · refine (List.pairwise_map.1 hc.ordered).imp fun hlt => ?_
      exact List.cons_lt_cons_iff.2 (.inr ⟨rfl, hlt⟩)
    · refine List.forall_mem_map.2 fun v hv => List.forall_mem_map.2 fun v' _ => ?_
      obtain ⟨i, _, hw, hi⟩ := h.exists_way hv
      rw [hw]
      exact List.cons_lt_cons_iff.2 (.inl hi)

variable (enter : σ → Tree φ → Nat → Bool × σ)

theorem exists_visits (t : Tree φ) (depth : Nat) (s : σ) (calls : List (Call φ)) :
    ∃ visits, t.walk (recording enter) depth (s, calls) =
        (t.walk enter depth s, calls ++ visits.map Visit.toCall) ∧
      Unpruned t.nodeAt? depth visits := by
  induction t using children_induction generalizing depth s calls with
  | step t ih =>
    have hall : ∀ ts ⊆ t.children, ∀ s calls, ∃ visits,
        ts.foldl (fun x c => c.walk (recording enter) (depth + 1) x) (s, calls) =
            (ts.foldl (fun s c => c.walk enter (depth + 1) s) s,
              calls ++ visits.map Visit.toCall) ∧
          Unpruned (below? ts) depth visits := by
      intro ts hts s calls
      induction ts using List.reverseRecOn with
      | nil => exact ⟨[], by simp, .nil depth⟩
      | append_singleton ts c ihs =>
        rw [List.append_subset, List.cons_subset] at hts
        obtain ⟨visits, hv, hu⟩ := ihs hts.1
        obtain ⟨others, ho, hc⟩ := ih c hts.2.1 (depth + 1)
          (ts.foldl (fun s c => c.walk enter (depth + 1) s) s) (calls ++ visits.map Visit.toCall)
        refine ⟨_, ?_, hu.snoc hc⟩
        simp [hv, ho, Function.comp_def, Visit.under]
    rw [walk_eq, walk_eq, recording]
    obtain ⟨answer, s'⟩ := enter s t depth
    cases answer with
    | false => exact ⟨_, rfl, .refused t depth⟩
    | true =>
      obtain ⟨visits, hv, hu⟩ :=
        hall t.children (List.Subset.refl _) s' (calls ++ [⟨t, depth, true⟩])
      exact ⟨_, by simp [hv], hu.entered⟩

/-- Whatever a visitor answers, a walk calls it for just those nodes that have no proper ancestor
for which it answered `false`, once each and in pre-order. -/
theorem visits_unpruned (t : Tree φ) (s : σ) :
    ∃ visits, t.walk (recording enter) 0 (s, []) = (t.walk enter 0 s, visits.map Visit.toCall) ∧
      Unpruned t.nodeAt? 0 visits :=
  exists_visits enter t 0 s []

example :
    let t : Tree Unit := .group "a" () .sequence
      [.group "b" () .choice [.leaf "c" () (.rest "room")],
        .group "d" () .choice [.leaf "e" () (.rest "room")]]
    let calls := (t.walk (recording fun n _ _ => (n < 2, n + 1)) 0 (0, [])).2
    calls.map (fun c => (c.node.id, c.depth, c.answer)) =
      [("a", 0, true), ("b", 1, true), ("c", 2, false), ("d", 1, false)] := by
  decide

end LabelGrammar.Tree
