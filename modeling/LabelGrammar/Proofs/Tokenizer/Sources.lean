import LabelGrammar.Proofs.Session.Freshness
import LabelGrammar.Proofs.Tokenizer.Wire

/-! # Where tokens come from

A token names the node that made it. Of a leaf that matched it has the type name, and a value that
the rule of the leaf allows; an error is that of a leaf, or of a choice that speaks for its
children. Highlighting a token shows the block with that id for as long as there is one.
-/

namespace LabelGrammar

/-- The rule allows a value for the start of a text. -/
def Leaf.Allows (left value : List Char) : Leaf → Prop
  | .string pattern _ => value = pattern.toList
  | .rest _ => value = left
  | .substring length _ => value.length = length

/-- An error of a kind of nodes is its own. A sequence passes on those of its children. -/
def Kind.Fails (k : Kind) : Prop := k = .string ∨ k = .substring ∨ k = .choice

namespace Piece

variable {φ : Type}

/-- A node makes a piece of what is left of a label. -/
inductive MadeBy (left : List Char) : Tree φ → Piece → Prop where
  | leaf {id : NodeId} {flavor : φ} {l : Leaf} {value : List Char} : value <+: left →
      l.Allows left value → MadeBy left (.leaf id flavor l) (.matched id l.typeName value)
  | failed {u : Tree φ} (error : String) : u.kind.Fails → MadeBy left u (.failed u.id error)

/-- Nodes make pieces one after the other. -/
def Sourced (nodes : List (Tree φ)) : List Char → List Piece → Prop
  | _, [] => True
  | left, p :: pieces =>
    (∃ u ∈ nodes, p.MadeBy left u) ∧ Sourced nodes (left.drop p.value.length) pieces

theorem consumed_cons (p : Piece) (pieces : List Piece) :
    consumed (p :: pieces) = p.value ++ consumed pieces := List.flatMap_cons

theorem consumed_append (pieces more : List Piece) :
    consumed (pieces ++ more) = consumed pieces ++ consumed more := List.flatMap_append

theorem firstError?_append (pieces more : List Piece) :
    firstError? (pieces ++ more) = (firstError? pieces).or (firstError? more) :=
  List.findSome?_append

variable {nodes : List (Tree φ)} {left : List Char} {pieces : List Piece}

theorem Sourced.mono {nodes' : List (Tree φ)} (hn : nodes ⊆ nodes')
    (h : Sourced nodes left pieces) : Sourced nodes' left pieces := by
  induction pieces generalizing left with
  | nil => trivial
  | cons p pieces ih =>
    obtain ⟨⟨u, hu, hp⟩, h⟩ := h
    exact ⟨⟨u, hn hu, hp⟩, ih h⟩

theorem sourced_append {more : List Piece} : Sourced nodes left (pieces ++ more) ↔
    Sourced nodes left pieces ∧ Sourced nodes (left.drop (consumed pieces).length) more := by
  induction pieces generalizing left with
  | nil => simp [Sourced, consumed]
  | cons p pieces ih =>
    rw [List.cons_append, Sourced, Sourced, ih, consumed_cons, List.length_append, List.drop_drop,
      and_assoc]

theorem sourced_singleton {p : Piece} :
    Sourced nodes left [p] ↔ ∃ u ∈ nodes, p.MadeBy left u := by
  simp [Sourced]

theorem MadeBy.append_drop {u : Tree φ} {p : Piece} (h : p.MadeBy left u) :
    p.value ++ left.drop p.value.length = left := by
  cases h with
  | leaf hp _ => exact List.prefix_iff_eq_append.1 hp
  | failed error _ => rfl

theorem Sourced.append_drop (h : Sourced nodes left pieces) :
    consumed pieces ++ left.drop (consumed pieces).length = left := by
  induction pieces generalizing left with
  | nil => rfl
  | cons p pieces ih =>
    obtain ⟨⟨u, -, hp⟩, h⟩ := h
    rw [consumed_cons, List.length_append, ← List.drop_drop, List.append_assoc, ih h,
      hp.append_drop]

theorem Sourced.madeBy {before after : List Piece} {p : Piece}
    (h : Sourced nodes left (before ++ p :: after)) :
    ∃ u ∈ nodes, p.MadeBy (left.drop (consumed before).length) u :=
  (sourced_append.1 h).2.1

end Piece

open Piece

namespace Tree

variable {φ : Type} {target : List Char} {ts : List (Tree φ)}

theorem madeBy_run (id : NodeId) (flavor : φ) (l : Leaf) (target : List Char) :
    (l.run id target).MadeBy target (.leaf id flavor l) := by
  cases l with
  | string pattern typeName =>
    rw [Leaf.run]
    split
    · next h => exact .leaf (List.isPrefixOf_iff_prefix.1 h) rfl
    · exact .failed _ (.inl rfl)
  | rest typeName => exact .leaf (List.prefix_refl target) rfl
  | substring length typeName =>
    rw [Leaf.run]
    split
    · next h => exact .leaf (List.take_prefix length target) h
    · exact .failed _ (.inr (.inl rfl))

section Children

variable (h : ∀ t ∈ ts, ∀ target, Sourced t.subtrees target (t.run target))
include h

theorem sourced_runAll (target : List Char) :
    Sourced (ts.flatMap subtrees) target (runAll target ts) := by
  induction ts generalizing target with
  | nil => trivial
  | cons t ts ih =>
    rw [List.forall_mem_cons] at h
    have ht := (h.1 target).mono (List.subset_append_left _ (ts.flatMap subtrees))
    rw [runAll, List.flatMap_cons]
    split
    · exact ht
    · exact sourced_append.2 ⟨ht, (ih h.2 _).mono (List.subset_append_right _ _)⟩

theorem sourced_runFirst {pieces : List Piece} (hr : runFirst target ts = .ok pieces) :
    Sourced (ts.flatMap subtrees) target pieces := by
  induction ts with
  | nil => cases hr
  | cons t ts ih =>
    rw [List.forall_mem_cons] at h
    have hts (hr : runFirst target ts = .ok pieces) :=
      (ih h.2 hr).mono (List.subset_append_right t.subtrees _)
    rw [runFirst] at hr
    rw [List.flatMap_cons]
    split at hr
    · exact hts (mapError_eq_ok_iff.1 hr)
    · split at hr
      · exact hts hr
      · obtain rfl := Except.ok.inj hr
        exact (h.1 target).mono (List.subset_append_left _ _)

end Children

/-- Whatever a tree makes of a text is made by its nodes. -/
theorem sourced_run (t : Tree φ) (target : List Char) :
    Sourced t.subtrees target (t.run target) := by
  induction t using children_induction generalizing target with
  | step t ih =>
    have hs : t.children.flatMap subtrees ⊆ t.subtrees := by
      rw [t.subtrees_eq]
      exact List.subset_cons_self _ _
    cases t with
    | leaf id flavor l =>
      exact sourced_singleton.2 ⟨_, self_mem_subtrees _, madeBy_run id flavor l target⟩
    | group id flavor shape ts =>
      cases shape with
      | sequence => exact (sourced_runAll ih target).mono hs
      | choice =>
        rw [run]
        split
        · next pieces hr => exact (sourced_runFirst ih hr).mono hs
        · next errors hr =>
          exact sourced_singleton.2 ⟨_, self_mem_subtrees _, .failed _ (.inr (.inr rfl))⟩

end Tree

/-- A token tells what a node made of what was left of a label. -/
structure Token.LeadsTo (token : Token) (u : Tree Flavor) (left : List Char) : Prop where
  source : token.source = some u.id
  matched : token.error = none → ∃ flavor l, u = .leaf u.id flavor l ∧
    token.typeName = l.typeName ∧ token.length = token.value.length ∧
    l.Allows left token.value.toList
  failed : token.error ≠ none → u.kind.Fails

theorem Piece.MadeBy.leadsTo {left : List Char} {u : Tree Flavor} {p : Piece}
    (h : p.MadeBy left u) : p.toWireToken.toToken.LeadsTo u left := by
  cases h with
  | @leaf id flavor l value _ ha =>
    constructor
    case source => rfl
    case matched =>
      intro _
      refine ⟨flavor, l, rfl, rfl, ?_, ?_⟩
      · simp [toWireToken, WireToken.toToken]
      · simpa [toWireToken, WireToken.toToken] using ha
    case failed => exact fun he => (he rfl).elim
  | failed error hk =>
    constructor
    case source => rfl
    case matched => rintro ⟨⟩
    case failed => exact fun _ => hk

theorem Piece.toList_value (p : Piece) : p.toWireToken.toToken.value.toList = p.value := by
  cases p <;> simp [toWireToken, WireToken.toToken, value]

/-- A token of a label is made of what is left behind the values of the tokens before it. -/
theorem Tree.exists_leadsTo {t : Tree Flavor} {label : String} {before after : List Token}
    {token : Token} (h : (t.evaluate label).toTokenization.tokens = before ++ token :: after) :
    ∃ u ∈ t.subtrees, ∃ left, label.toList = before.flatMap (·.value.toList) ++ left ∧
      token.LeadsTo u left := by
  have hm : ((t.run label.toList).map toWireToken).map WireToken.toToken =
    before ++ token :: after := h
  rw [List.map_map, List.map_eq_append_iff] at hm
  obtain ⟨pieces, more, hp, rfl, hm⟩ := hm
  obtain ⟨p, more, rfl, rfl, -⟩ := List.map_eq_cons_iff.1 hm
  have hs := t.sourced_run label.toList
  rw [hp] at hs
  obtain ⟨u, hu, hmade⟩ := hs.madeBy
  refine ⟨u, hu, _, ?_, hmade.leadsTo⟩
  rw [List.flatMap_map]
  simp only [Function.comp_apply, toList_value]
  exact (sourced_append.1 hs).1.append_drop.symm

namespace Workspace

variable {w v : Workspace} {token : Token} {id : NodeId}

/-- A token highlights the block with an id. -/
structure Highlights (w : Workspace) (token : Token) (id : NodeId) : Prop where
  live {b : Block} : w.find? id = some b → b.id = id ∧
    ∀ {σ : Type} (sink : σ → Block → σ) (s : σ), w.highlightToken token sink s = (true, sink s b)
  gone : w.find? id = none →
    ∀ {σ : Type} (sink : σ → Block → σ) (s : σ), w.highlightToken token sink s = (false, s)
  undrawn (c : Call) : id ∉ w.draws c

theorem highlights_of_source (hs : token.source = some id) (hi : id ∈ w.issued) :
    w.Highlights token id where
  live := by
    intro b hb
    refine ⟨by simpa using List.find?_some hb, fun sink s => ?_⟩
    simp [highlightToken, highlightBlock, hs, hb]
  gone := by
    intro hb σ sink s
    simp [highlightToken, highlightBlock, hs, hb]
  undrawn c hm := (w.nodup_draws c).2 id hm hi

/-- Every token of a result leads back to a block, whatever becomes of the workspace. -/
def LeadsBack (w : Workspace) (t : Tree Flavor) (label : String) (result : Tokenization) : Prop :=
  ∀ before token after, result.tokens = before ++ token :: after → ∃ u ∈ t.subtrees,
    (∃ b, w.find? u.id = some b ∧ b.rule = u.rule) ∧
    (∃ left, label.toList = before.flatMap (·.value.toList) ++ left ∧ token.LeadsTo u left) ∧
    ∀ events v, w.Run events v → v.Highlights token u.id

end Workspace

namespace Workspace

theorem leadsBack_of_reachable {w : Workspace} {root : Block} (hw : w.Reachable)
    (hv : w.FieldsValid) (hr : w.root? = some root) (hk : root.kind = .sequence) :
    ∃ t, w.snapshot root.id = .ok t ∧ ∀ (policy : RetryPolicy) (labels : List String),
      Transport.local.evaluateWorkspace policy w labels () =
        (.ok (labels.map fun label => (t.evaluate label).toTokenization), ()) ∧
      ∀ label ∈ labels, w.LeadsBack t label (t.evaluate label).toTokenization := by
  obtain ⟨F, hF⟩ := hw.represents
  obtain ⟨t, ht, rfl⟩ := hF.root_eq hr
  rw [Tree.kind_block] at hk
  refine ⟨t, hF.snapshot_block (Forest.tree_mem_subtrees ht) none, fun policy labels => ⟨?_, ?_⟩⟩
  · exact hF.evaluateWorkspace_local hv ht hr hk policy labels
  · intro label _ before token after h
    obtain ⟨u, hu, left, hl, htoken⟩ := Tree.exists_leadsTo h
    obtain ⟨parent, hb⟩ := hF.find?_node (Forest.mem_subtrees.2 ⟨t, ht, hu⟩)
    refine ⟨u, hu, ⟨_, hb, ?_⟩, ⟨left, hl, htoken⟩, ?_⟩
    · rw [Block.rule, Tree.body_block, Tree.rule_body]
    · intro events v hrun
      have hi := hF.issued _ (List.mem_of_find?_eq_some hb)
      rw [Tree.id_block] at hi
      exact highlights_of_source htoken.source ((hrun.spans hw).grows hi)

/-- The token of a rest, before and after the rest is deleted. -/
theorem leadsBack_restBelowSequence :
    let w := restBelowSequence
    let token : Token := ⟨"101", 3, "room", some "b", none⟩
    let sink := fun (ids : List NodeId) (b : Block) => ids ++ [b.id]
    (∃ t, w.LeadsBack t "101" ⟨true, [], [token]⟩ ∧
      Transport.local.evaluateWorkspace .default w ["101"] () =
        (.ok [⟨true, [], [token]⟩], ())) ∧
    w.highlightToken token sink [] = (true, ["b"]) ∧
    (w.after (.delete "b")).highlightToken token sink [] = (false, []) := by
  refine ⟨?_, by decide, by decide⟩
  obtain ⟨t, ht, h⟩ := leadsBack_of_reachable .restBelowSequence (by decide) rfl (by decide)
  obtain rfl := Except.ok.inj ht
  obtain ⟨he, hl⟩ := h .default ["101"]
  exact ⟨_, hl "101" List.mem_cons_self, he⟩

end Workspace

end LabelGrammar
