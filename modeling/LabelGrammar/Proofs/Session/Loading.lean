import LabelGrammar.Proofs.Session.Restore
import LabelGrammar.Proofs.Workspace.Insertion

/-! # What is loaded

A stored text counts as a whole or not at all: if its documents are those of trees that can stand
beside each other, a session starts with these trees, and otherwise with no block. The blocks and
the labels are under two keys, and neither key has a say in what is loaded from the other.
-/

namespace LabelGrammar

open Forest

namespace Saved

/-- A text holds a forest: its value lists the documents of the trees, or is that of the only tree,
and the trees share no id and have rests only as last children. -/
structure Holds (text : String) (F : Forest) : Prop where
  documents : ∃ v items, Json.parse? text = some v ∧
    (v = .arr items ∨ (∀ others, v ≠ .arr others) ∧ items = [v]) ∧
    List.Forall₂ (fun item t => Document.toTree item = .ok t) items F
  distinct : (ids F).Nodup
  orderly {u : Tree Flavor} : u ∈ subtrees F → Orderly (u.children.map Tree.kind)

section Store

variable {σ : Type} [Store σ]

def Shows (s : σ) (key text : String) : Prop := Store.get s key = .ok (some text)

/-- A store gives all of what it holds or nothing, and each piece from a key of its own. -/
structure LoadsWhole (s : σ) : Prop where
  held {text : String} {F : Forest} : Shows s stateKey text → Holds text F →
    (load s).workspace.ConsistsOf F
  otherwise : (∀ text F, Shows s stateKey text → ¬ Holds text F) → (load s).workspace = .empty
  workspace {τ : Type} [Store τ] (other : τ) :
    (∀ text, Shows other stateKey text ↔ Shows s stateKey text) →
    (load other).workspace = (load s).workspace
  corpus {τ : Type} [Store τ] (other : τ) :
    (∀ text, Shows other labelsKey text ↔ Shows s labelsKey text) →
    (load other).corpus = (load s).corpus

end Store

end Saved

namespace Tree.Storable

variable {atRoot : Bool} {t : Tree Flavor}

theorem subtree {u : Tree Flavor} (h : t.Storable atRoot) (hu : u ∈ t.subtrees) :
    ∃ b, u.Storable b := by
  induction t using children_induction generalizing atRoot with
  | step t ih =>
    rcases mem_subtrees.1 hu with rfl | ⟨c, hc, hu⟩
    · exact ⟨_, h⟩
    · exact ih c hc (h.child hc) hu

theorem settle_eq (h : t.Storable atRoot) : t.settle atRoot = t := by
  induction t using children_induction generalizing atRoot with
  | step t ih =>
    have hc : t.children.map (settle false) = t.children :=
      (List.map_congr_left fun c hc => ih c hc (h.child hc)).trans (List.map_id _)
    rw [Tree.settle_eq, hc, withChildren_children]
    refine ext_children (by simp) ?_ (by simp) (by simp)
    rw [flavor_retag]
    split
    · next hk => exact (h.root hk).symm
    · rfl

theorem legal (h : t.Storable atRoot) (hr : ∀ u ∈ t.subtrees, Orderly (u.children.map kind)) :
    t.Legal atRoot := by
  rw [← h.settle_eq]
  refine legal_settle (fun u hu => ?_) (fun u hu => restBeforeEnd_eq_false_iff.2 (hr u hu)) atRoot
  obtain ⟨_, hu⟩ := h.subtree hu
  exact hu.flavor_denotes

end Tree.Storable

namespace Represents

variable {w v : Workspace} {F G : Forest} {items : List Json}

theorem exists_of_foldlM (h : Represents w G)
    (hr : items.foldlM Saved.insertBlock w = .ok v) :
    ∃ F, List.Forall₂ (fun item t => Document.toTree item = .ok t) items F ∧
      Represents v (G ++ F) := by
  induction items generalizing w G with
  | nil =>
    obtain rfl : w = v := Except.ok.inj hr
    exact ⟨[], .nil, by rwa [List.append_nil]⟩
  | cons item items ih =>
    rw [List.foldlM_cons] at hr
    obtain ⟨x, hx, hr⟩ := bind_eq_ok_iff.1 hr
    obtain ⟨t, ht, hw⟩ := h.insertBlock hx
    rw [(Document.storable_of_readNode ht).settle_eq] at hw
    obtain ⟨F, hF, hv⟩ := ih hw hr
    exact ⟨t :: F, .cons ht hF, by rwa [List.append_cons]⟩

end Represents

namespace Saved

variable {w : Workspace} {text : String} {F : Forest} {items : List Json}

theorem foldlM_insertBlock_congr
    (h : List.Forall₂ (fun item t => Document.toTree item = .ok t) items F) (w : Workspace) :
    items.foldlM insertBlock w =
      (F.map fun t => (Document.ofTree .internal t).toValue).foldlM insertBlock w := by
  induction h generalizing w with
  | nil => rfl
  | @cons item t items F ht _ ih =>
    have hs := Document.toTree_ofTree (Document.storable_of_readNode ht)
    have hi : insertBlock w item = insertBlock w (Document.ofTree .internal t).toValue := by
      rw [insertBlock, insertBlock, ht, hs]
    rw [List.map_cons, List.foldlM_cons, List.foldlM_cons, hi]
    exact bind_congr ih

theorem eq_blocksOf_iff {v : Json} :
    (v = .arr items ∨ (∀ others, v ≠ .arr others) ∧ items = [v]) ↔ items = blocksOf v := by
  cases v <;> simp [blocksOf, eq_comm]

theorem parseState_of_holds (h : Holds text F) :
    ∃ w, parseState text = .ok w ∧ Represents w F := by
  obtain ⟨v, items, hv, hi, hF⟩ := h.documents
  have hs : ∀ t ∈ F, t.Storable true :=
    ((List.forall₂_and_left _ _).1 (hF.flip.imp fun t item ht =>
      ⟨Document.storable_of_readNode ht, ht⟩)).1
  have hl : Legal F := fun t ht =>
    (hs t ht).legal fun u hu => h.orderly (mem_subtrees.2 ⟨t, ht, hu⟩)
  obtain ⟨w, hw, hr⟩ := Represents.empty.foldlM_toValue hs hl h.distinct
  refine ⟨w, ?_, hr⟩
  rw [parseState, hv]
  change (blocksOf v).foldlM insertBlock .empty = .ok w
  rw [← eq_blocksOf_iff.1 hi, foldlM_insertBlock_congr hF, hw]

theorem holds_of_parseState (h : parseState text = .ok w) : ∃ F, Holds text F := by
  unfold parseState at h
  cases hv : Json.parse? text with
  | none => rw [hv] at h; cases h
  | some v =>
    rw [hv] at h
    obtain ⟨F, hF, hw⟩ := Represents.empty.exists_of_foldlM h
    exact ⟨F, ⟨v, _, hv, eq_blocksOf_iff.2 rfl, hF⟩, hw.nodup, hw.legal.orderly⟩

/-- What is saved for trees that are not too high for the reader holds them. -/
theorem holds_of_stateText (hs : ∀ t ∈ F, t.Storable true) (hl : Legal F) (hn : (ids F).Nodup)
    (hh : ∀ t ∈ F, t.height ≤ 42)
    (ht : stateText (F.map (Document.ofTree .internal)) = some text) : Holds text F := by
  rw [stateText_eq, Option.map_eq_some_iff] at ht
  obtain ⟨v, hv, rfl⟩ := ht
  refine ⟨⟨v.sorted, _, ?_, eq_blocksOf_iff.2 rfl, ?_⟩, hn, hl.orderly⟩
  · rw [(plain_stateValue hs hv).parse_compact, if_pos ((depth_stateValue hv).2 hh)]
  · rw [blocksOf_stateValue hv, List.forall₂_map_left_iff, List.forall₂_same]
    exact fun t ht => Document.toTree_ofTree (hs t ht)

section Store

variable {σ : Type} [Store σ] {s : σ} {key : String}

theorem readText?_eq_some_iff : readText? s key = some text ↔ Shows s key text := by
  unfold readText? Shows
  cases Store.get s key <;> simp

theorem readText?_congr {τ : Type} [Store τ] {other : τ}
    (h : ∀ text, Shows other key text ↔ Shows s key text) :
    readText? other key = readText? s key :=
  Option.ext fun text => by rw [readText?_eq_some_iff, readText?_eq_some_iff, h]

/-- Whatever a store has under the two keys, a session starts with all trees that the text of the
first one holds, or with no block, and with the labels of the second one. -/
theorem loadsWhole (s : σ) : LoadsWhole s := by
  constructor
  case held =>
    intro text F hs hF
    obtain ⟨w, hw, hr⟩ := parseState_of_holds hF
    change (loadWorkspace s).ConsistsOf F
    rw [loadWorkspace_of_get_some hs, hw]
    exact hr.consistsOf
  case otherwise =>
    intro hn
    change loadWorkspace s = .empty
    rw [loadWorkspace]
    cases hs : readText? s stateKey with
    | none => rfl
    | some text =>
      cases hw : parseState text with
      | error e => simp only [hw]
      | ok w =>
        obtain ⟨F, hF⟩ := holds_of_parseState hw
        exact (hn text F (readText?_eq_some_iff.1 hs) hF).elim
  case workspace =>
    intro τ _ other h
    change loadWorkspace other = loadWorkspace s
    rw [loadWorkspace, loadWorkspace, readText?_congr h]
  case corpus =>
    intro τ _ other h
    change loadCorpus other = loadCorpus s
    rw [loadCorpus, loadCorpus, readText?_congr h]

end Store

end Saved

end LabelGrammar
