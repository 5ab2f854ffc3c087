import Mathlib.Data.List.Forall2
import LabelGrammar.Proofs.Tokenizer.Wire

/-! # Flavors are left out

Trees that differ in nothing but flavors have the same document for a tokenizer, are asked about in
the same requests and match labels alike. All else about a tree can be told from that document.
-/

namespace LabelGrammar

theorem Kind.name_injective : Function.Injective name := by
  intro k k' h
  have hk := ofName?_name k
  rw [h, ofName?_name] at hk
  exact (Option.some.inj hk).symm

namespace Tree

variable {φ ψ χ : Type}

/-- Two trees differ in nothing but flavors. -/
inductive Alike : Tree φ → Tree ψ → Prop where
  | leaf {id : NodeId} {flavor : φ} {flavor' : ψ} {l : Leaf} :
      Alike (.leaf id flavor l) (.leaf id flavor' l)
  | group {id : NodeId} {flavor : φ} {flavor' : ψ} {shape : Shape} {ts : List (Tree φ)}
      {us : List (Tree ψ)} : List.Forall₂ Alike ts us →
      Alike (.group id flavor shape ts) (.group id flavor' shape us)

section Nodes

variable {i j : NodeId} {f : φ} {g : ψ} {l m : Leaf} {s r : Shape} {ts : List (Tree φ)}
  {us : List (Tree ψ)}

theorem alike_leaf_iff : (leaf i f l).Alike (leaf j g m) ↔ i = j ∧ l = m := by
  constructor
  · rintro ⟨⟩
    exact ⟨rfl, rfl⟩
  · rintro ⟨rfl, rfl⟩
    exact .leaf

theorem alike_group_iff :
    (group i f s ts).Alike (group j g r us) ↔ i = j ∧ s = r ∧ List.Forall₂ Alike ts us := by
  constructor
  · rintro (_ | h)
    exact ⟨rfl, rfl, h⟩
  · rintro ⟨rfl, rfl, h⟩
    exact .group h

theorem not_alike_leaf_group : ¬ (leaf i f l).Alike (group j g r us) := by rintro ⟨⟩

theorem not_alike_group_leaf : ¬ (group i f s ts).Alike (leaf j g m) := by rintro ⟨⟩

end Nodes

theorem forall₂_iff_map_eq {α β γ : Type} {R : α → β → Prop} {f : α → γ} {g : β → γ}
    {as : List α} {bs : List β} (h : ∀ a ∈ as, ∀ b, R a b ↔ f a = g b) :
    List.Forall₂ R as bs ↔ as.map f = bs.map g := by
  induction as generalizing bs with
  | nil => cases bs <;> simp
  | cons a as ih =>
    rw [List.forall_mem_cons] at h
    cases bs with
    | nil => simp
    | cons b bs => simp [h.1, ih h.2]

theorem alike_iff_map_eq (x : χ) {t : Tree φ} {u : Tree ψ} :
    t.Alike u ↔ t.map (fun _ => x) = u.map fun _ => x := by
  induction t using children_induction generalizing u with
  | step t ih =>
    cases t with
    | leaf i f l =>
      cases u with
      | leaf j g m => simp [alike_leaf_iff, map]
      | group j g r us => simp [not_alike_leaf_group, map]
    | group i f s ts =>
      cases u with
      | leaf j g m => simp [not_alike_group_leaf, map]
      | group j g r us =>
        have hts : List.Forall₂ Alike ts us ↔
            ts.map (map fun _ => x) = us.map (map fun _ => x) :=
          forall₂_iff_map_eq fun c hc u => ih c hc
        rw [alike_group_iff, hts]
        simp [map, mapAll_eq_map]

section Map

variable (f : φ → ψ) (t : Tree φ)

@[simp] theorem id_map : (t.map f).id = t.id := by cases t <;> rfl

@[simp] theorem rule_map : (t.map f).rule = t.rule := by cases t <;> rfl

@[simp] theorem kind_map : (t.map f).kind = t.kind := by rw [kind, kind, rule_map]

@[simp] theorem flavor_map : (t.map f).flavor = f t.flavor := by cases t <;> rfl

@[simp] theorem children_map : (t.map f).children = t.children.map (map f) := by
  cases t with
  | leaf => rfl
  | group => rw [map, children, children, mapAll_eq_map]

theorem subtrees_map : (t.map f).subtrees = t.subtrees.map (map f) := by
  induction t using children_induction with
  | step t ih =>
    rw [subtrees_eq, subtrees_eq t, children_map, List.map_cons, List.map_flatMap,
      List.flatMap_map]
    exact congrArg _ (List.flatMap_congr ih)

theorem ids_map : (t.map f).ids = t.ids := by
  rw [ids, ids, subtrees_map, List.map_map]
  exact List.map_congr_left fun u _ => id_map f u

theorem map_map (g : ψ → χ) : (t.map f).map g = t.map (g ∘ f) := by
  induction t using children_induction with
  | step t ih =>
    apply ext_children
    · simp
    · simp
    · simp
    · rw [children_map, children_map, children_map, List.map_map]
      exact List.map_congr_left ih

end Map

end Tree

namespace Json

/-- An object in a value, at whatever depth, has a member with the given key. -/
inductive Uses (key : String) : Json → Prop where
  | here {members : List (String × Json)} : key ∈ members.map Prod.fst → Uses key (.obj members)
  | member {members : List (String × Json)} {m : String × Json} : m ∈ members → Uses key m.2 →
      Uses key (.obj members)
  | item {items : List Json} {v : Json} : v ∈ items → Uses key v → Uses key (.arr items)

variable {key : String}

theorem not_uses_str (s : String) : ¬ (Json.str s).Uses key := by rintro ⟨⟩

theorem not_uses_int (i : Int) : ¬ (Json.int i).Uses key := by rintro ⟨⟩

theorem uses_arr_iff {items : List Json} : (Json.arr items).Uses key ↔ ∃ v ∈ items, v.Uses key := by
  constructor
  · rintro (_ | _ | ⟨hv, h⟩)
    exact ⟨_, hv, h⟩
  · rintro ⟨v, hv, h⟩
    exact .item hv h

theorem uses_obj_iff {members : List (String × Json)} : (Json.obj members).Uses key ↔
    ∃ m ∈ members, key = m.1 ∨ m.2.Uses key := by
  constructor
  · rintro (h | ⟨hm, h⟩)
    · obtain ⟨m, hm, rfl⟩ := List.mem_map.1 h
      exact ⟨m, hm, .inl rfl⟩
    · exact ⟨_, hm, .inr h⟩
  · rintro ⟨m, hm, rfl | h⟩
    · exact .here (List.mem_map_of_mem hm)
    · exact .member hm h

end Json

namespace Document

open LabelGrammar.Tree

variable {key : String}

theorem ofNode_external (atRoot : Bool) (t : Tree Flavor) :
    ofNode .external atRoot t = t.map fun _ => none := by
  induction t using children_induction generalizing atRoot with
  | step t ih =>
    cases t with
    | leaf id flavor l => rfl
    | group id flavor shape ts =>
      rw [ofNode, ofNodes_eq_map, Tree.map, mapAll_eq_map]
      exact congrArg _ (List.map_congr_left fun c hc => ih c hc false)

theorem ofTree_external (t : Tree Flavor) : ofTree .external t = t.map fun _ => none :=
  ofNode_external true t

theorem withoutFlavors_ofTree (mode : Mode) (t : Tree Flavor) :
    (ofTree mode t).withoutFlavors = ofTree .external t := by
  rw [ofTree, withoutFlavors_ofNode, ofTree_external]

theorem withoutFlavors_withoutFlavors (d : Document) :
    d.withoutFlavors.withoutFlavors = d.withoutFlavors := by
  rw [withoutFlavors, withoutFlavors, map_map]
  rfl

theorem flavor_of_withoutFlavors (d : Document) :
    ∀ n ∈ d.withoutFlavors.subtrees, n.flavor = none := by
  intro n hn
  rw [withoutFlavors, subtrees_map] at hn
  obtain ⟨m, -, rfl⟩ := List.mem_map.1 hn
  exact flavor_map _ m

theorem uses_node {kind : Kind} {args : List (String × Json)}
    (hp : key ≠ "parser") (ha : key ≠ "args") :
    (node kind none args).Uses key ↔ (Json.obj args).Uses key := by
  rw [node, Json.uses_obj_iff]
  simp [hp, ha, Json.not_uses_str]

/-- No object of a document has the key of flavors if no node records one. -/
theorem not_uses_toJson {d : Document} (h : ∀ n ∈ d.subtrees, n.flavor = none) :
    ¬ d.toJson.Uses "uiParser" := by
  induction d using children_induction with
  | step d ih =>
    have hd : d.flavor = none := h d d.self_mem_subtrees
    cases d with
    | leaf id flavor l =>
      obtain rfl : flavor = none := hd
      rw [toJson, uses_node (by decide) (by decide), Json.uses_obj_iff]
      cases l <;> simp [leafFields, Json.not_uses_str, Json.not_uses_int]
    | group id flavor shape ds =>
      obtain rfl : flavor = none := hd
      rw [toJson, toJsonAll_eq_map, uses_node (by decide) (by decide), Json.uses_obj_iff]
      have hid : "uiParser" ≠ "id" := by decide
      have hparsers : "uiParser" ≠ "parsers" := by decide
      simp only [List.mem_cons, List.not_mem_nil, or_false, exists_eq_or_imp, exists_eq_left, hid,
        hparsers, Json.not_uses_str, Json.uses_arr_iff, List.mem_map, false_or]
      rintro ⟨_, ⟨c, hc, rfl⟩, hu⟩
      exact ih c hc (fun n hn => h n (mem_subtrees_of_child hc hn)) hu

theorem node_inj {kind kind' : Kind} {args args' : List (String × Json)} :
    node kind none args = node kind' none args' ↔ kind = kind' ∧ args = args' := by
  simp [node, Kind.name_injective.eq_iff]

theorem leafFields_inj {i j : NodeId} {l m : Leaf} :
    l.kind = m.kind ∧ leafFields i l = leafFields j m ↔ i = j ∧ l = m := by
  cases l <;> cases m <;> simp [leafFields, Leaf.kind]
  rintro -
  constructor
  · rintro ⟨ht, hl⟩
    exact ⟨by omega, ht⟩
  · rintro ⟨hl, ht⟩
    exact ⟨ht, by omega⟩

/-- The JSON for a tokenizer tells everything about a tree but flavors. -/
theorem alike_iff_toJson_eq {t u : Tree Flavor} :
    t.Alike u ↔ (ofTree .external t).toJson = (ofTree .external u).toJson := by
  rw [ofTree_external, ofTree_external]
  induction t using children_induction generalizing u with
  | step t ih =>
    cases t with
    | leaf i f l =>
      cases u with
      | leaf j g m =>
        rw [alike_leaf_iff, Tree.map, Tree.map, toJson, toJson, node_inj, leafFields_inj]
      | group j g r us =>
        have hk : l.kind ≠ r.kind := by cases l <;> cases r <;> rintro ⟨⟩
        simp [not_alike_leaf_group, Tree.map, toJson, node_inj, hk]
    | group i f s ts =>
      cases u with
      | leaf j g m =>
        have hk : s.kind ≠ m.kind := by cases s <;> cases m <;> rintro ⟨⟩
        simp [not_alike_group_leaf, Tree.map, toJson, node_inj, hk]
      | group j g r us =>
        have hk : s.kind = r.kind ↔ s = r := by cases s <;> cases r <;> decide
        have hts : List.Forall₂ Alike ts us ↔
            ts.map (fun c => toJson (c.map fun _ => none)) =
              us.map fun c => toJson (c.map fun _ => none) :=
          forall₂_iff_map_eq fun c hc u => ih c hc
        rw [alike_group_iff, hts]
        simp [Tree.map, mapAll_eq_map, toJson, toJsonAll_eq_map, node_inj, hk, Function.comp_def]
        tauto

end Document

namespace EvaluationRequest

open Document

theorem make_ofTree (mode : Mode) (t : Tree Flavor) (labels : List String) :
    make (ofTree mode t) labels = ⟨labels, ofTree .external t⟩ := by
  rw [make, withoutFlavors_ofTree]

theorem not_uses_toJson {r : EvaluationRequest}
    (h : ∀ n ∈ r.grammar.subtrees, n.flavor = none) : ¬ r.toJson.Uses "uiParser" := by
  have hlabels : "uiParser" ≠ "point_labels" := by decide
  have hparsers : "uiParser" ≠ "parsers" := by decide
  simp [toJson, Json.uses_obj_iff, Json.uses_arr_iff, hlabels, hparsers, Json.not_uses_str,
    Document.not_uses_toJson h]

theorem not_uses_make (grammar : Document) (labels : List String) :
    ¬ (make grammar labels).toJson.Uses "uiParser" :=
  not_uses_toJson (flavor_of_withoutFlavors grammar)

end EvaluationRequest

theorem Tree.Alike.evaluate_eq {φ ψ : Type} {t : Tree φ} {u : Tree ψ} (h : t.Alike u)
    (label : String) : t.evaluate label = u.evaluate label := by
  rw [← evaluate_map (fun _ => ()) t, (alike_iff_map_eq ()).1 h, evaluate_map]

theorem Tree.Alike.ofTree_eq {t u : Tree Flavor} (h : t.Alike u) :
    Document.ofTree .external t = Document.ofTree .external u := by
  rw [Document.ofTree_external, Document.ofTree_external, (alike_iff_map_eq none).1 h]

/-- Flavors have no part in what a tokenizer is sent, nor in how labels are matched, and a tokenizer
is sent everything else. -/
theorem flavors_left_out :
    (∀ t : Tree Flavor, (Document.ofTree .internal t).withoutFlavors = .ofTree .external t) ∧
    (∀ d : Document, d.withoutFlavors.withoutFlavors = d.withoutFlavors) ∧
    (∀ (t : Tree Flavor) (labels : List String),
      EvaluationRequest.make (.ofTree .internal t) labels = .make (.ofTree .external t) labels ∧
      ∀ mode, (∀ n ∈ (EvaluationRequest.make (.ofTree mode t) labels).grammar.subtrees,
          n.flavor = none) ∧
        ¬ (EvaluationRequest.make (.ofTree mode t) labels).toJson.Uses "uiParser") ∧
    (∀ t u : Tree Flavor, t.Alike u →
      Document.ofTree .external t = .ofTree .external u ∧
      (∀ (mode mode' : Mode) (labels : List String),
        EvaluationRequest.make (.ofTree mode t) labels = .make (.ofTree mode' u) labels) ∧
      ∀ label, t.evaluate label = u.evaluate label) ∧
    ∀ t u : Tree Flavor,
      (Document.ofTree .external t).toJson = (Document.ofTree .external u).toJson → t.Alike u := by
  refine ⟨?_, ?_, ?_, ?_, ?_⟩
  · exact Document.withoutFlavors_ofTree .internal
  · exact Document.withoutFlavors_withoutFlavors
  · intro t labels
    constructor
    · rw [EvaluationRequest.make_ofTree, EvaluationRequest.make_ofTree]
    · intro mode
      exact ⟨Document.flavor_of_withoutFlavors _, EvaluationRequest.not_uses_make _ labels⟩
  · intro t u h
    refine ⟨h.ofTree_eq, ?_, h.evaluate_eq⟩
    intro mode mode' labels
    rw [EvaluationRequest.make_ofTree, EvaluationRequest.make_ofTree, h.ofTree_eq]
  · intro t u
    exact Document.alike_iff_toJson_eq.2

theorem flavors_left_out_misflavored :
    let t := Tree.misflavored
    let u := t.withDefaults true
    Document.ofTree .internal t ≠ .ofTree .internal u ∧ t.Alike u ∧
      EvaluationRequest.make (.ofTree .internal t) ["1"] = .make (.ofTree .internal u) ["1"] ∧
      t.evaluate "1" = u.evaluate "1" := by
  obtain ⟨-, -, -, hsame, htells⟩ := flavors_left_out
  have h : Tree.misflavored.Alike (Tree.misflavored.withDefaults true) := htells _ _ rfl
  obtain ⟨-, hmake, hevaluate⟩ := hsame _ _ h
  exact ⟨by decide, h, hmake .internal .internal ["1"], hevaluate "1"⟩

end LabelGrammar
