import LabelGrammar.Document.Basic
import LabelGrammar.Document.Decode
import LabelGrammar.Proofs.Document.Storable

/-! # Reading back documents

A tree is read back from its document for storage if and only if it is storable, and every tree
that is read from any document is.
-/

namespace LabelGrammar

namespace Document

variable {place : Place} {atRoot : Bool} {members : List (String × Json)} {header : Header}
  {kind : Kind} {flavor flavor' : Flavor} {args : Args} {t : Tree Flavor}

theorem checkFlavor_eq_ok_iff :
    checkFlavor flavor kind = .ok flavor' ↔ flavor.denotes kind = true ∧ flavor' = flavor := by
  unfold checkFlavor
  split
  · next hd => simp [hd, eq_comm]
  · next hd => simp [hd]

theorem header_flavor (h : readHeader place atRoot members = .ok header) :
    header.flavor.denotes header.kind = true ∧
      (header.kind = .sequence → header.flavor = .default .sequence atRoot) := by
  unfold readHeader at h
  simp only [bind_eq_ok_iff, mapError_eq_ok_iff, checkFlavor_eq_ok_iff] at h
  obtain ⟨-, -, kind, -, recorded, -, flavor, ⟨hd, rfl⟩, h⟩ := h
  split at h
  · obtain rfl := Except.ok.inj h
    exact ⟨hd, fun hk => by rw [show kind = .sequence from hk]; cases recorded <;> rfl⟩
  · cases h

def Args.kindOf : Args → Kind
  | .string _ _ _ => .string
  | .rest _ _ => .rest
  | .substring _ _ _ => .substring
  | .group _ shape => shape.kind

theorem kindOf_readArgs {v : Json} (h : readArgs kind v = .ok args) : args.kindOf = kind := by
  cases kind <;> simp only [readArgs, bind_eq_ok_iff] at h
  case string => obtain ⟨_, -, _, -, _, -, _, -, h⟩ := h; rw [← Except.ok.inj h]; rfl
  case rest => obtain ⟨_, -, _, -, _, -, h⟩ := h; rw [← Except.ok.inj h]; rfl
  case substring => obtain ⟨_, -, _, -, _, -, _, -, h⟩ := h; rw [← Except.ok.inj h]; rfl
  all_goals obtain ⟨_, -, _, -, h⟩ := h; rw [← Except.ok.inj h]; rfl

theorem integer_le {v : Json} {i : Int} (h : Json.integer v = .ok i) :
    i ≤ Limits.maxInteger64 := by
  cases v <;> simp only [Json.integer] at h <;> try cases h
  split at h
  · next hi => cases h; exact hi
  · cases h

theorem length_readArgs {v : Json} {id typeName : String} {length : Int}
    (h : readArgs kind v = .ok (.substring id length typeName)) :
    length ≤ Limits.maxInteger64 := by
  obtain rfl := kindOf_readArgs h
  simp only [Args.kindOf, readArgs, bind_eq_ok_iff] at h
  obtain ⟨members, -, _, -, i, hi, _, -, h⟩ := h
  obtain ⟨-, rfl, -⟩ := Args.substring.inj (Except.ok.inj h)
  unfold readField at hi
  split at hi
  · exact integer_le hi
  · cases hi

theorem readNode_obj (h : readNode place atRoot (.obj members) = .ok t) :
    ∃ header, readHeader place atRoot members = .ok header ∧ t.flavor = header.flavor ∧
      t.kind = header.kind ∧ (∀ l, t.rule = .leaf l → l.Valid) ∧
      (t.children = [] ∨ readChildren place members = .ok t.children) := by
  rw [readNode] at h
  simp only [bind_eq_ok_iff, mapError_eq_ok_iff] at h
  obtain ⟨header, hh, args, ha, h⟩ := h
  have hk := kindOf_readArgs ha
  refine ⟨header, hh, ?_⟩
  cases args with
  | string id pattern typeName =>
    simp only [bind_eq_ok_iff, mapError_eq_ok_iff, Leaf.makeString_eq_ok_iff] at h
    obtain ⟨l, ⟨rfl, hv⟩, h⟩ := h
    obtain rfl := Except.ok.inj h
    exact ⟨rfl, hk, fun l hl => by obtain rfl := Rule.leaf.inj hl; exact hv, .inl rfl⟩
  | rest id typeName =>
    simp only [bind_eq_ok_iff, mapError_eq_ok_iff, Leaf.makeRest_eq_ok_iff] at h
    obtain ⟨l, ⟨rfl, hv⟩, h⟩ := h
    obtain rfl := Except.ok.inj h
    exact ⟨rfl, hk, fun l hl => by obtain rfl := Rule.leaf.inj hl; exact hv, .inl rfl⟩
  | substring id length typeName =>
    simp only [bind_eq_ok_iff, mapError_eq_ok_iff,
      Leaf.makeSubstring_eq_ok_iff (length_readArgs ha)] at h
    obtain ⟨l, ⟨rfl, hv⟩, h⟩ := h
    obtain rfl := Except.ok.inj h
    exact ⟨rfl, hk, fun l hl => by obtain rfl := Rule.leaf.inj hl; exact hv, .inl rfl⟩
  | group id shape =>
    simp only [bind_eq_ok_iff] at h
    obtain ⟨ts, hts, h⟩ := h
    obtain rfl := Except.ok.inj h
    exact ⟨rfl, hk, fun l hl => (by cases hl), .inr hts⟩

theorem storable_of_header (hh : readHeader place atRoot members = .ok header)
    (hf : t.flavor = header.flavor) (hk : t.kind = header.kind)
    (hv : ∀ l, t.rule = .leaf l → l.Valid) (hc : ∀ c ∈ t.children, c.Storable false) :
    t.Storable atRoot := by
  obtain ⟨hd, hs⟩ := header_flavor hh
  rw [← hf, ← hk] at hd hs
  exact Tree.storable_of_children hv (fun _ => hd) hs hc

def AllStorable (result : Except GrammarError (List (Tree Flavor))) : Prop :=
  ∀ ts, result = .ok ts → ∀ t ∈ ts, t.Storable false

theorem allStorable_nil : AllStorable (.ok []) := by
  intro ts h t ht
  rw [← Except.ok.inj h] at ht
  cases ht

/-- Every tree that is read is storable. The induction follows the reader. -/
theorem storable_of_readNode {v : Json} (h : readNode place atRoot v = .ok t) :
    t.Storable atRoot := by
  revert h t
  -- One case for each branch of the reader; only nodes and items add to what is read.
  refine readNode.induct
    (fun place atRoot v => ∀ {t}, readNode place atRoot v = .ok t → t.Storable atRoot)
    (fun place members => AllStorable (readChildren place members))
    (fun place v => AllStorable (readArgsChildren place v))
    (fun place index items => AllStorable (readItems place index items))
    (fun place members => AllStorable (readMemberChildren place members))
    ?node ?notObject ?argsObject ?argsList ?argsElse ?itemsNil ?itemsCons ?childrenNil
    ?childrenArgs ?childrenSkip ?membersNil ?membersParsers ?membersSkip ?membersElse
    place atRoot v
  case node =>
    intro place atRoot members ih t h
    obtain ⟨header, hh, hf, hk, hv, hc⟩ := readNode_obj h
    refine storable_of_header hh hf hk hv fun c hm => ?_
    rcases hc with hc | hc
    · rw [hc] at hm; cases hm
    · exact ih _ hc c hm
  case notObject =>
    intro v place atRoot hv t h
    rw [readNode] at h
    · cases h
    · exact hv
  case argsObject => intro place members ih; rwa [readArgsChildren]
  case argsList => intro place v items tail ih; rwa [readArgsChildren]
  case argsElse =>
    intro v place ho ha
    rw [readArgsChildren]
    · exact allStorable_nil
    · exact ho
    · exact ha
  case itemsNil => intro place index; rw [readItems]; exact allStorable_nil
  case itemsCons =>
    intro place index v items ihv ih ts h
    simp only [readItems, bind_eq_ok_iff] at h
    obtain ⟨t, ht, us, hus, h⟩ := h
    obtain rfl := Except.ok.inj h
    rw [List.forall_mem_cons]
    exact ⟨ihv ht, ih us hus⟩
  case childrenNil => intro place; rw [readChildren]; exact allStorable_nil
  case childrenArgs => intro place v members ih; rwa [readChildren, if_pos rfl]
  case childrenSkip => intro place key v members hk ih; rwa [readChildren, if_neg hk]
  case membersNil => intro place; rw [readMemberChildren]; exact allStorable_nil
  case membersParsers => intro place items members ih; rwa [readMemberChildren, if_pos rfl]
  case membersSkip => intro place key items members hk ih; rwa [readMemberChildren, if_neg hk]
  case membersElse =>
    intro place m members hm ih
    rw [readMemberChildren]
    · exact ih
    · exact hm

theorem storable_of_parse {text : String} (h : parse text = .ok t) : t.Storable true := by
  unfold parse at h
  split at h
  · exact storable_of_readNode h
  · cases h

def nodeMembers (kind : Kind) (recorded : Option Flavor) (args : Json) : List (String × Json) :=
  ("args", args) :: ("parser", .str kind.name) ::
    match recorded with
    | some flavor => [("uiParser", .str flavor.tag)]
    | none => []

theorem sorted_node (kind : Kind) (recorded : Option Flavor) (args : List (String × Json)) :
    (node kind recorded args).sorted = .obj (nodeMembers kind recorded (Json.obj args).sorted) := by
  cases recorded <;> rfl

theorem sorted_groupFields (id : NodeId) (items : List Json) :
    (Json.obj [("id", .str id), ("parsers", .arr items)]).sorted =
      .obj [("id", .str id), ("parsers", .arr (items.map Json.sorted))] := by
  rw [← Json.sortedItems_eq_map]
  rfl

theorem readKind_nodeMembers (place : Place) (kind : Kind) (recorded : Option Flavor)
    (args : Json) : readKind place (nodeMembers kind recorded args) = .ok kind := by
  have hm : Json.member? "parser" (nodeMembers kind recorded args) = some (.str kind.name) := by
    cases recorded <;> rfl
  rw [readKind, hm]
  simp only [Kind.ofName?_name]

theorem readHeader_nodeMembers (place : Place) {recorded : Option Flavor} (args : Json)
    (hf : flavorAt atRoot kind recorded = flavor) (hd : flavor.denotes kind = true) :
    readHeader place atRoot (nodeMembers kind recorded args) = .ok ⟨kind, flavor, args⟩ := by
  have hkeys : checkKeys place (nodeMembers kind recorded args) = .ok () := by
    cases recorded <;> rfl
  have hflavor : readFlavor place (nodeMembers kind recorded args) = .ok recorded := by
    cases recorded <;> rfl
  have hcheck : checkFlavor flavor kind = .ok flavor := checkFlavor_eq_ok_iff.2 ⟨hd, rfl⟩
  rw [readHeader, hkeys, readKind_nodeMembers, hflavor]
  simp only [bind, Except.bind, hf, hcheck, Except.mapError]
  rfl

theorem flavorAt_recordedFlavor (h : t.Storable atRoot) :
    flavorAt atRoot t.kind (recordedFlavor .internal atRoot t.kind t.flavor) = t.flavor := by
  by_cases hk : t.kind = .sequence
  · rw [h.root hk, hk]
    rfl
  · have hf (recorded : Option Flavor) :
        flavorAt atRoot t.kind recorded = recorded.getD (.default t.kind atRoot) := by
      cases hkind : t.kind <;> cases recorded <;> first | rfl | exact (hk hkind).elim
    have hdef : Flavor.default t.kind atRoot = .default t.kind false := by
      cases hkind : t.kind <;> first | rfl | exact (hk hkind).elim
    rw [hf, recordedFlavor, hdef]
    split
    · rfl
    · split
      · next he => exact he.symm
      · rfl

theorem readItems_map {α : Type} {f : α → Json} {g : α → Tree Flavor} {as : List α}
    (h : ∀ a ∈ as, ∀ place, readNode place false (f a) = .ok (g a)) (place : Place) (index : Nat) :
    readItems place index (as.map f) = .ok (as.map g) := by
  induction as generalizing index with
  | nil => rw [List.map_nil, readItems, List.map_nil]
  | cons a as ih =>
    rw [List.forall_mem_cons] at h
    rw [List.map_cons, readItems, h.1, ih h.2]
    rfl

def leafArgs (id : NodeId) : Leaf → Args
  | .string pattern typeName => .string id pattern typeName
  | .rest typeName => .rest id typeName
  | .substring length typeName => .substring id length typeName

theorem readArgs_substring {id typeName : String} {v : Json} {length : Int}
    (h : Json.integer v = .ok length) :
    readArgs .substring (.obj [("id", .str id), ("length", v), ("type_name", .str typeName)]) =
      .ok (.substring id length typeName) := by
  simp [readArgs, substringArgs, FieldType.required, RecordType.members, RecordType.checkMember,
    RecordType.checkPresent, readField, Json.member?, Json.text, h, bind, Except.bind, Except.map,
    pure, Except.pure]

theorem readArgs_leafFields (id : NodeId) {l : Leaf} (h : l.Valid) :
    readArgs l.kind (Json.obj (leafFields id l)).sorted = .ok (leafArgs id l) := by
  cases l with
  | string => rfl
  | rest => rfl
  | substring length typeName =>
    exact readArgs_substring (if_pos h.2.1)

theorem readNode_leaf (place : Place) {recorded : Option Flavor} {id : NodeId} {l : Leaf}
    (hf : flavorAt atRoot l.kind recorded = flavor) (hd : flavor.denotes l.kind = true)
    (hv : l.Valid) : readNode place atRoot (node l.kind recorded (leafFields id l)).sorted =
      .ok (.leaf id flavor l) := by
  rw [sorted_node, readNode, readHeader_nodeMembers place _ hf hd]
  simp only [bind, Except.bind, readArgs_leafFields id hv, Except.mapError]
  cases l with
  | string pattern typeName =>
    have hm := Leaf.makeString_eq_ok_iff.2 ⟨rfl, hv⟩
    simp only [leafArgs, hm]
    rfl
  | rest typeName =>
    have hm := Leaf.makeRest_eq_ok_iff.2 ⟨rfl, hv⟩
    simp only [leafArgs, hm]
    rfl
  | substring length typeName =>
    have hm := (Leaf.makeSubstring_eq_ok_iff hv.2.1).2 ⟨rfl, hv⟩
    simp only [leafArgs, hm]
    rfl

theorem readNode_group (place : Place) {recorded : Option Flavor} {id : NodeId} {shape : Shape}
    {items : List Json} {ts : List (Tree Flavor)}
    (hf : flavorAt atRoot shape.kind recorded = flavor) (hd : flavor.denotes shape.kind = true)
    (hc : readItems place 0 (items.map Json.sorted) = .ok ts) :
    readNode place atRoot
        (node shape.kind recorded [("id", .str id), ("parsers", .arr items)]).sorted =
      .ok (.group id flavor shape ts) := by
  have ha : readArgs shape.kind
      (.obj [("id", .str id), ("parsers", .arr (items.map Json.sorted))]) =
      .ok (.group id shape) := by cases shape <;> rfl
  rw [sorted_node, sorted_groupFields, readNode, readHeader_nodeMembers place _ hf hd]
  simp only [bind, Except.bind, ha, Except.mapError]
  simp [nodeMembers, readChildren, readArgsChildren, readMemberChildren, hc, pure, Except.pure]

theorem readNode_sorted_toJson (h : t.Storable atRoot) (place : Place) :
    readNode place atRoot (toJson (ofNode .internal atRoot t)).sorted = .ok t := by
  induction t using Tree.children_induction generalizing atRoot place with
  | step t ih =>
    have hf := flavorAt_recordedFlavor h
    have hd := h.flavor_denotes
    cases t with
    | leaf id flavor l =>
      exact readNode_leaf place hf hd (h.fields _ (Tree.self_mem_subtrees _) l rfl)
    | group id flavor shape ts =>
      have hc : readItems place 0 (((ts.map (ofNode .internal false)).map toJson).map
          Json.sorted) = .ok ts := by
        have hm := readItems_map (fun t ht place => ih t ht (h.child ht) place) place 0
        rw [List.map_id'] at hm
        rw [List.map_map, List.map_map]
        exact hm
      rw [ofNode, ofNodes_eq_map, toJson, toJsonAll_eq_map]
      exact readNode_group place hf hd hc

theorem toTree_ofTree (h : t.Storable true) : toTree (ofTree .internal t).toValue = .ok t :=
  readNode_sorted_toJson h .root

/-- A tree is read back from its document if and only if it is storable, and a tree that was read
from any value is read back from its own document. -/
theorem toTree_toValue : (∀ t, toTree (ofTree .internal t).toValue = .ok t ↔ t.Storable true) ∧
    ∀ v t, toTree v = .ok t → t.Storable true ∧ toTree (ofTree .internal t).toValue = .ok t := by
  refine ⟨fun t => ⟨storable_of_readNode, toTree_ofTree⟩, fun v t h => ?_⟩
  have hs : t.Storable true := storable_of_readNode h
  exact ⟨hs, toTree_ofTree hs⟩

def misplacedFlavor : Json :=
  node .sequence none [("id", .str "root"), ("parsers", .arr
    [node .sequence (some .rootSequence) [("id", .str "inner"), ("parsers", .arr [])]])]

theorem toTree_misplacedFlavor :
    ∃ t, toTree misplacedFlavor = .ok t ∧ t.Storable true ∧
      toTree (ofTree .internal t).toValue = .ok t :=
  ⟨.group "root" .rootSequence .sequence [.group "inner" .innerSequence .sequence []], rfl,
    toTree_toValue.2 misplacedFlavor _ rfl⟩

end Document

end LabelGrammar
