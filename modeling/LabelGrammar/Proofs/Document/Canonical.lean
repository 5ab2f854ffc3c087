import LabelGrammar.Proofs.Document.Records
import LabelGrammar.Proofs.Document.RoundTrip

/-! # The values that are read as trees

A value that is read as a tree is the document of the tree for a tokenizer, except that it may
record flavors and that arguments may be given by position.
-/

namespace LabelGrammar

namespace Document

mutual

/-- Changes the members of every grammar object, from the innermost ones on. -/
def mapNodes (f : List (String × Json) → List (String × Json)) : Json → Json
  | .obj members => .obj (f (mapMembers f members))
  | v => v

def mapMembers (f : List (String × Json) → List (String × Json)) :
    List (String × Json) → List (String × Json)
  | [] => []
  | (key, v) :: members =>
    (key, if key = "args" then mapArgs f v else v) :: mapMembers f members

def mapArgs (f : List (String × Json) → List (String × Json)) : Json → Json
  | .obj fields => .obj (mapFields f fields)
  | .arr (id :: .arr items :: rest) => .arr (id :: .arr (mapItems f items) :: rest)
  | v => v

def mapFields (f : List (String × Json) → List (String × Json)) :
    List (String × Json) → List (String × Json)
  | [] => []
  | (key, .arr items) :: fields =>
    (key, .arr (if key = "parsers" then mapItems f items else items)) :: mapFields f fields
  | field :: fields => field :: mapFields f fields

def mapItems (f : List (String × Json) → List (String × Json)) : List Json → List Json
  | [] => []
  | v :: items => mapNodes f v :: mapItems f items

end

theorem mapItems_eq_map (f : List (String × Json) → List (String × Json)) (items : List Json) :
    mapItems f items = items.map (mapNodes f) := by
  induction items with
  | nil => rfl
  | cons v items ih => rw [mapItems, ih, List.map_cons]

def unflavored : Json → Json := mapNodes (·.filter (·.1 ≠ "uiParser"))

def argsType : Kind → RecordType
  | .string => stringArgs
  | .rest => restArgs
  | .substring => substringArgs
  | .sequence | .choice => containerArgs

def argNames (kind : Kind) : List String := (argsType kind).fields.map (·.name)

/-- Names arguments that are given by position. -/
def nameArgs (kind : Kind) : Json → Json
  | .arr items => .obj ((argNames kind).zip items)
  | v => v

def nameMembers (members : List (String × Json)) : List (String × Json) :=
  match readKind .root members with
  | .ok kind => members.map fun (key, v) => (key, if key = "args" then nameArgs kind v else v)
  | .error _ => members

def named : Json → Json := mapNodes nameMembers

/-- No arguments are given by position. -/
def Named (v : Json) : Prop := named v = v

def Args.fields (items : List Json) : Args → List (String × Json)
  | .string id pattern typeName =>
    [("id", .str id), ("s", .str pattern), ("type_name", .str typeName)]
  | .rest id typeName => [("id", .str id), ("type_name", .str typeName)]
  | .substring id length typeName =>
    [("id", .str id), ("length", .int length), ("type_name", .str typeName)]
  | .group id _ => [("id", .str id), ("parsers", .arr items)]

theorem strict_argsType (kind : Kind) : (argsType kind).Strict := by
  constructor
  case closed => cases kind <;> rfl
  case required => cases kind <;> decide
  case increasing => cases kind <;> decide

theorem eq_str_of_text {v : Json} {s : String} (h : Json.text v = .ok s) : v = .str s := by
  cases v <;> cases h
  rfl

theorem eq_int_of_integer {v : Json} {i : Int} (h : Json.integer v = .ok i) : v = .int i := by
  cases v <;> simp only [Json.integer] at h <;> try cases h
  split at h
  · cases h
    rfl
  · cases h

theorem eq_arr_of_list {v : Json} {items : List Json} (h : Json.list v = .ok items) :
    v = .arr items := by
  cases v <;> cases h
  rfl

theorem readField_eq_ok_iff {α : Type} {members : List (String × Json)} {name : String}
    {read : Json → Except FieldError α} {a : α} :
    readField members name read = .ok a ↔
      ∃ v, Json.member? name members = some v ∧ read v = .ok a := by
  unfold readField
  cases Json.member? name members <;> simp

theorem member?_of_text {members : List (String × Json)} {name s : String}
    (h : readField members name Json.text = .ok s) :
    Json.member? name members = some (.str s) := by
  obtain ⟨v, hm, hv⟩ := readField_eq_ok_iff.1 h
  rw [hm, eq_str_of_text hv]

theorem member?_of_integer {members : List (String × Json)} {name : String} {i : Int}
    (h : readField members name Json.integer = .ok i) :
    Json.member? name members = some (.int i) := by
  obtain ⟨v, hm, hv⟩ := readField_eq_ok_iff.1 h
  rw [hm, eq_int_of_integer hv]

theorem increasing_fields (args : Args) (items : List Json) :
    Json.Increasing (args.fields items) := by
  unfold Json.Increasing
  cases args <;> simp only [Args.fields, List.map_cons, List.map_nil] <;> decide

theorem eq_fields {kind : Kind} {members : List (String × Json)} {args : Args}
    {items : List Json} (hh : (argsType kind).Holds members)
    (hn : argNames kind = (args.fields items).map Prod.fst)
    (hm : ∀ m ∈ args.fields items, Json.member? m.1 members = some m.2) :
    members = args.fields items :=
  Json.eq_of_member? (increasing_fields args items) (hh.names.trans hn) hm

theorem exists_items {members : List (String × Json)} {id : NodeId}
    (hh : containerArgs.Holds members) (hid : readField members "id" Json.text = .ok id) :
    ∃ items, members = [("id", .str id), ("parsers", .arr items)] := by
  have hf : FieldType.required "parsers" Json.list ∈ containerArgs.fields :=
    List.mem_cons_of_mem _ List.mem_cons_self
  obtain ⟨v, hv, hc⟩ := (strict_argsType .choice).exists_member hh hf
  obtain ⟨items, hi, -⟩ := map_eq_ok_iff.1 hc
  obtain rfl := eq_arr_of_list hi
  have hi : Json.Increasing [("id", .str id), ("parsers", .arr items)] :=
    increasing_fields (.group id .choice) items
  refine ⟨items, Json.eq_of_member? hi hh.names ?_⟩
  rw [List.forall_mem_cons, List.forall_mem_singleton]
  exact ⟨member?_of_text hid, hv⟩

theorem readArgs_cases {kind : Kind} {v : Json} {args : Args} (hv : v.Ordered)
    (h : readArgs kind v = .ok args) : ∃ items,
      v = .obj (args.fields items) ∨ v = .arr ((args.fields items).map Prod.snd) := by
  have hs := strict_argsType kind
  cases kind with
  | string =>
    simp only [readArgs, bind_eq_ok_iff] at h
    obtain ⟨m, hm, id, hid, pattern, hp, typeName, ht, h⟩ := h
    cases h
    obtain ⟨hc, hh⟩ := hs.members_cases hv hm
    have he : m = (Args.string id pattern typeName).fields [] := eq_fields hh rfl
      (by simp [Args.fields, member?_of_text hid, member?_of_text hp, member?_of_text ht])
    exact ⟨[], he ▸ hc⟩
  | rest =>
    simp only [readArgs, bind_eq_ok_iff] at h
    obtain ⟨m, hm, id, hid, typeName, ht, h⟩ := h
    cases h
    obtain ⟨hc, hh⟩ := hs.members_cases hv hm
    have he : m = (Args.rest id typeName).fields [] := eq_fields hh rfl
      (by simp [Args.fields, member?_of_text hid, member?_of_text ht])
    exact ⟨[], he ▸ hc⟩
  | substring =>
    simp only [readArgs, bind_eq_ok_iff] at h
    obtain ⟨m, hm, id, hid, length, hl, typeName, ht, h⟩ := h
    cases h
    obtain ⟨hc, hh⟩ := hs.members_cases hv hm
    have he : m = (Args.substring id length typeName).fields [] := eq_fields hh rfl
      (by simp [Args.fields, member?_of_text hid, member?_of_integer hl, member?_of_text ht])
    exact ⟨[], he ▸ hc⟩
  | sequence | choice =>
    simp only [readArgs, bind_eq_ok_iff] at h
    obtain ⟨m, hm, id, hid, h⟩ := h
    cases h
    obtain ⟨hc, hh⟩ := hs.members_cases hv hm
    obtain ⟨items, rfl⟩ := exists_items hh hid
    exact ⟨items, hc⟩

variable {place : Place} {atRoot : Bool} {members : List (String × Json)} {header : Header}
  {kind : Kind} {t : Tree Flavor} {v : Json}

theorem mem_of_checkKeys (h : checkKeys place members = .ok ()) :
    ∀ m ∈ members, m.1 = "parser" ∨ m.1 = "args" ∨ m.1 = "uiParser" := by
  intro m hm
  unfold checkKeys at h
  split at h
  · cases h
  · next hf =>
    have hk := List.find?_eq_none.1 hf m hm
    simp only [bne_iff_ne, ne_eq, Bool.and_eq_true, not_and, not_not] at hk
    tauto

theorem member?_of_readKind (h : readKind place members = .ok kind) :
    Json.member? "parser" members = some (.str kind.name) := by
  unfold readKind at h
  split at h
  · next name hm =>
    split at h
    · next hk =>
      cases h
      rw [hm, Kind.name_of_ofName? hk]
    · cases h
  · cases h
  · cases h

theorem member?_of_readFlavor {recorded : Option Flavor}
    (h : readFlavor place members = .ok recorded) :
    Json.member? "uiParser" members = recorded.map fun flavor => .str flavor.tag := by
  unfold readFlavor at h
  split at h
  · next tag hm =>
    cases h
    exact hm
  · cases h
  · next hm =>
    cases h
    exact hm

theorem increasing_nodeMembers (kind : Kind) (recorded : Option Flavor) (args : Json) :
    Json.Increasing (nodeMembers kind recorded args) := by
  unfold Json.Increasing
  cases recorded <;> simp only [nodeMembers, List.map_cons, List.map_nil] <;> decide

theorem readHeader_cases (hi : Json.Increasing members)
    (h : readHeader place atRoot members = .ok header) :
    ∃ recorded, members = nodeMembers header.kind recorded header.args := by
  unfold readHeader at h
  simp only [bind_eq_ok_iff, mapError_eq_ok_iff] at h
  obtain ⟨⟨⟩, hkeys, kind, hkind, recorded, hrecorded, flavor, -, h⟩ := h
  split at h
  · next args hargs =>
    cases h
    refine ⟨recorded, hi.ext (increasing_nodeMembers ..) ?_⟩
    intro key
    by_cases hp : key = "parser"
    · rw [hp, member?_of_readKind hkind]
      cases recorded <;> rfl
    by_cases ha : key = "args"
    · rw [ha, hargs]
      rfl
    by_cases hu : key = "uiParser"
    · rw [hu, member?_of_readFlavor hrecorded]
      cases recorded <;> rfl
    rw [Json.member?_eq_none_iff.2, Json.member?_eq_none_iff.2]
    · cases recorded <;> simp [nodeMembers, hp, ha, hu]
    · rintro hk
      obtain ⟨m, hm, rfl⟩ := List.mem_map.1 hk
      rcases mem_of_checkKeys hkeys m hm with h | h | h
      · exact hp h
      · exact ha h
      · exact hu h
  · cases h

/-- A value is a node with the given arguments and children, by name or by position. -/
def Writes (args : Args) (items : List Json) (v : Json) : Prop :=
  ∃ recorded fields, v = .obj (nodeMembers args.kindOf recorded fields) ∧
    (fields = .obj (args.fields items) ∨ fields = .arr ((args.fields items).map Prod.snd))

theorem readNode_cases (hv : v.Ordered) (h : readNode place atRoot v = .ok t) :
    ∃ args items, Writes args items v ∧
      ((∃ id flavor l, t = .leaf id flavor l ∧ args = leafArgs id l) ∨
        ∃ id flavor shape ts, t = .group id flavor shape ts ∧ args = .group id shape ∧
          readItems place 0 items = .ok ts) := by
  cases hv with
  | @obj members hi hm =>
    rw [readNode] at h
    simp only [bind_eq_ok_iff, mapError_eq_ok_iff] at h
    obtain ⟨⟨kind, flavor, v⟩, hh, args, ha, h⟩ := h
    obtain ⟨recorded, rfl⟩ := readHeader_cases hi hh
    obtain ⟨items, hw⟩ := readArgs_cases (hm ("args", v) List.mem_cons_self) ha
    obtain rfl := kindOf_readArgs ha
    refine ⟨args, items, ⟨recorded, v, rfl, hw⟩, ?_⟩
    cases args with
    | string id pattern typeName =>
      simp only [bind_eq_ok_iff, mapError_eq_ok_iff, Leaf.makeString_eq_ok_iff] at h
      obtain ⟨l, ⟨rfl, -⟩, h⟩ := h
      cases h
      exact .inl ⟨id, flavor, _, rfl, rfl⟩
    | rest id typeName =>
      simp only [bind_eq_ok_iff, mapError_eq_ok_iff, Leaf.makeRest_eq_ok_iff] at h
      obtain ⟨l, ⟨rfl, -⟩, h⟩ := h
      cases h
      exact .inl ⟨id, flavor, _, rfl, rfl⟩
    | substring id length typeName =>
      simp only [bind_eq_ok_iff, mapError_eq_ok_iff,
        Leaf.makeSubstring_eq_ok_iff (length_readArgs ha)] at h
      obtain ⟨l, ⟨rfl, hl⟩, h⟩ := h
      cases h
      have he : (length.toNat : Int) = length := Int.toNat_of_nonneg (by have := hl.1; omega)
      exact .inl ⟨id, flavor, _, rfl, by rw [leafArgs, he]⟩
    | group id shape =>
      simp only [bind_eq_ok_iff] at h
      obtain ⟨ts, hts, h⟩ := h
      cases h
      refine .inr ⟨id, flavor, shape, ts, rfl, rfl, ?_⟩
      rcases hw with rfl | rfl
      · simpa [nodeMembers, readChildren, readArgsChildren, Args.fields, readMemberChildren]
          using hts
      · simpa [nodeMembers, readChildren, readArgsChildren, Args.fields] using hts
  | arr => cases h
  | null => cases h
  | bool => cases h
  | int => cases h
  | float => cases h
  | str => cases h

theorem Writes.ordered_items {id : NodeId} {shape : Shape} {items : List Json}
    (h : Writes (.group id shape) items v) (hv : v.Ordered) : ∀ item ∈ items, item.Ordered := by
  obtain ⟨recorded, fields, rfl, hf⟩ := h
  have hfields : fields.Ordered := by
    cases hv with
    | obj _ hm => exact hm ("args", fields) List.mem_cons_self
  have hitems : (Json.arr items).Ordered := by
    rcases hf with rfl | rfl
    · cases hfields with
      | obj _ hm => exact hm ("parsers", .arr items) (by simp [Args.fields])
    · cases hfields with
      | arr hm => exact hm (.arr items) (by simp [Args.fields])
  cases hitems with
  | arr hm => exact hm

theorem forall₂_of_readItems {R : Json → Tree Flavor → Prop} {items : List Json}
    {ts : List (Tree Flavor)} {index : Nat} (h : ∀ v ∈ items, ∀ t ∈ ts, ∀ place,
      readNode place false v = .ok t → R v t) (hr : readItems place index items = .ok ts) :
    List.Forall₂ R items ts := by
  induction items generalizing ts index with
  | nil =>
    rw [readItems] at hr
    cases hr
    exact .nil
  | cons v items ih =>
    simp only [readItems, bind_eq_ok_iff] at hr
    obtain ⟨t, ht, us, hus, hr⟩ := hr
    cases hr
    refine .cons (h v List.mem_cons_self t List.mem_cons_self _ ht) (ih ?_ hus)
    exact fun v hv t ht => h v (List.mem_cons_of_mem _ hv) t (List.mem_cons_of_mem _ ht)

theorem map_eq_of_readItems {α : Type} {f : Json → α} {g : Tree Flavor → α} {items : List Json}
    {ts : List (Tree Flavor)} {index : Nat} (h : ∀ v ∈ items, ∀ t ∈ ts, ∀ place,
      readNode place false v = .ok t → f v = g t) (hr : readItems place index items = .ok ts) :
    items.map f = ts.map g := by
  rw [← List.forall₂_eq_eq_eq, List.forall₂_map_left_iff, List.forall₂_map_right_iff]
  exact forall₂_of_readItems h hr

section Maps

variable (f : List (String × Json) → List (String × Json)) (args : Args) (items : List Json)

theorem mapNodes_nodeMembers (kind : Kind) (recorded : Option Flavor) (fields : Json) :
    mapNodes f (.obj (nodeMembers kind recorded fields)) =
      .obj (f (nodeMembers kind recorded (mapArgs f fields))) := by
  cases recorded <;> simp [nodeMembers, mapNodes, mapMembers]

theorem mapArgs_obj_fields :
    mapArgs f (.obj (args.fields items)) = .obj (args.fields (items.map (mapNodes f))) := by
  rw [← mapItems_eq_map]
  cases args <;> simp [Args.fields, mapArgs, mapFields]

theorem mapArgs_arr_fields :
    mapArgs f (.arr ((args.fields items).map Prod.snd)) =
      .arr ((args.fields (items.map (mapNodes f))).map Prod.snd) := by
  rw [← mapItems_eq_map]
  cases args <;> simp [Args.fields, mapArgs]

end Maps

theorem nameArgs_arr_fields (args : Args) (items : List Json) :
    nameArgs args.kindOf (.arr ((args.fields items).map Prod.snd)) = .obj (args.fields items) := by
  cases args with
  | group id shape => cases shape <;> rfl
  | _ => rfl

theorem nameMembers_nodeMembers (kind : Kind) (recorded : Option Flavor) (fields : Json) :
    nameMembers (nodeMembers kind recorded fields) =
      nodeMembers kind recorded (nameArgs kind fields) := by
  rw [nameMembers, readKind_nodeMembers]
  cases recorded <;> simp [nodeMembers]

theorem unflavored_nodeMembers (args : Args) (recorded : Option Flavor) (items : List Json) :
    unflavored (.obj (nodeMembers args.kindOf recorded (.obj (args.fields items)))) =
      .obj (nodeMembers args.kindOf none (.obj (args.fields (items.map unflavored)))) := by
  rw [unflavored, mapNodes_nodeMembers, mapArgs_obj_fields]
  cases recorded <;> simp [nodeMembers]

theorem Writes.unflavored_named {args : Args} {items : List Json} (h : Writes args items v) :
    unflavored (named v) = .obj (nodeMembers args.kindOf none
      (.obj (args.fields (items.map fun v => unflavored (named v))))) := by
  obtain ⟨recorded, fields, rfl, hf⟩ := h
  have hn : nameArgs args.kindOf (mapArgs nameMembers fields) =
      .obj (args.fields (items.map named)) := by
    rcases hf with rfl | rfl
    · rw [mapArgs_obj_fields, nameArgs]
      · rfl
      · rintro items ⟨⟩
    · rw [mapArgs_arr_fields, nameArgs_arr_fields]
      rfl
  rw [named, mapNodes_nodeMembers, nameMembers_nodeMembers, hn, unflavored_nodeMembers,
    List.map_map]
  rfl

theorem sorted_toJson_leaf (atRoot : Bool) (id : NodeId) (flavor : Flavor) (l : Leaf) :
    (toJson (ofNode .external atRoot (.leaf id flavor l))).sorted =
      .obj (nodeMembers (leafArgs id l).kindOf none (.obj ((leafArgs id l).fields []))) := by
  rw [ofNode, toJson, sorted_node]
  cases l <;> rfl

theorem sorted_toJson_group (atRoot : Bool) (id : NodeId) (flavor : Flavor) (shape : Shape)
    (ts : List (Tree Flavor)) :
    (toJson (ofNode .external atRoot (.group id flavor shape ts))).sorted =
      .obj (nodeMembers shape.kind none (.obj ((Args.group id shape).fields
        (ts.map fun t => (toJson (ofNode .external false t)).sorted)))) := by
  rw [ofNode, toJson, sorted_node, ofNodes_eq_map, toJsonAll_eq_map, sorted_groupFields,
    List.map_map, List.map_map]
  rfl

theorem unflavored_named_of_readNode (hv : v.Ordered) (h : readNode place atRoot v = .ok t) :
    unflavored (named v) = (toJson (ofNode .external atRoot t)).sorted := by
  induction t using Tree.children_induction generalizing place atRoot v with
  | step t ih =>
    obtain ⟨args, items, hw, ⟨id, flavor, l, rfl, rfl⟩ | ⟨id, flavor, shape, ts, rfl, rfl, hts⟩⟩ :=
      readNode_cases hv h
    · rw [hw.unflavored_named, sorted_toJson_leaf]
      cases l <;> rfl
    · rw [hw.unflavored_named, sorted_toJson_group, Args.kindOf]
      have hi := hw.ordered_items hv
      rw [map_eq_of_readItems (fun v hv t ht _ h => ih t ht (hi v hv) h) hts]
      rfl

theorem unflavored_named_of_parse {text : String} (h : parse text = .ok t) :
    ∃ v, Json.parse? text = some v ∧ unflavored (named v) = (ofTree .external t).toValue := by
  unfold parse at h
  split at h
  · next v hv => exact ⟨v, hv, unflavored_named_of_readNode (Json.ordered_of_parse? hv) h⟩
  · cases h

/-- A value that is read as a tree becomes the document of the tree for a tokenizer once its
arguments have names and its flavors are left out. If they have names already, it differs from
that document by flavors alone. -/
theorem unflavored_of_toTree (hv : v.Ordered) (h : toTree v = .ok t) :
    unflavored (named v) = (ofTree .external t).toValue ∧
      (Named v → unflavored v = (ofTree .external t).toValue) := by
  have hn : unflavored (named v) = (ofTree .external t).toValue :=
    unflavored_named_of_readNode hv h
  refine ⟨hn, ?_⟩
  intro hnamed
  rwa [hnamed] at hn

theorem unflavored_misplacedFlavor :
    misplacedFlavor.sorted.Ordered ∧ ∃ t, toTree misplacedFlavor.sorted = .ok t ∧
      Named misplacedFlavor.sorted ∧
      unflavored misplacedFlavor.sorted = (ofTree .external t).toValue := by
  have h : toTree misplacedFlavor.sorted = .ok (.group "root" .rootSequence .sequence
      [.group "inner" .innerSequence .sequence []]) := rfl
  have hv := misplacedFlavor.ordered_sorted
  exact ⟨hv, _, h, rfl, (unflavored_of_toTree hv h).2 rfl⟩

def positionalRest : Json :=
  .obj [("args", .arr [.str "r", .str "Tail"]), ("parser", .str "rest")]

/-- Arguments by position are accepted, although no document is written with them. -/
theorem toTree_positionalRest : positionalRest.Ordered ∧
    ∃ t, toTree positionalRest = .ok t ∧
      unflavored positionalRest ≠ (ofTree .external t).toValue := by
  refine ⟨positionalRest.ordered_sorted, .leaf "r" (.default .rest true) (.rest "Tail"), rfl, ?_⟩
  intro h
  cases h

end Document

end LabelGrammar
