import Mathlib.Data.List.Lex
import LabelGrammar.Proofs.Document.Canonical

/-! # The first problem of a document

A value is read as a tree if every one of its nodes is well-formed on its own. Otherwise the error
is that of the first node in pre-order that is not, whatever else is wrong after it or below it.
-/

namespace LabelGrammar

def Malformation.suffix : Malformation → String
  | .args _ => ".args"
  | _ => ""

namespace Document

def Args.id : Args → NodeId
  | .string id _ _ | .rest id _ | .substring id _ _ | .group id _ => id

def Args.rule : Args → Except ValidationError Rule
  | .string _ pattern typeName => (Leaf.makeString pattern typeName).map .leaf
  | .rest _ typeName => (Leaf.makeRest typeName).map .leaf
  | .substring _ length typeName => (Leaf.makeSubstring length typeName).map .leaf
  | .group _ shape => .ok (.group shape)

def nodeKeys : List String := ["parser", "args", "uiParser"]

structure Keyed (members : List (String × Json)) : Prop where
  keys : ∀ m ∈ members, m.1 ∈ nodeKeys

structure OfKind (members : List (String × Json)) (kind : Kind) : Prop extends Keyed members where
  parser : Json.member? "parser" members = some (.str kind.name)

structure Flavored (members : List (String × Json)) (kind : Kind) : Prop extends
    OfKind members kind where
  uiParser : ∀ v, Json.member? "uiParser" members = some v →
    ∃ tag, v = .str tag ∧ (kind ≠ .sequence → Flavor.denotes ⟨tag⟩ kind = true)

structure Complete (members : List (String × Json)) (kind : Kind) (args : Args) : Prop extends
    Flavored members kind where
  args : ∃ v, Json.member? "args" members = some v ∧ readArgs kind v = .ok args

/-- A node without its children is as it should be: its members pass one check after the other, and
the fields of its arguments pass the checks of its rule. -/
inductive WellFormed : Json → Prop where
  | obj {members : List (String × Json)} {kind : Kind} {args : Args} {rule : Rule} :
      Complete members kind args → args.rule = .ok rule → WellFormed (.obj members)

/-- What is wrong with a node without its children: the first check that it does not pass. -/
inductive LocalError (way : List Nat) : Json → GrammarError → Prop where
  | notAnObject {v : Json} : (∀ members, v ≠ .obj members) →
      LocalError way v (.malformed ⟨way, false⟩ .notAnObject)
  | unexpectedKey {members : List (String × Json)} {key : String} {v : Json} :
      members.find? (·.1 ∉ nodeKeys) = some (key, v) →
      LocalError way (.obj members) (.malformed ⟨way, false⟩ (.unexpectedKey key))
  | kindMissing {members : List (String × Json)} : Keyed members →
      Json.member? "parser" members = none →
      LocalError way (.obj members) (.malformed ⟨way, false⟩ .kindMissing)
  | kindNotText {members : List (String × Json)} {v : Json} : Keyed members →
      Json.member? "parser" members = some v → (∀ name, v ≠ .str name) →
      LocalError way (.obj members) (.malformed ⟨way, false⟩ .kindNotText)
  | unknownKind {members : List (String × Json)} {name : String} : Keyed members →
      Json.member? "parser" members = some (.str name) → (∀ kind : Kind, kind.name ≠ name) →
      LocalError way (.obj members) (.unknownKind name)
  | flavorNotText {members : List (String × Json)} {kind : Kind} {v : Json} :
      OfKind members kind → Json.member? "uiParser" members = some v → (∀ tag, v ≠ .str tag) →
      LocalError way (.obj members) (.malformed ⟨way, false⟩ .flavorNotText)
  | flavorMismatch {members : List (String × Json)} {kind : Kind} {tag : String} :
      OfKind members kind → Json.member? "uiParser" members = some (.str tag) →
      kind ≠ .sequence → Flavor.denotes ⟨tag⟩ kind = false →
      LocalError way (.obj members) (.invalid (.flavorMismatch ⟨tag⟩ kind))
  | argsMissing {members : List (String × Json)} {kind : Kind} : Flavored members kind →
      Json.member? "args" members = none →
      LocalError way (.obj members) (.malformed ⟨way, false⟩ .argsMissing)
  | args {members : List (String × Json)} {kind : Kind} {v : Json} {cause : FieldError} :
      Flavored members kind → Json.member? "args" members = some v →
      readArgs kind v = .error cause →
      LocalError way (.obj members) (.malformed ⟨way, true⟩ (.args cause))
  | rule {members : List (String × Json)} {kind : Kind} {args : Args} {cause : ValidationError} :
      Complete members kind args → args.rule = .error cause →
      LocalError way (.obj members) (.invalid cause)

def readAlone (place : Place) (atRoot : Bool) : Json → Except GrammarError (Tree Flavor)
  | .obj members => do
    let header ← readHeader place atRoot members
    let args ← (readArgs header.kind header.args).mapError fun e => .malformed place.args (.args e)
    let rule ← args.rule.mapError .invalid
    return .ofRule args.id header.flavor rule
  | _ => .error (.malformed place .notAnObject)

def parsersOf (args : Json) : List Json :=
  match (containerArgs.members args).bind fun fields => readField fields "parsers" Json.list with
  | .ok items => items
  | .error _ => []

def childNodes : Json → List Json
  | .obj members =>
    match Json.member? "parser" members, Json.member? "args" members with
    | some (.str name), some args =>
      if (Kind.ofName? name).any Kind.isContainer then parsersOf args else []
    | _, _ => []
  | _ => []

def nodeAt? (v : Json) : List Nat → Option Json
  | [] => some v
  | i :: way => (childNodes v)[i]?.bind fun u => nodeAt? u way

/-- A value is read if all its nodes are well-formed, and otherwise refused for the first one that
is not. Ways are compared from the left, so that a node comes before those below it, and those come
before its later siblings. -/
structure ReportsFirst (v : Json) : Prop where
  accepted : (∃ t, toTree v = .ok t) ↔ ∀ way u, nodeAt? v way = some u → WellFormed u
  refused (e : GrammarError) : toTree v = .error e ↔
    ∃ way u, nodeAt? v way = some u ∧ LocalError way u e ∧
      ∀ way' u', way' < way → nodeAt? v way' = some u' → WellFormed u'
  wellFormed_iff (way : List Nat) (u : Json) : WellFormed u ↔ ∀ e, ¬ LocalError way u e
  unique {way : List Nat} {u : Json} {e e' : GrammarError} :
    LocalError way u e → LocalError way u e' → e = e'
  /-- The text of the place tells the way, and whether arguments are meant. -/
  path {place : Place} {cause : Malformation} : toTree v = .error (.malformed place cause) →
    (∃ u, nodeAt? v place.indices = some u ∧
      LocalError place.indices u (.malformed place cause)) ∧
    place.render = "$" ++ String.join (place.indices.map fun i => s!".args.parsers[{i}]") ++
      cause.suffix

variable {way : List Nat} {atRoot : Bool} {members : List (String × Json)} {kind : Kind}
  {place : Place} {args : Args} {v : Json} {e : GrammarError}

theorem keyed_iff : Keyed members ↔ members.find? (·.1 ∉ nodeKeys) = none := by
  rw [List.find?_eq_none]
  exact ⟨fun h m hm => by simpa using h.keys m hm, fun h => ⟨fun m hm => by simpa using h m hm⟩⟩

theorem Keyed.ofKind_or (h : Keyed members) (way : List Nat) :
    (∃ kind, OfKind members kind) ∨ ∃ e, LocalError way (.obj members) e := by
  cases hp : Json.member? "parser" members with
  | none => exact .inr ⟨_, .kindMissing h hp⟩
  | some v =>
    by_cases hv : ∀ name, v ≠ .str name
    case pos => exact .inr ⟨_, .kindNotText h hp hv⟩
    obtain ⟨name, rfl⟩ := not_forall_not.1 hv
    by_cases hk : ∀ kind : Kind, kind.name ≠ name
    case pos => exact .inr ⟨_, .unknownKind h hp hk⟩
    obtain ⟨kind, rfl⟩ := not_forall_not.1 hk
    exact .inl ⟨kind, h, hp⟩

theorem OfKind.flavored_or (h : OfKind members kind) (way : List Nat) :
    Flavored members kind ∨ ∃ e, LocalError way (.obj members) e := by
  cases hu : Json.member? "uiParser" members with
  | none => exact .inl ⟨h, fun v hv => by rw [hu] at hv; cases hv⟩
  | some v =>
    by_cases hv : ∀ tag, v ≠ .str tag
    case pos => exact .inr ⟨_, .flavorNotText h hu hv⟩
    obtain ⟨tag, rfl⟩ := not_forall_not.1 hv
    by_cases hd : kind ≠ .sequence ∧ Flavor.denotes ⟨tag⟩ kind = false
    case pos => exact .inr ⟨_, .flavorMismatch h hu hd.1 hd.2⟩
    refine .inl ⟨h, fun v hv => ?_⟩
    rw [hu] at hv
    obtain rfl := Option.some.inj hv
    exact ⟨tag, rfl, fun hs => by simpa using mt (And.intro hs) hd⟩

theorem Flavored.complete_or (h : Flavored members kind) (way : List Nat) :
    (∃ args, Complete members kind args) ∨ ∃ e, LocalError way (.obj members) e := by
  cases ha : Json.member? "args" members with
  | none => exact .inr ⟨_, .argsMissing h ha⟩
  | some v =>
    cases hr : readArgs kind v with
    | error cause => exact .inr ⟨_, .args h ha hr⟩
    | ok args => exact .inl ⟨args, h, v, ha, hr⟩

/-- One check after the other is passed, or one of them is the first that is not. -/
theorem wellFormed_or_localError (way : List Nat) (v : Json) :
    WellFormed v ∨ ∃ e, LocalError way v e := by
  by_cases hv : ∀ members, v ≠ .obj members
  case pos => exact .inr ⟨_, .notAnObject hv⟩
  obtain ⟨members, rfl⟩ := not_forall_not.1 hv
  cases hf : members.find? (·.1 ∉ nodeKeys) with
  | some m => exact .inr ⟨_, .unexpectedKey hf⟩
  | none =>
    rcases (keyed_iff.2 hf).ofKind_or way with ⟨kind, hk⟩ | he
    case inr => exact .inr he
    rcases hk.flavored_or way with hk | he
    case inr => exact .inr he
    rcases hk.complete_or way with ⟨args, hc⟩ | he
    case inr => exact .inr he
    cases hr : args.rule with
    | error cause => exact .inr ⟨_, .rule hc hr⟩
    | ok rule => exact .inl (.obj hc hr)

theorem checkKeys_eq (place : Place) (members : List (String × Json)) :
    checkKeys place members = match members.find? (·.1 ∉ nodeKeys) with
      | some (key, _) => .error (.malformed place (.unexpectedKey key))
      | none => .ok () := by
  have hp : (fun m : String × Json => m.1 != "parser" && m.1 != "args" && m.1 != "uiParser") =
      fun m => decide (m.1 ∉ nodeKeys) := by
    funext m
    rw [Bool.eq_iff_iff]
    simp [nodeKeys, and_assoc]
  rw [← hp]
  rfl

theorem Keyed.checkKeys (h : Keyed members) (place : Place) : checkKeys place members = .ok () := by
  rw [checkKeys_eq, keyed_iff.1 h]

theorem OfKind.readKind (h : OfKind members kind) (place : Place) :
    readKind place members = .ok kind := by
  simp [Document.readKind, h.parser, Kind.ofName?_name]

theorem flavorAt_of_ne (hk : kind ≠ .sequence) (atRoot : Bool) (flavor : Flavor) :
    flavorAt atRoot kind (some flavor) = flavor := by
  cases kind with
  | sequence => exact (hk rfl).elim
  | _ => rfl

theorem Flavored.readFlavor (h : Flavored members kind) (place : Place) (atRoot : Bool) :
    ∃ recorded, readFlavor place members = .ok recorded ∧
      (flavorAt atRoot kind recorded).denotes kind = true := by
  unfold Document.readFlavor
  cases hu : Json.member? "uiParser" members with
  | none =>
    refine ⟨none, rfl, ?_⟩
    cases kind <;> exact Flavor.denotes_default _ _
  | some v =>
    obtain ⟨tag, rfl, hd⟩ := h.uiParser v hu
    refine ⟨some ⟨tag⟩, rfl, ?_⟩
    by_cases hk : kind = .sequence
    · rw [hk]
      exact Flavor.denotes_default _ _
    · rw [flavorAt_of_ne hk]
      exact hd hk

theorem Flavored.readHeader (h : Flavored members kind) (place : Place) (atRoot : Bool) :
    ∃ flavor, readHeader place atRoot members = match Json.member? "args" members with
      | some args => .ok ⟨kind, flavor, args⟩
      | none => .error (.malformed place .argsMissing) := by
  obtain ⟨recorded, hr, hd⟩ := h.readFlavor place atRoot
  refine ⟨flavorAt atRoot kind recorded, ?_⟩
  have hf := checkFlavor_eq_ok_iff.2 ⟨hd, rfl⟩
  unfold Document.readHeader
  rw [h.checkKeys, h.readKind, hr]
  simp only [bind, Except.bind, hf, Except.mapError]
  rfl

theorem Complete.readAlone (h : Complete members kind args) (place : Place) (atRoot : Bool) :
    ∃ flavor, readAlone place atRoot (.obj members) =
      (args.rule.mapError .invalid).map (Tree.ofRule args.id flavor) := by
  obtain ⟨flavor, hh⟩ := h.readHeader place atRoot
  obtain ⟨v, ha, hr⟩ := h.args
  refine ⟨flavor, ?_⟩
  rw [Document.readAlone, hh, ha]
  simp only [bind, Except.bind, hr, Except.mapError]
  cases args.rule <;> rfl

theorem WellFormed.readAlone (h : WellFormed v) (place : Place) (atRoot : Bool) :
    ∃ t, readAlone place atRoot v = .ok t := by
  cases h with
  | obj hc hr =>
    obtain ⟨flavor, he⟩ := hc.readAlone place atRoot
    exact ⟨_, by rw [he, hr]; rfl⟩

theorem LocalError.readAlone (h : LocalError way v e) (atRoot : Bool) :
    readAlone ⟨way, false⟩ atRoot v = .error e := by
  cases h with
  | notAnObject hv =>
    cases v with
    | obj members => exact (hv members rfl).elim
    | _ => rfl
  | unexpectedKey hf =>
    rw [Document.readAlone, Document.readHeader, checkKeys_eq, hf]
    rfl
  | kindMissing hk hp =>
    rw [Document.readAlone, Document.readHeader, hk.checkKeys, readKind, hp]
    rfl
  | @kindNotText members u hk hp hu =>
    rw [Document.readAlone, Document.readHeader, hk.checkKeys, readKind, hp]
    cases u with
    | str name => exact (hu name rfl).elim
    | _ => rfl
  | @unknownKind members name hk hp hn =>
    have ho : Kind.ofName? name = none := by
      cases ho : Kind.ofName? name with
      | none => rfl
      | some kind => exact (hn kind (Kind.name_of_ofName? ho)).elim
    rw [Document.readAlone, Document.readHeader, hk.checkKeys, readKind, hp]
    simp [ho, bind, Except.bind]
  | @flavorNotText members kind u hk hu hv =>
    rw [Document.readAlone, Document.readHeader, hk.checkKeys, hk.readKind, readFlavor, hu]
    cases u with
    | str tag => exact (hv tag rfl).elim
    | _ => rfl
  | flavorMismatch hk hu hs hd =>
    rw [Document.readAlone, Document.readHeader, hk.checkKeys, hk.readKind, readFlavor, hu]
    simp [bind, Except.bind, flavorAt_of_ne hs, checkFlavor, hd, Except.mapError]
  | argsMissing hk ha =>
    obtain ⟨flavor, hh⟩ := hk.readHeader ⟨way, false⟩ atRoot
    rw [Document.readAlone, hh, ha]
    rfl
  | args hk ha hr =>
    obtain ⟨flavor, hh⟩ := hk.readHeader ⟨way, false⟩ atRoot
    rw [Document.readAlone, hh, ha]
    simp [bind, Except.bind, hr, Except.mapError, Place.args]
  | rule hc hr =>
    obtain ⟨flavor, he⟩ := hc.readAlone ⟨way, false⟩ atRoot
    rw [he, hr]
    rfl

variable {fields : List (String × Json)} {items : List Json} {u : Json}

theorem exists_parsers (h : containerArgs.members v = .ok fields) :
    ∃ items, Json.member? "parsers" fields = some (.arr items) ∧
      (v = .obj fields ∨ ∃ id rest, v = .arr (id :: .arr items :: rest)) := by
  cases v with
  | obj members =>
    simp only [RecordType.members, bind_eq_ok_iff] at h
    obtain ⟨⟨⟩, hm, ⟨⟩, hf, h⟩ := h
    obtain rfl := Except.ok.inj h
    have hp : RecordType.checkPresent members (.required "parsers" Json.list) = .ok () :=
      forM_eq_ok_iff.1 hf _ (List.mem_cons_of_mem _ List.mem_cons_self)
    cases hu : Json.member? "parsers" members with
    | none =>
      rw [RecordType.checkPresent, FieldType.required, hu] at hp
      cases hp
    | some u =>
      have hc : (Json.list u).map (fun _ => ()) = .ok () :=
        forM_eq_ok_iff.1 hm _ (Json.mem_of_member? hu)
      obtain ⟨items, hi, -⟩ := map_eq_ok_iff.1 hc
      exact ⟨items, by rw [eq_arr_of_list hi], .inl rfl⟩
  | arr values =>
    simp only [RecordType.members, bind_eq_ok_iff] at h
    obtain ⟨named, hn, h⟩ := h
    split at h
    · cases h
    obtain rfl := Except.ok.inj h
    rcases values with _ | ⟨id, _ | ⟨u, rest⟩⟩
    · cases hn
    · simp only [containerArgs, RecordType.nameItems, bind_eq_ok_iff] at hn
      obtain ⟨_, -, _, hn, -⟩ := hn
      cases hn
    · simp only [containerArgs, RecordType.nameItems, bind_eq_ok_iff] at hn
      obtain ⟨_, -, _, ⟨_, hc, _, -, hr⟩, hn⟩ := hn
      obtain ⟨items, hi, -⟩ := map_eq_ok_iff.1 hc
      obtain rfl := eq_arr_of_list hi
      obtain rfl := Except.ok.inj hr
      obtain rfl := Except.ok.inj hn
      exact ⟨items, rfl, .inr ⟨id, rest, rfl⟩⟩
  | null => cases h
  | bool => cases h
  | int => cases h
  | float => cases h
  | str => cases h

theorem readMemberChildren_eq (h : Json.member? "parsers" fields = some (.arr items))
    (place : Place) : readMemberChildren place fields = readItems place 0 items := by
  induction fields with
  | nil => cases h
  | cons m fields ih =>
    obtain ⟨key, v⟩ := m
    rw [Json.member?] at h
    split at h
    · next hk =>
      obtain rfl := Option.some.inj h
      rw [readMemberChildren, if_pos hk.symm]
    · next hk =>
      cases v with
      | arr others => rw [readMemberChildren, if_neg (Ne.symm hk), ih h]
      | _ => exact ih h

theorem parsersOf_eq (h : containerArgs.members v = .ok fields)
    (hp : Json.member? "parsers" fields = some (.arr items)) : parsersOf v = items := by
  rw [parsersOf, h]
  simp only [Except.bind, readField, hp, Json.list]

theorem readArgsChildren_eq (h : containerArgs.members v = .ok fields) (place : Place) :
    readArgsChildren place v = readItems place 0 (parsersOf v) := by
  obtain ⟨items, hp, rfl | ⟨id, rest, rfl⟩⟩ := exists_parsers h
  · rw [parsersOf_eq h hp, readArgsChildren, readMemberChildren_eq hp]
  · rw [parsersOf_eq h hp, readArgsChildren]

theorem sizeOf_lt_of_mem_parsersOf (h : u ∈ parsersOf v) : sizeOf u < sizeOf v := by
  cases hm : containerArgs.members v with
  | error =>
    rw [parsersOf, hm] at h
    cases h
  | ok fields =>
    obtain ⟨items, hp, hv⟩ := exists_parsers hm
    rw [parsersOf_eq hm hp] at h
    have hu := List.sizeOf_lt_of_mem h
    rcases hv with rfl | ⟨id, rest, rfl⟩
    · have hf := List.sizeOf_lt_of_mem (Json.mem_of_member? hp)
      simp only [Prod.mk.sizeOf_spec, Json.arr.sizeOf_spec, Json.obj.sizeOf_spec] at hf ⊢
      omega
    · simp only [List.cons.sizeOf_spec, Json.arr.sizeOf_spec]
      omega

theorem sizeOf_lt_of_mem_childNodes (h : u ∈ childNodes v) : sizeOf u < sizeOf v := by
  unfold childNodes at h
  split at h
  · next members =>
    split at h
    · next name args hp ha =>
      split at h
      · have hu := sizeOf_lt_of_mem_parsersOf h
        have hm := List.sizeOf_lt_of_mem (Json.mem_of_member? ha)
        simp only [Prod.mk.sizeOf_spec, Json.obj.sizeOf_spec] at hm ⊢
        omega
      · cases h
    · cases h
  · cases h

theorem childNodes_induction {motive : Json → Prop}
    (step : ∀ v, (∀ u ∈ childNodes v, motive u) → motive v) (v : Json) : motive v :=
  step v fun u _ => childNodes_induction step u
termination_by sizeOf v
decreasing_by exact sizeOf_lt_of_mem_childNodes ‹_›

theorem readChildren_eq (h : Json.member? "args" members = some v) (place : Place) :
    readChildren place members = readArgsChildren place v := by
  induction members with
  | nil => cases h
  | cons m members ih =>
    obtain ⟨key, w⟩ := m
    rw [Json.member?] at h
    split at h
    · next hk =>
      obtain rfl := Option.some.inj h
      rw [readChildren, if_pos hk.symm]
    · next hk => rw [readChildren, if_neg (Ne.symm hk), ih h]

theorem members_of_readHeader {header : Header}
    (h : readHeader place atRoot members = .ok header) :
    Json.member? "parser" members = some (.str header.kind.name) ∧
      Json.member? "args" members = some header.args := by
  unfold readHeader at h
  simp only [bind_eq_ok_iff, mapError_eq_ok_iff] at h
  obtain ⟨⟨⟩, -, kind, hkind, recorded, -, flavor, -, h⟩ := h
  split at h
  · next args hargs =>
    obtain rfl := Except.ok.inj h
    exact ⟨member?_of_readKind hkind, hargs⟩
  · cases h

theorem childNodes_of_readHeader {header : Header}
    (h : readHeader place atRoot members = .ok header) : childNodes (.obj members) =
      if header.kind.isContainer then parsersOf header.args else [] := by
  obtain ⟨hp, ha⟩ := members_of_readHeader h
  simp [childNodes, hp, ha, Kind.ofName?_name]

theorem exists_fields_of_group {id : NodeId} {shape : Shape}
    (h : readArgs kind v = .ok (.group id shape)) :
    ∃ fields, containerArgs.members v = .ok fields := by
  obtain rfl := kindOf_readArgs h
  cases shape
  all_goals
    simp only [Args.kindOf, Shape.kind, readArgs, bind_eq_ok_iff] at h
    exact h.imp fun _ => And.left

/-- A node is read without its children first, and then its children one by one. -/
theorem readNode_eq (place : Place) (atRoot : Bool) (v : Json) : readNode place atRoot v =
    (readAlone place atRoot v).bind fun t =>
      (readItems place 0 (childNodes v)).map t.withChildren := by
  cases v with
  | obj members =>
    rw [readNode, readAlone]
    cases hh : readHeader place atRoot members with
    | error e => rfl
    | ok header =>
      rw [childNodes_of_readHeader hh]
      have hargs := (members_of_readHeader hh).2
      obtain ⟨kind, flavor, v⟩ := header
      cases ha : readArgs kind v with
      | error e => simp [bind, Except.bind, ha, Except.mapError]
      | ok args =>
        obtain rfl := kindOf_readArgs ha
        simp only [bind, Except.bind, ha, Except.mapError]
        cases args with
        | string id pattern typeName =>
          dsimp only [Args.rule]
          cases Leaf.makeString pattern typeName <;> rfl
        | rest id typeName =>
          dsimp only [Args.rule]
          cases Leaf.makeRest typeName <;> rfl
        | substring id length typeName =>
          dsimp only [Args.rule]
          cases Leaf.makeSubstring length typeName <;> rfl
        | group id shape =>
          obtain ⟨fields, hf⟩ := exists_fields_of_group ha
          have hc : (Args.group id shape).kindOf.isContainer = true := by cases shape <;> rfl
          rw [readChildren_eq hargs, readArgsChildren_eq hf, if_pos hc]
          cases readItems place 0 (parsersOf v) <;> rfl
  | _ => rfl

/-- All nodes of a value are well-formed. -/
def Sound (v : Json) : Prop := ∀ way u, nodeAt? v way = some u → WellFormed u

/-- The error of the first node that is not well-formed, of those of a value at the end of a way. -/
def FirstError (way : List Nat) (v : Json) (e : GrammarError) : Prop :=
  ∃ rest u, nodeAt? v rest = some u ∧ LocalError (way ++ rest) u e ∧
    ∀ rest' u', rest' < rest → nodeAt? v rest' = some u' → WellFormed u'

theorem LocalError.unique {e' : GrammarError} (h : LocalError way v e) (h' : LocalError way v e') :
    e = e' :=
  Except.error.inj ((h.readAlone true).symm.trans (h'.readAlone true))

theorem WellFormed.not_localError (h : WellFormed v) (way : List Nat) (e : GrammarError) :
    ¬ LocalError way v e := fun he => by
  obtain ⟨t, ht⟩ := h.readAlone ⟨way, false⟩ true
  cases ht.symm.trans (he.readAlone true)

theorem wellFormed_iff (way : List Nat) (v : Json) :
    WellFormed v ↔ ∀ e, ¬ LocalError way v e :=
  ⟨fun h => h.not_localError way, fun h =>
    (wellFormed_or_localError way v).resolve_right fun ⟨e, he⟩ => h e he⟩

theorem Sound.not_firstError (h : Sound v) : ¬ FirstError way v e := by
  rintro ⟨rest, u, hu, he, -⟩
  exact (h rest u hu).not_localError _ e he

/-- Of two nodes one comes first, so that there is one error at most. -/
theorem FirstError.unique {e' : GrammarError} (h : FirstError way v e)
    (h' : FirstError way v e') : e = e' := by
  obtain ⟨rest, u, hu, he, hb⟩ := h
  obtain ⟨rest', u', hu', he', hb'⟩ := h'
  rcases lt_trichotomy rest rest' with hlt | rfl | hlt
  · exact ((hb' rest u hlt hu).not_localError _ e he).elim
  · obtain rfl := Option.some.inj (hu.symm.trans hu')
    exact he.unique he'
  · exact ((hb rest' u' hlt hu').not_localError _ e' he').elim

theorem sound_of_children (h : WellFormed v) (hc : ∀ u ∈ childNodes v, Sound u) : Sound v := by
  intro way u hu
  cases way with
  | nil =>
    obtain rfl := Option.some.inj hu
    exact h
  | cons i way =>
    obtain ⟨c, hi, hu⟩ := Option.bind_eq_some_iff.1 hu
    exact hc c (List.mem_of_getElem? hi) way u hu

theorem FirstError.here (h : LocalError way v e) : FirstError way v e :=
  ⟨[], v, rfl, by rwa [List.append_nil], fun _ _ hlt => (List.not_lt_nil _ hlt).elim⟩

theorem FirstError.below {before after : List Json} (h : WellFormed v)
    (hc : childNodes v = before ++ u :: after) (hb : ∀ c ∈ before, Sound c)
    (he : FirstError (way ++ [before.length]) u e) : FirstError way v e := by
  obtain ⟨rest, x, hx, he, hr⟩ := he
  have hu : (childNodes v)[before.length]? = some u := by rw [hc]; simp
  refine ⟨before.length :: rest, x, ?_, ?_, ?_⟩
  · rw [nodeAt?, hu]
    exact hx
  · rwa [List.append_assoc] at he
  · intro rest' x' hlt hx'
    cases rest' with
    | nil =>
      obtain rfl := Option.some.inj hx'
      exact h
    | cons i rest' =>
      obtain ⟨c, hi, hx'⟩ := Option.bind_eq_some_iff.1 hx'
      rcases List.cons_lt_cons_iff.1 hlt with hbefore | ⟨rfl, hbefore⟩
      · rw [hc, List.getElem?_append_left hbefore] at hi
        exact hb c (List.mem_of_getElem? hi) rest' x' hx'
      · obtain rfl := Option.some.inj (hu.symm.trans hi)
        exact hr rest' x' hbefore hx'

/-- A value is read, and all its nodes are well-formed, or it is refused with its first error. -/
def Settled (way : List Nat) (atRoot : Bool) (v : Json) : Prop :=
  (∃ t, readNode ⟨way, false⟩ atRoot v = .ok t) ∧ Sound v ∨
    ∃ e, readNode ⟨way, false⟩ atRoot v = .error e ∧ FirstError way v e

/-- Values are read one after the other, up to the first one that is refused. -/
theorem readItems_cases {us : List Json} (h : ∀ u ∈ us, ∀ way, Settled way false u)
    (way : List Nat) (index : Nat) :
    (∃ ts, readItems ⟨way, false⟩ index us = .ok ts) ∧ (∀ u ∈ us, Sound u) ∨
      ∃ e before u after, readItems ⟨way, false⟩ index us = .error e ∧
        us = before ++ u :: after ∧ (∀ c ∈ before, Sound c) ∧
        FirstError (way ++ [index + before.length]) u e := by
  induction us generalizing index with
  | nil => exact .inl ⟨⟨[], rfl⟩, List.forall_mem_nil _⟩
  | cons u us ih =>
    rw [List.forall_mem_cons] at h
    rw [readItems, Place.child]
    rcases h.1 (way ++ [index]) with ⟨⟨t, ht⟩, hs⟩ | ⟨e, he, hf⟩
    · rw [ht]
      rcases ih h.2 (index + 1) with ⟨⟨ts, hts⟩, hss⟩ | ⟨e, before, c, after, he, rfl, hb, hf⟩
      · exact .inl ⟨⟨t :: ts, by rw [hts]; rfl⟩, List.forall_mem_cons.2 ⟨hs, hss⟩⟩
      · refine .inr ⟨e, u :: before, c, after, by rw [he]; rfl, rfl,
          List.forall_mem_cons.2 ⟨hs, hb⟩, ?_⟩
        rwa [List.length_cons, Nat.add_comm before.length 1, ← Nat.add_assoc]
    · rw [he]
      exact .inr ⟨e, [], u, us, rfl, rfl, List.forall_mem_nil _, hf⟩

theorem settled (way : List Nat) (atRoot : Bool) (v : Json) : Settled way atRoot v := by
  induction v using childNodes_induction generalizing way atRoot with
  | step v ih =>
    rw [Settled, readNode_eq]
    rcases wellFormed_or_localError way v with hv | ⟨e, he⟩
    · obtain ⟨t, ht⟩ := hv.readAlone ⟨way, false⟩ atRoot
      rw [ht]
      rcases readItems_cases (fun u hu way => ih u hu way false) way 0 with
        ⟨⟨ts, hts⟩, hs⟩ | ⟨e, before, u, after, he, hc, hb, hf⟩
      · exact .inl ⟨⟨_, by rw [Except.bind, hts]; rfl⟩, sound_of_children hv hs⟩
      · rw [Nat.zero_add] at hf
        exact .inr ⟨e, by rw [Except.bind, he]; rfl, hf.below hv hc hb⟩
    · rw [he.readAlone]
      exact .inr ⟨e, rfl, .here he⟩

theorem LocalError.place_eq {cause : Malformation} (h : LocalError way v (.malformed place cause)) :
    place.indices = way ∧
      place.render = "$" ++ String.join (place.indices.map fun i => s!".args.parsers[{i}]") ++
        cause.suffix := by
  cases h <;> exact ⟨rfl, rfl⟩

/-- Every value is read if all its nodes are well-formed, and refused for the first one that is not
otherwise. -/
theorem toTree_reportsFirst (v : Json) : ReportsFirst v := by
  have hfirst (e : GrammarError) : toTree v = .error e ↔ FirstError [] v e := by
    rcases settled [] true v with ⟨⟨t, ht⟩, hs⟩ | ⟨e', he, hf⟩
    · refine iff_of_false ?_ hs.not_firstError
      rw [toTree, Place.root, ht]
      rintro ⟨⟩
    · rw [toTree, Place.root, he, Except.error.injEq]
      constructor
      · rintro rfl
        exact hf
      · exact hf.unique
  constructor
  case accepted =>
    change _ ↔ Sound v
    rcases settled [] true v with ⟨ht, hs⟩ | ⟨e, he, hf⟩
    · exact iff_of_true ht hs
    · refine iff_of_false ?_ fun hs => hs.not_firstError hf
      rintro ⟨t, ht⟩
      cases ht.symm.trans he
  case refused => exact hfirst
  case wellFormed_iff => exact Document.wellFormed_iff
  case unique => exact LocalError.unique
  case path =>
    intro place cause he
    obtain ⟨way, u, hu, hl, -⟩ := (hfirst _).1 he
    obtain ⟨rfl, hp⟩ := hl.place_eq
    exact ⟨⟨u, hu, hl⟩, hp⟩

/-- The second child has too many arguments. Neither what is wrong with its own child nor the
unknown kind of the third one hides that. -/
example : toTree (.obj [("args", .arr [.str "c", .arr [
      .obj [("args", .arr [.str "r", .str "Tail"]), ("parser", .str "rest")],
      .obj [("args", .arr [.str "d", .arr [.null], .null]), ("parser", .str "sequence")],
      .obj [("parser", .str "regex")]]]), ("parser", .str "choice")]) =
    .error (.malformed ⟨[1], true⟩ (.args (.tooLong 3))) := rfl

end Document

end LabelGrammar
