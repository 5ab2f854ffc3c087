import LabelGrammar.Proofs.Workspace.Insertion
import LabelGrammar.Proofs.Workspace.Issued

/-! # Which tables are imported

An import draws its ids while it makes the strings, and what it makes is a tree like any other one
for the insertion. So its rows are checked before its flavor, and the flavor before the place. What
is refused has used up ids and no more.
-/

namespace LabelGrammar

open Forest

def Tree.ofPair (flavor : Flavor) : NodeId × Pair → Tree Flavor
  | (id, pattern, typeName) => .leaf id flavor (.string pattern typeName)

/-- The choice of a table: a string for each row, with the given ids in the order of the rows. -/
def Tree.ofPairs (flavor : Flavor) (id : NodeId) (ids : List NodeId) (pairs : List Pair) :
    Tree Flavor :=
  .group id (.default .choice false) .choice ((ids.zip pairs).map (ofPair flavor))

def rowObstacles : Pair → List (Prop × ImportError)
  | (pattern, typeName) =>
    [(pattern = "", .invalid (.emptyField .pattern)),
      (typeName = "", .invalid (.emptyField .typeName))]

namespace Workspace

/-- A place takes a choice: it is one of a container, and there is no rest before it. -/
def TakesChoice (w : Workspace) (place : Attachment) : Prop :=
  ∃ p, w.find? place.parent = some p ∧ (p.kind = .sequence ∨ p.kind = .choice) ∧
    (∀ i ∈ place.index, i ≤ p.children.length) ∧
    Kind.rest ∉ (w.childKinds p).take (place.index.getD p.children.length)

/-- All that keeps a table from being imported: what is wrong with its rows, with the flavor of its
strings, and with the place. -/
def importObstacles (w : Workspace) (pairs : List Pair) (place : Option Attachment)
    (flavor : Flavor) : List (Prop × ImportError) :=
  pairs.flatMap rowObstacles ++
    (pairs ≠ [] ∧ flavor.denotes .string = false,
      .workspace (.invalid (.flavorMismatch flavor .string))) ::
    place.elim [] fun place => (w.roomObstacles place .choice).map fun o => (o.1, .workspace o.2)

/-- Tables are imported exactly if their cells are filled, their flavor denotes strings and their
places take a choice. What is added is one choice with new ids, or nothing. -/
structure ImportsExactly (w : Workspace) (pairs : List Pair) (place : Option Attachment)
    (flavor : Flavor) (offers : List NodeId) : Prop where
  accepted : (∃ id, ((importPairs pairs place flavor offers).run w).1 = .ok id) ↔
    (∀ pair ∈ pairs, pair.1 ≠ "" ∧ pair.2 ≠ "") ∧ (flavor.denotes .string = true ∨ pairs = []) ∧
      ∀ p ∈ place, w.TakesChoice p
  added {id : NodeId} : ((importPairs pairs place flavor offers).run w).1 = .ok id →
    ∃ F ids, w.forest = .ok F ∧ ids.length = pairs.length ∧ (id :: ids).Nodup ∧
      (∀ i ∈ id :: ids, i ∉ w.issued ∧ w.find? i = none) ∧
      ((importPairs pairs place flavor offers).run w).2.ConsistsOf
        (place.elim (F ++ [Tree.ofPairs flavor id ids pairs]) fun place =>
          insertAt place (Tree.ofPairs flavor id ids pairs) F)
  refused (e : ImportError) : ((importPairs pairs place flavor offers).run w).1 = .error e ↔
    FirstOf (w.importObstacles pairs place flavor) e
  unchanged {e : ImportError} : ((importPairs pairs place flavor offers).run w).1 = .error e →
    ∃ F, w.ConsistsOf F ∧ ((importPairs pairs place flavor offers).run w).2.ConsistsOf F

end Workspace

theorem orderly_insertIdx_iff {kinds : List Kind} {kind : Kind} {i : Nat} (h : Orderly kinds)
    (hi : i ≤ kinds.length) (hk : kind ≠ .rest) :
    Orderly (kinds.insertIdx i kind) ↔ Kind.rest ∉ kinds.take i := by
  have hlen := List.length_insertIdx_of_le_length hi kind
  constructor
  · intro ho hm
    obtain ⟨j, hj⟩ := List.mem_iff_getElem?.1 hm
    rw [List.getElem?_take] at hj
    split at hj
    · next hji =>
      have hr := ho j (by rw [List.getElem?_insertIdx_of_lt hji, hj])
      omega
    · cases hj
  · intro hn j hj
    rcases Nat.lt_trichotomy j i with hji | rfl | hji
    · rw [List.getElem?_insertIdx_of_lt hji] at hj
      refine (hn (List.mem_iff_getElem?.2 ⟨j, ?_⟩)).elim
      rwa [List.getElem?_take_of_lt hji]
    · rw [List.getElem?_insertIdx_self, if_pos hi] at hj
      exact (hk (Option.some.inj hj)).elim
    · rw [List.getElem?_insertIdx_of_gt hji] at hj
      have hr := h (j - 1) hj
      omega

theorem Represents.hasRoom_choice_iff {w : Workspace} {F : Forest} (h : Represents w F)
    (place : Attachment) : w.HasRoom place .choice ↔ w.TakesChoice place := by
  refine exists_congr fun p => and_congr_right fun hp => and_congr_right fun _ =>
    and_congr_right fun hi => ?_
  obtain ⟨u, hu, -, he⟩ := h.exists_node hp
  have hc : p.children = u.children.map Tree.id := by rw [he, Tree.children_block]
  have hk : w.childKinds p = u.children.map Tree.kind := by
    rw [Workspace.childKinds, hc, h.filterMap_kind hu]
  have hl : (w.childKinds p).length = p.children.length := by rw [hk, hc]; simp
  refine orderly_insertIdx_iff ?_ ?_ nofun
  · rw [hk]
    exact h.legal.orderly hu
  · cases hx : place.index with
    | none => rw [Option.getD_none, hl]
    | some i => rw [Option.getD_some, hl]; exact hi i hx

theorem FirstOf.map {ε ε' : Type} {l : List (Prop × ε)} {e : ε} (h : FirstOf l e) (f : ε → ε') :
    FirstOf (l.map fun c => (c.1, f c.2)) (f e) := by
  induction l with
  | nil => exact h
  | cons c l ih => exact h.imp (And.imp_right (congrArg f)) (And.imp_right ih)

theorem Reports.mapError {ε ε' α : Type} {x : Except ε α} {a : α} {l : List (Prop × ε)}
    (h : Reports x a l) (f : ε → ε') : Reports (x.mapError f) a (l.map fun c => (c.1, f c.2)) := by
  rcases h with ⟨rfl, hn⟩ | ⟨e, rfl, he⟩
  · exact .inl ⟨rfl, List.forall_mem_map.2 hn⟩
  · exact .inr ⟨f e, rfl, he.map f⟩

theorem reports_makeString (pair : Pair) :
    Reports ((Leaf.makeString pair.1 pair.2).mapError ImportError.invalid)
      (.string pair.1 pair.2) (rowObstacles pair) := by
  obtain ⟨pattern, typeName⟩ := pair
  have hcell (field : Field) (value : String) :
      Reports (nonEmpty field value) value [(value = "", .emptyField field)] := by
    by_cases hv : value = ""
    · exact .inr ⟨.emptyField field, if_pos hv, .inl ⟨hv, rfl⟩⟩
    · exact .inl ⟨if_neg hv, List.forall_mem_singleton.2 hv⟩
  have hleaf := (hcell .typeName typeName).bind (f := fun t => .ok (Leaf.string pattern t)) (.ok _)
  have h := (hcell .pattern pattern).bind (f := fun p =>
    (nonEmpty .typeName typeName).bind fun t => .ok (Leaf.string p t)) hleaf
  exact h.mapError _

namespace Workspace

theorem length_drawn (w : Workspace) (offers : List NodeId) (n : Nat) :
    (w.drawn offers n).length = n := by
  induction n generalizing w offers with
  | zero => rfl
  | succ n ih => exact congrArg Nat.succ (ih (w.retire [w.pick offers]) offers.tail)

theorem roomObstacles_of_blocks {w x : Workspace} (hb : x.blocks = w.blocks) (place : Attachment)
    (kind : Kind) : x.roomObstacles place kind = w.roomObstacles place kind := by
  simp only [roomObstacles, childKinds, find?, hb]

theorem result_stringsOfPairs (w : Workspace) (flavor : Flavor) (offers : List NodeId)
    (pair : Pair) (pairs : List Pair) :
    ((stringsOfPairs flavor offers (pair :: pairs)).run w).1 =
      ((Leaf.makeString pair.1 pair.2).mapError ImportError.invalid).bind fun l =>
        ((stringsOfPairs flavor offers.tail pairs).run (w.retire [w.pick offers])).1.map
          fun ts => .leaf (w.pick offers) flavor l :: ts := by
  obtain ⟨pattern, typeName⟩ := pair
  simp only [stringsOfPairs, Action.run_bind, Action.run_check, run_freshId]
  cases Leaf.makeString pattern typeName with
  | error e => rfl
  | ok l =>
    simp only [Except.mapError]
    rcases (stringsOfPairs flavor offers.tail pairs).run (w.retire [w.pick offers]) with
      ⟨error | ts, v⟩ <;> rfl

theorem reports_stringsOfPairs (w : Workspace) (flavor : Flavor) (offers : List NodeId)
    (pairs : List Pair) :
    Reports ((stringsOfPairs flavor offers pairs).run w).1
      (((w.drawn offers pairs.length).zip pairs).map (Tree.ofPair flavor))
      (pairs.flatMap rowObstacles) := by
  induction pairs generalizing w offers with
  | nil => exact .ok []
  | cons pair pairs ih =>
    rw [result_stringsOfPairs]
    exact (reports_makeString pair).bind ((ih (w.retire [w.pick offers]) offers.tail).map _)

theorem reports_choiceOfPairs (w : Workspace) (pairs : List Pair) (flavor : Flavor)
    (offers : List NodeId) :
    Reports ((choiceOfPairs pairs flavor offers).run w).1
      (Tree.ofPairs flavor (w.pick offers)
        ((w.retire [w.pick offers]).drawn offers.tail pairs.length) pairs)
      (pairs.flatMap rowObstacles) := by
  have hr : ((choiceOfPairs pairs flavor offers).run w).1 =
      ((stringsOfPairs flavor offers.tail pairs).run (w.retire [w.pick offers])).1.map
        (.group (w.pick offers) (.default .choice false) .choice) := by
    simp only [choiceOfPairs, Action.run_bind, run_freshId]
    rcases (stringsOfPairs flavor offers.tail pairs).run (w.retire [w.pick offers]) with
      ⟨error | ts, v⟩ <;> rfl
  rw [hr]
  exact (reports_stringsOfPairs ..).map _

end Workspace

namespace Tree

variable {flavor : Flavor} {id : NodeId} {ids : List NodeId} {pairs : List Pair}

theorem subtrees_ofPairs : (ofPairs flavor id ids pairs).subtrees =
    ofPairs flavor id ids pairs :: (ids.zip pairs).map (ofPair flavor) := by
  rw [subtrees_eq, ofPairs, children, List.flatMap_map]
  exact congrArg _ List.map_eq_flatMap.symm

theorem ids_ofPairs (hl : ids.length = pairs.length) :
    (ofPairs flavor id ids pairs).ids = id :: ids := by
  rw [Tree.ids, subtrees_ofPairs, List.map_cons, List.map_map]
  exact congrArg _ (List.map_fst_zip hl.le)

theorem fits_ofPairs (atRoot : Bool) : (ofPairs flavor id ids pairs).Fits atRoot where
  denotes := Flavor.denotes_default .choice false
  sequence := nofun
  restLast := by
    refine restBeforeEnd_eq_false_iff.2 fun i hi => ?_
    obtain ⟨c, hc, hk⟩ := List.mem_map.1 (List.mem_of_getElem? hi)
    obtain ⟨x, -, rfl⟩ := List.mem_map.1 hc
    cases hk

theorem legal_ofPairs (hd : flavor.denotes .string = true ∨ pairs = []) (atRoot : Bool) :
    (ofPairs flavor id ids pairs).Legal atRoot := by
  refine .intro (fits_ofPairs atRoot) fun c hc => ?_
  obtain ⟨x, hx, rfl⟩ := List.mem_map.1 hc
  have hne : pairs ≠ [] := List.ne_nil_of_mem (List.of_mem_zip hx).2
  exact .intro ⟨hd.resolve_right hne, nofun, rfl⟩ nofun

end Tree

namespace Represents

open Workspace

variable {w : Workspace} {F : Forest} {flavor : Flavor} {id i : NodeId} {news : List NodeId}
  {pair : Pair} {pairs : List Pair}

theorem find?_of_not_mem (h : Represents w F) (hi : i ∉ ids F) : ¬ ∃ b, w.find? i = some b := by
  rwa [← Option.isSome_iff_exists, ← contains, h.contains_iff]

theorem admits_ofPairs (h : Represents w F) (hl : news.length = pairs.length)
    (hn : (id :: news).Nodup) (hf : ∀ i ∈ id :: news, i ∉ ids F)
    (hd : flavor.denotes .string = true ∨ pairs = []) :
    w.Admits (Tree.ofPairs flavor id news pairs) := by
  refine h.admits_of_legal (Tree.legal_ofPairs hd true) ?_ ?_
  · rwa [Tree.ids_ofPairs hl]
  · rwa [Tree.ids_ofPairs hl]

theorem firstOf_treeObstacles_ofPairs (h : Represents w F) (hn : (id :: i :: news).Nodup)
    (hf : ∀ j ∈ id :: i :: news, j ∉ ids F) (hd : flavor.denotes .string = false) :
    FirstOf (w.treeObstacles (Tree.ofPairs flavor id (i :: news) (pair :: pairs)))
      (.invalid (.flavorMismatch flavor .string)) := by
  have hr : (Tree.ofPairs flavor id (i :: news) (pair :: pairs)).Fits true := Tree.fits_ofPairs true
  rw [treeObstacles, Tree.subtrees_ofPairs, List.zip_cons_cons, List.map_cons, nodesObstacles,
    nodesObstacles]
  refine FirstOf.append_iff.2 (.inr ⟨?choice, FirstOf.append_iff.2 (.inl ?string)⟩)
  case choice =>
    simp only [nodeObstacles, List.forall_mem_cons]
    refine ⟨?_, ?_, ?_, List.forall_mem_nil _⟩
    · rintro (hb | ⟨v, hv, -⟩)
      · exact h.find?_of_not_mem (hf id List.mem_cons_self) hb
      · cases hv
    · rw [hr.denotes]
      exact Bool.noConfusion
    · rw [not_not]
      exact restBeforeEnd_eq_false_iff.1 hr.restLast
  case string =>
    refine .inr ⟨?_, .inl ⟨hd, rfl⟩⟩
    rintro (hb | ⟨v, hv, he⟩)
    · exact h.find?_of_not_mem (hf i (by simp)) hb
    · obtain rfl := List.mem_singleton.1 hv
      obtain rfl : id = i := he
      exact (List.nodup_cons.1 hn).1 List.mem_cons_self

theorem reports_checkTree_ofPairs (h : Represents w F) (hl : news.length = pairs.length)
    (hn : (id :: news).Nodup) (hf : ∀ i ∈ id :: news, i ∉ ids F) (flavor : Flavor) :
    Reports (w.checkTree (Tree.ofPairs flavor id news pairs)) ()
      [(pairs ≠ [] ∧ flavor.denotes .string = false,
        .invalid (.flavorMismatch flavor .string))] := by
  by_cases hd : flavor.denotes .string = true ∨ pairs = []
  · refine .inl ⟨checkTree_eq_ok_iff.2 (h.admits_ofPairs hl hn hf hd), ?_⟩
    rw [List.forall_mem_singleton, not_and_or, not_not, Bool.not_eq_false, or_comm]
    exact hd
  · rw [not_or, Bool.not_eq_true, and_comm] at hd
    obtain ⟨pair, pairs, rfl⟩ := List.exists_cons_of_ne_nil hd.1
    obtain ⟨i, news, rfl⟩ := List.exists_cons_of_length_eq_add_one hl
    exact .inr ⟨_, (w.reports_checkTree _).error_iff.2
      (h.firstOf_treeObstacles_ofPairs hn hf hd.2), .inl ⟨hd, rfl⟩⟩

theorem reports_insertTree_ofPairs (h : Represents w F) (hl : news.length = pairs.length)
    (hn : (id :: news).Nodup) (hf : ∀ i ∈ id :: news, i ∉ ids F) (flavor : Flavor)
    (place : Option Attachment) :
    Reports ((insertTree (Tree.ofPairs flavor id news pairs) place).run w).1 id
      ((pairs ≠ [] ∧ flavor.denotes .string = false,
        .invalid (.flavorMismatch flavor .string)) ::
        place.elim [] fun place => w.roomObstacles place .choice) := by
  rw [h.result_insertTree]
  refine (h.reports_checkTree_ofPairs hl hn hf flavor).bind ?_
  cases place with
  | none => exact .ok id
  | some place => exact (w.reports_checkRoom place .choice).map _

/-- What is wrong with the rows is found first, then what is wrong with the flavor, and at last what
is wrong with the place. -/
theorem reports_importPairs (h : Represents w F) (pairs : List Pair) (place : Option Attachment)
    (flavor : Flavor) (offers : List NodeId) :
    Reports ((importPairs pairs place flavor offers).run w).1 (w.pick offers)
      (w.importObstacles pairs place flavor) := by
  have hr : ((importPairs pairs place flavor offers).run w).1 =
      ((choiceOfPairs pairs flavor offers).run w).1.bind fun t =>
        ((insertTree t place).run ((choiceOfPairs pairs flavor offers).run w).2).1.mapError
          .workspace := by
    rw [importPairs, Action.run_bind]
    rcases (choiceOfPairs pairs flavor offers).run w with ⟨error | t, v⟩
    · rfl
    · simp only [Action.run_mapError]
      rfl
  rw [hr]
  refine (w.reports_choiceOfPairs pairs flavor offers).bind ?_
  have hx := Action.Issuing.choiceOfPairs pairs flavor offers w
  obtain ⟨hn, hf⟩ := w.nodup_drawn offers (pairs.length + 1)
  have ht := (h.of_issues hx).reports_insertTree_ofPairs (length_drawn ..) hn
    (fun i hi => h.not_mem_of_not_issued (hf i hi)) flavor place
  have hm := ht.mapError ImportError.workspace
  cases place with
  | none => exact hm
  | some place => rwa [Option.elim_some, roomObstacles_of_blocks hx.blocks] at hm

theorem importable_iff_forall (h : Represents w F) (pairs : List Pair) (place : Option Attachment)
    (flavor : Flavor) :
    (∀ o ∈ w.importObstacles pairs place flavor, ¬ o.1) ↔
      (∀ pair ∈ pairs, pair.1 ≠ "" ∧ pair.2 ≠ "") ∧ (flavor.denotes .string = true ∨ pairs = []) ∧
        ∀ p ∈ place, w.TakesChoice p := by
  rw [importObstacles, List.forall_mem_append, List.forall_mem_cons, List.forall_mem_flatMap]
  refine and_congr (forall₂_congr fun pair _ => ?_) (and_congr ?_ ?_)
  · simp [rowObstacles]
  · rw [not_and_or, not_not, Bool.not_eq_false, or_comm]
  · cases place with
    | none => simp
    | some place =>
      rw [Option.elim_some, List.forall_mem_map, ← hasRoom_iff_forall, h.hasRoom_choice_iff]
      simp

theorem of_insertTree (h : Represents w F) {t : Tree Flavor} {place : Option Attachment}
    (hr : ((insertTree t place).run w).1 = .ok id) :
    Represents ((insertTree t place).run w).2
      (place.elim (F ++ [t.settle true]) fun place => insertAt place (t.settle false) F) := by
  cases place with
  | none =>
    by_cases ha : w.Admits t
    · rw [run_insertTree ha]
      exact h.place ha
    · obtain ⟨e, he⟩ := run_insertTree_of_not ha
      rw [he] at hr
      cases hr
  | some place =>
    rcases h.run_insertTree_at t place with ⟨e, he⟩ | ⟨u, -, -, -, v, he, hv⟩
    · rw [he] at hr
      cases hr
    · rwa [he]

theorem exists_run_importPairs (h : Represents w F) {place : Option Attachment}
    {offers : List NodeId}
    (hr : ((importPairs pairs place flavor offers).run w).1 = .ok id) :
    ∃ news, news.length = pairs.length ∧ (id :: news).Nodup ∧ (∀ i ∈ id :: news, i ∉ w.issued) ∧
      Represents ((importPairs pairs place flavor offers).run w).2
        (place.elim (F ++ [Tree.ofPairs flavor id news pairs]) fun place =>
          insertAt place (Tree.ofPairs flavor id news pairs) F) := by
  obtain ⟨hno, rfl⟩ := (h.reports_importPairs pairs place flavor offers).ok_iff.1 hr
  have hd := ((h.importable_iff_forall pairs place flavor).1 hno).2.1
  have hc := (w.reports_choiceOfPairs pairs flavor offers).ok_iff.2
    ⟨fun o ho => hno o (List.mem_append_left _ ho), rfl⟩
  have hx := Action.Issuing.choiceOfPairs pairs flavor offers w
  obtain ⟨hn, hf⟩ := w.nodup_drawn offers (pairs.length + 1)
  refine ⟨_, length_drawn .., hn, hf, ?_⟩
  rw [importPairs, Action.run_bind] at hr ⊢
  rcases hq : (choiceOfPairs pairs flavor offers).run w with ⟨r, x⟩
  rw [hq] at hc hx hr
  obtain rfl : r = _ := hc
  simp only [Action.run_mapError] at hr ⊢
  -- There is no sequence in the choice, so its flavors are the same at every position.
  have hv := (h.of_issues hx).of_insertTree (mapError_eq_ok_iff.1 hr)
  rwa [(Tree.legal_ofPairs hd true).settle_eq, (Tree.legal_ofPairs hd false).settle_eq] at hv

end Represents

namespace Workspace

/-- Whatever calls led to a workspace, a table is imported as a whole, row by row, or not at all. -/
theorem importsExactly_of_reachable {w : Workspace} (h : w.Reachable) (pairs : List Pair)
    (place : Option Attachment) (flavor : Flavor) (offers : List NodeId) :
    w.ImportsExactly pairs place flavor offers := by
  obtain ⟨F, hF⟩ := h.represents
  have hr := hF.reports_importPairs pairs place flavor offers
  constructor
  case accepted =>
    simp only [hr.ok_iff, exists_and_left, exists_eq, and_true]
    exact hF.importable_iff_forall pairs place flavor
  case added =>
    intro id hid
    obtain ⟨ids, hl, hn, hf, hv⟩ := hF.exists_run_importPairs hid
    exact ⟨F, ids, hF.forest_eq, hl, hn, fun i hi => ⟨hf i hi, hF.find?_of_not_issued (hf i hi)⟩,
      hv.consistsOf⟩
  case refused => exact fun e => hr.error_iff
  case unchanged =>
    intro e he
    exact ⟨F, hF.consistsOf, (hF.of_issues (hF.importPairs_refused he)).consistsOf⟩

/-- Two equal rows that go before a rest but not behind it, and tables with several problems. -/
theorem importsExactly_besideRest :
    let w := restBelowSequence
    let rows : List Pair := [("AHU", "unit"), ("AHU", "unit")]
    let offers := ["x", "b", "y", "z"]
    w.Reachable ∧ w.TakesChoice ⟨"a", some 0⟩ ∧
      (∃ F ids, w.forest = .ok F ∧ ids.length = 2 ∧ ("x" :: ids).Nodup ∧
        ((importPairs rows (some ⟨"a", some 0⟩) ⟨"string-url"⟩ offers).run w).2.ConsistsOf
          (insertAt ⟨"a", some 0⟩ (Tree.ofPairs ⟨"string-url"⟩ "x" ids rows) F)) ∧
      FirstOf (w.importObstacles rows (some ⟨"a", none⟩) ⟨"string-url"⟩)
        (.workspace (.restNotLast "a")) ∧
      FirstOf (w.importObstacles rows (some ⟨"b", none⟩) ⟨"rest"⟩)
        (.workspace (.invalid (.flavorMismatch ⟨"rest"⟩ .string))) ∧
      FirstOf (w.importObstacles (rows ++ [("VAV", ""), ("", "")]) none ⟨"rest"⟩)
        (.invalid (.emptyField .typeName)) := by
  intro w rows offers
  have hw : w.Reachable := .restBelowSequence
  have h := importsExactly_of_reachable hw
  have hx : ((importPairs rows (some ⟨"a", some 0⟩) ⟨"string-url"⟩ offers).run w).1 = .ok "x" := by
    decide
  have ha := (h rows (some ⟨"a", some 0⟩) ⟨"string-url"⟩ offers).accepted.1 ⟨"x", hx⟩
  obtain ⟨F, ids, hF, hl, hn, -, hv⟩ := (h ..).added hx
  exact ⟨hw, ha.2.2 _ rfl, ⟨F, ids, hF, hl, hn, hv⟩, ((h _ _ _ offers).refused _).1 (by decide),
    ((h _ _ _ offers).refused _).1 (by decide), ((h _ _ _ offers).refused _).1 (by decide)⟩

end Workspace

end LabelGrammar
