import LabelGrammar.Proofs.Document.RoundTrip
import LabelGrammar.Proofs.Workspace.Reachable

/-! # Valid fields

A workspace whose leaves pass their checks stays one under every operation, if the leaves that
enter it pass theirs. Whatever a store holds is such a workspace.
-/

namespace LabelGrammar

def Rule.Valid (r : Rule) : Prop := ∀ l, r = .leaf l → l.Valid

def Tree.FieldsValid {φ : Type} (t : Tree φ) : Prop := ∀ u ∈ t.subtrees, u.rule.Valid

def Workspace.FieldsValid (w : Workspace) : Prop := ∀ b ∈ w.blocks, b.rule.Valid

def FieldEdit.InRange (edit : FieldEdit) : Prop :=
  ∀ value, edit = .length value → value ≤ Limits.maxInteger64

/-- What enters a workspace through a call passes its checks. -/
def Workspace.Call.FieldsValid : Call → Prop
  | .addBlock rule _ _ => rule.Valid
  | .insertTree t _ => t.FieldsValid
  | .edit _ e => e.InRange
  | _ => True

namespace Rule

theorem valid_leaf {l : Leaf} : (Rule.leaf l).Valid ↔ l.Valid := by simp [Valid]

theorem valid_group (shape : Shape) : (Rule.group shape).Valid := fun _ h => by cases h

instance : DecidablePred Rule.Valid
  | .leaf _ => decidable_of_iff _ valid_leaf.symm
  | .group shape => isTrue (valid_group shape)

end Rule

instance {φ : Type} (t : Tree φ) : Decidable t.FieldsValid :=
  inferInstanceAs (Decidable (∀ u ∈ t.subtrees, u.rule.Valid))

instance (w : Workspace) : Decidable w.FieldsValid :=
  inferInstanceAs (Decidable (∀ b ∈ w.blocks, b.rule.Valid))

theorem FieldEdit.valid_of_applyLeaf {edit : FieldEdit} {l updated : Leaf} (he : edit.InRange)
    (hl : l.Valid) (h : edit.applyLeaf l = .ok updated) : updated.Valid := by
  cases edit with
  | pattern value =>
    cases l <;> simp only [applyLeaf, map_eq_ok_iff, nonEmpty_eq_ok_iff] at h
    case string => obtain ⟨_, ⟨hv, rfl⟩, rfl⟩ := h; exact ⟨hv, hl.2⟩
    all_goals cases h
  | typeName value =>
    cases l <;> simp only [applyLeaf, map_eq_ok_iff, nonEmpty_eq_ok_iff] at h
    case string => obtain ⟨_, ⟨hv, rfl⟩, rfl⟩ := h; exact ⟨hl.1, hv⟩
    case rest => obtain ⟨_, ⟨hv, rfl⟩, rfl⟩ := h; exact hv
    case substring => obtain ⟨_, ⟨hv, rfl⟩, rfl⟩ := h; exact ⟨hl.1, hl.2.1, hv⟩
  | length value =>
    have hr := he value rfl
    cases l <;> simp only [applyLeaf, map_eq_ok_iff, positiveLength_eq_ok_iff] at h
    case substring =>
      obtain ⟨_, ⟨hv, rfl⟩, rfl⟩ := h
      exact ⟨by omega, by omega, hl.2.2⟩
    all_goals cases h

theorem Body.valid_of_edit {edit : FieldEdit} {body updated : Body} (he : edit.InRange)
    (hb : body.rule.Valid) (h : body.edit edit = .ok updated) : updated.rule.Valid := by
  cases body with
  | leaf l =>
    obtain ⟨l', hl, rfl⟩ := map_eq_ok_iff.1 h
    exact Rule.valid_leaf.2 (FieldEdit.valid_of_applyLeaf he (Rule.valid_leaf.1 hb) hl)
  | group shape children => cases h

namespace Tree

variable {φ : Type} {id : NodeId} {flavor : φ}

theorem fieldsValid_leaf {l : Leaf} : (Tree.leaf id flavor l).FieldsValid ↔ l.Valid := by
  simp [FieldsValid, subtrees_eq, children, rule, Rule.valid_leaf]

theorem fieldsValid_group {shape : Shape} {ts : List (Tree φ)} :
    (Tree.group id flavor shape ts).FieldsValid ↔ ∀ t ∈ ts, t.FieldsValid := by
  constructor
  · intro h t ht u hu
    exact h u (mem_subtrees_of_child ht hu)
  · intro h u hu
    rcases mem_subtrees.1 hu with rfl | ⟨t, ht, hu⟩
    · exact Rule.valid_group shape
    · exact h t ht u hu

theorem fieldsValid_ofRule {r : Rule} (h : r.Valid) : (ofRule id flavor r).FieldsValid := by
  cases r with
  | leaf l => exact fieldsValid_leaf.2 (Rule.valid_leaf.1 h)
  | group shape => exact fieldsValid_group.2 fun _ ht => by cases ht

end Tree

namespace Workspace

variable {w : Workspace}

theorem rule_mapChildren (f : List NodeId → List NodeId) (body : Body) :
    (body.mapChildren f).rule = body.rule := by cases body <;> rfl

theorem FieldsValid.modifyBlock (h : w.FieldsValid) (id : NodeId) {f : Block → Block}
    (hf : ∀ b, b.rule.Valid → (f b).rule.Valid) : (w.modifyBlock id f).FieldsValid := by
  intro c hc
  obtain ⟨b, hb, rfl⟩ := List.mem_map.1 hc
  split
  · exact hf b (h b hb)
  · exact h b hb

theorem FieldsValid.append (h : w.FieldsValid) {v : Workspace} {t : Tree Flavor}
    (ht : t.FieldsValid) (hv : v.blocks = w.blocks ++ t.toBlocks none) : v.FieldsValid := by
  intro b hb
  rw [hv, List.mem_append] at hb
  rcases hb with hb | hb
  · exact h b hb
  · rcases Tree.mem_toBlocks.1 hb with rfl | ⟨v, hv, u, hu, rfl⟩
    · simpa [Block.rule] using ht t t.self_mem_subtrees
    · simpa [Block.rule] using ht u (Tree.child_mem_subtrees hv hu)

theorem FieldsValid.removeAll (h : w.FieldsValid) (n : Nat) (stack : List NodeId) :
    (w.removeAll n stack).FieldsValid := by
  induction n generalizing w stack with
  | zero => exact h
  | succ n ih =>
    cases stack with
    | nil => exact h
    | cons id stack =>
      rw [Workspace.removeAll]
      split
      · exact ih h stack
      · exact ih (fun b hb => h b (List.mem_of_mem_filter hb)) _

theorem FieldsValid.attach (h : w.FieldsValid) (child : NodeId) (place : Attachment) :
    (w.attach child place).FieldsValid := by
  refine FieldsValid.modifyBlock (FieldsValid.modifyBlock (w := { w with topLevel := _ }) h _ ?_)
    _ ?_
  · intro b hb
    rwa [Block.rule, rule_mapChildren]
  · intro b hb
    rwa [Block.rule, Block.body_retag]

theorem FieldsValid.detach (h : w.FieldsValid) (id parent : NodeId) :
    (w.detach id parent).FieldsValid := by
  refine FieldsValid.modifyBlock (FieldsValid.modifyBlock h _ ?_) _ ?_
  · intro b hb
    rwa [Block.rule, rule_mapChildren]
  · intro b hb
    rwa [Block.rule, Block.body_retag]

theorem FieldsValid.block (h : w.FieldsValid) {id : NodeId} {b : Block}
    (hb : w.block id = .ok b) : b.rule.Valid :=
  h b (List.mem_of_find?_eq_some (block_eq_ok_iff.1 hb))

end Workspace

/-- An operation keeps a property of workspaces, and its results have another property. -/
def Action.Keeps {ε α : Type} (P : Workspace → Prop) (action : Action ε α) (Q : α → Prop) : Prop :=
  ∀ w, P w → P (action.run w).2 ∧ ∀ a, (action.run w).1 = .ok a → Q a

namespace Action.Keeps

variable {ε ε' α β : Type} {P : Workspace → Prop} {Q : α → Prop} {R : β → Prop}

theorem pure {a : α} (h : Q a) : Keeps P (pure a : Action ε α) Q := by
  intro w hw
  refine ⟨hw, ?_⟩
  rintro _ hr
  obtain rfl := Except.ok.inj hr
  exact h

theorem throw (e : ε) : Keeps P (throw e : Action ε α) Q := by
  intro w hw
  refine ⟨hw, ?_⟩
  rintro _ hr
  cases hr

theorem check {f : Workspace → Except ε α} (h : ∀ w, P w → ∀ a, f w = .ok a → Q a) :
    Keeps P (check f) Q := by
  intro w hw
  rw [run_check]
  exact ⟨hw, h w hw⟩

theorem check_any (f : Workspace → Except ε α) : Keeps P (Action.check f) fun _ => True :=
  .check fun _ _ _ _ => trivial

theorem get : Keeps P (get : Action ε Workspace) P := by
  intro w hw
  refine ⟨hw, ?_⟩
  rintro _ hr
  obtain rfl := Except.ok.inj hr
  exact hw

theorem set {v : Workspace} (h : P v) : Keeps P (set v : Action ε PUnit) fun _ => True :=
  fun _ _ => ⟨h, fun _ _ => trivial⟩

theorem modify {f : Workspace → Workspace} (h : ∀ w, P w → P (f w)) :
    Keeps P (modify f : Action ε PUnit) fun _ => True :=
  fun w hw => ⟨h w hw, fun _ _ => trivial⟩

theorem bind {action : Action ε α} {f : α → Action ε β} (ha : Keeps P action Q)
    (hf : ∀ a, Q a → Keeps P (f a) R) : Keeps P (action >>= f) R := by
  intro w hw
  obtain ⟨hP, hQ⟩ := ha w hw
  rw [run_bind]
  split
  · next a v hr =>
    rw [hr] at hP hQ
    exact hf a (hQ a rfl) v hP
  · next e v hr =>
    rw [hr] at hP
    refine ⟨hP, ?_⟩
    rintro _ he
    cases he

theorem mapError {action : Action ε α} (h : Keeps P action Q) (f : ε → ε') :
    Keeps P (action.mapError f) Q := by
  intro w hw
  rw [run_mapError]
  refine ⟨(h w hw).1, ?_⟩
  rintro a ha
  exact (h w hw).2 a (mapError_eq_ok_iff.1 ha)

end Action.Keeps

/-! The operations on blocks keep what each of their changes keeps. -/

namespace Workspace

open LabelGrammar.Action

variable {P : Workspace → Prop}

theorem keeps_connect (h : ∀ w child place, P w → P (w.attach child place)) (child : NodeId)
    (place : Attachment) : Keeps P (connect child place) fun _ => True := by
  unfold connect
  refine .bind (.check_any _) fun b _ => ?_
  split
  · exact .bind (Q := fun _ => False) (.throw _) fun _ h => h.elim
  · exact .bind (.check_any _) fun _ _ => .modify fun w => h w child place

theorem keeps_disconnect (h : ∀ w id parent, P w → P (w.detach id parent)) (id : NodeId) :
    Keeps P (disconnect id) fun _ => True := by
  unfold disconnect
  refine .bind (.check_any _) fun b _ => ?_
  split
  · next parent _ => exact .modify fun w => h w id parent
  · exact .pure trivial

theorem keeps_insertTree {t : Tree Flavor} (hplace : ∀ w, P w → P (w.place t))
    (hattach : ∀ w child place, P w → P (w.attach child place)) (place : Option Attachment) :
    Keeps P (insertTree t place) fun _ => True := by
  unfold insertTree
  refine .bind (.check_any _) fun _ _ => ?_
  cases place with
  | none => exact .bind (.modify hplace) fun _ _ => .pure trivial
  | some place =>
    exact .bind (.check_any _) fun _ _ => .bind (.modify hplace) fun _ _ =>
      .bind (keeps_connect hattach t.id place) fun _ _ => .pure trivial

theorem keeps_delete (hfilter : ∀ w parent id, P w → P (w.modifyBlock parent fun b =>
      { b with body := b.body.mapChildren (·.filter (· ≠ id)) }))
    (htop : ∀ (w : Workspace) ids, P w → P { w with topLevel := ids })
    (hremove : ∀ w n stack, P w → P (w.removeAll n stack)) (id : NodeId) :
    Keeps P (delete id) fun _ => True := by
  unfold delete
  refine .bind (.check_any _) fun t _ => .bind (.check_any _) fun b _ => ?_
  have hrest : Keeps P (do
      modify fun w => w.removeAll w.size [id]
      return t : Action WorkspaceError (Tree Flavor)) fun _ => True :=
    .bind (.modify fun w => hremove w w.size [id]) fun _ _ => .pure trivial
  split
  · next parent _ => exact .bind (.modify fun w => hfilter w parent id) fun _ _ => hrest
  · exact .bind (.modify fun w => htop w _) fun _ _ => hrest

end Workspace

namespace Workspace.FieldsValid

open LabelGrammar.Action

theorem keeps_freshId {ε : Type} (offers : List NodeId) :
    Keeps FieldsValid (freshId offers : Action ε NodeId) fun _ => True :=
  fun _ hw => ⟨hw, fun _ _ => trivial⟩

theorem keeps_addBlock {rule : Rule} (hr : rule.Valid) (flavor : Option Flavor)
    (offers : List NodeId) : Keeps FieldsValid (addBlock rule flavor offers) fun _ => True := by
  unfold addBlock
  refine .bind (.check_any _) fun flavor _ => ?_
  refine .bind (keeps_freshId offers) fun id _ => .bind .get fun w hw => ?_
  exact .bind (.set (hw.append (Tree.fieldsValid_ofRule hr) rfl)) fun _ _ => .pure trivial

theorem keeps_connect (child : NodeId) (place : Attachment) :
    Keeps FieldsValid (connect child place) fun _ => True :=
  Workspace.keeps_connect (fun _ _ _ hw => hw.attach _ _) child place

theorem keeps_disconnect (id : NodeId) : Keeps FieldsValid (disconnect id) fun _ => True :=
  Workspace.keeps_disconnect (fun _ _ _ hw => hw.detach _ _) id

theorem keeps_insertTree {t : Tree Flavor} (ht : t.FieldsValid) (place : Option Attachment) :
    Keeps FieldsValid (insertTree t place) fun _ => True :=
  Workspace.keeps_insertTree (fun _ hw => hw.append ht rfl) (fun _ _ _ hw => hw.attach _ _) place

theorem keeps_delete (id : NodeId) : Keeps FieldsValid (delete id) fun _ => True := by
  refine Workspace.keeps_delete ?_ (fun _ _ hw => hw) (fun _ _ _ hw => hw.removeAll _ _) id
  intro w parent id hw
  refine hw.modifyBlock _ fun b hb => ?_
  rwa [Block.rule, rule_mapChildren]

theorem keeps_edit (id : NodeId) {edit : FieldEdit} (he : edit.InRange) :
    Keeps FieldsValid (Workspace.edit id edit) fun _ => True := by
  unfold Workspace.edit
  refine .bind (Q := fun b => b.rule.Valid) (.check fun w hw b hb => hw.block hb) fun b hb => ?_
  refine .bind (Q := fun body => body.rule.Valid) (.check ?_) fun body hbody => ?_
  · intro w hw body h
    rw [mapError_eq_ok_iff] at h
    exact Body.valid_of_edit he hb h
  · exact .modify fun w hw => hw.modifyBlock _ fun _ _ => hbody

theorem keeps_stringsOfPairs (flavor : Flavor) (offers : List NodeId) (pairs : List Pair) :
    Keeps FieldsValid (stringsOfPairs flavor offers pairs) fun ts => ∀ t ∈ ts, t.FieldsValid := by
  induction pairs generalizing offers with
  | nil => exact .pure (by simp)
  | cons pair pairs ih =>
    refine .bind (Q := Leaf.Valid) (.check ?_) fun l hl => ?_
    · intro w hw l h
      exact (Leaf.makeString_eq_ok_iff.1 (mapError_eq_ok_iff.1 h)).2
    refine .bind (keeps_freshId offers) fun id _ => .bind (ih offers.tail) fun ts hts => .pure ?_
    rw [List.forall_mem_cons]
    exact ⟨Tree.fieldsValid_leaf.2 hl, hts⟩

theorem keeps_choiceOfPairs (pairs : List Pair) (flavor : Flavor) (offers : List NodeId) :
    Keeps FieldsValid (choiceOfPairs pairs flavor offers) Tree.FieldsValid := by
  refine .bind (keeps_freshId offers) fun id _ => ?_
  refine .bind (keeps_stringsOfPairs flavor offers.tail pairs) fun ts hts => .pure ?_
  exact Tree.fieldsValid_group.2 hts

theorem keeps_importPairs (pairs : List Pair) (place : Option Attachment) (flavor : Flavor)
    (offers : List NodeId) :
    Keeps FieldsValid (importPairs pairs place flavor offers) fun _ => True :=
  .bind (keeps_choiceOfPairs pairs flavor offers) fun _ ht =>
    .mapError (keeps_insertTree ht place) _

end Workspace.FieldsValid

namespace Workspace

variable {w : Workspace}

theorem FieldsValid.after (h : w.FieldsValid) {c : Call} (hc : c.FieldsValid) :
    (w.after c).FieldsValid := by
  cases c with
  | freshId offers => exact h
  | addBlock rule flavor offers => exact (FieldsValid.keeps_addBlock hc flavor offers w h).1
  | insertTree t place => exact (FieldsValid.keeps_insertTree hc place w h).1
  | connect child place => exact (FieldsValid.keeps_connect child place w h).1
  | disconnect id => exact (FieldsValid.keeps_disconnect id w h).1
  | delete id => exact (FieldsValid.keeps_delete id w h).1
  | edit id edit => exact (FieldsValid.keeps_edit id hc w h).1
  | clear => exact fun b hb => by cases hb
  | importPairs pairs place flavor offers =>
    exact (FieldsValid.keeps_importPairs pairs place flavor offers w h).1

/-- Whatever a store holds, the workspace that is read from it has valid fields. -/
theorem fieldsValid_load {σ : Type} [Store σ] (s : σ) : (Saved.load s).workspace.FieldsValid := by
  refine Saved.load_induction s (fun b hb => by cases hb) ?_
  intro w v j _ _ h hr
  simp only [Saved.insertBlock, bind_eq_ok_iff] at hr
  obtain ⟨t, ht, hr⟩ := hr
  have hi := (FieldsValid.keeps_insertTree (Document.storable_of_readNode ht).fields none w h).1
  split at hr
  · next id x hx =>
    obtain rfl := Except.ok.inj hr
    rwa [hx] at hi
  · cases hr

end Workspace

theorem Represents.fieldsValid {w : Workspace} {F : Forest} (h : Represents w F)
    (hw : w.FieldsValid) {t : Tree Flavor} (ht : t ∈ Forest.subtrees F) : t.FieldsValid := by
  intro u hu
  obtain ⟨v, hv, ht⟩ := Forest.mem_subtrees.1 ht
  obtain ⟨parent, hb⟩ :=
    h.find?_node (Forest.mem_subtrees.2 ⟨v, hv, Tree.mem_subtrees_trans ht hu⟩)
  simpa [Block.rule] using hw _ (List.mem_of_find?_eq_some hb)

end LabelGrammar
