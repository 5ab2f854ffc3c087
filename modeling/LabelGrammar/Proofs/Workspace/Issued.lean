import LabelGrammar.Proofs.Workspace.Fields

/-! # Where issued ids come from

An id that was not issued before a call is one that the call draws, or one of a tree that it
admits. Calls that do neither leave the issued ids alone, and so do trees that are refused. Ids that
are drawn differ from each other and from all that were issued.
-/

namespace LabelGrammar

open LabelGrammar.Action

namespace Workspace

variable {w : Workspace} {id : NodeId}

/-- The ids that draws in a row give. Each draw uses up an offer. -/
def drawn (w : Workspace) : List NodeId → Nat → List NodeId
  | _, 0 => []
  | offers, n + 1 => w.pick offers :: drawn (w.retire [w.pick offers]) offers.tail n

def draw (w : Workspace) (offers : List NodeId) (n : Nat) : Workspace :=
  { w with issued := w.issued ++ w.drawn offers n }

/-- The rows of a table before the first one that is refused. -/
def validRows (pairs : List Pair) : List Pair :=
  pairs.takeWhile fun (pattern, typeName) => (Leaf.makeString pattern typeName).isOk

/-- The ids that a call draws, in order. -/
def draws (w : Workspace) : Call → List NodeId
  | .freshId offers => [w.pick offers]
  | .addBlock rule flavor offers =>
    match ((addBlock rule flavor offers).run w).1 with
    | .ok id => [id]
    | .error _ => []
  | .importPairs pairs _ _ offers => w.drawn offers ((validRows pairs).length + 1)
  | _ => []

/-- The ids that a call admits with a tree and that were not issued before. -/
def admitted (w : Workspace) : Call → List NodeId
  | .insertTree t place =>
    match ((insertTree t place).run w).1 with
    | .ok _ => t.ids.filter (· ∉ w.issued)
    | .error _ => []
  | _ => []

/-- A call draws an id or admits it. -/
inductive Obtains (w : Workspace) : Call → NodeId → Prop where
  | freshId (offers : List NodeId) : Obtains w (.freshId offers) (w.pick offers)
  | addBlock {rule : Rule} {flavor : Option Flavor} {offers : List NodeId} {id : NodeId} :
      ((Workspace.addBlock rule flavor offers).run w).1 = .ok id →
      Obtains w (.addBlock rule flavor offers) id
  | insertTree {t : Tree Flavor} {place : Option Attachment} {root id : NodeId} :
      ((Workspace.insertTree t place).run w).1 = .ok root → id ∈ t.ids →
      Obtains w (.insertTree t place) id
  | importPairs {pairs : List Pair} {place : Option Attachment} {flavor : Flavor}
      {offers : List NodeId} {id : NodeId} : id ∈ w.drawn offers ((validRows pairs).length + 1) →
      Obtains w (.importPairs pairs place flavor offers) id

def Obtained (w : Workspace) : List Call → NodeId → Prop
  | [], _ => False
  | c :: calls, id => w.Obtains c id ∨ Obtained (w.after c) calls id

theorem retire_of_not_mem (h : id ∉ w.issued) :
    w.retire [id] = { w with issued := w.issued ++ [id] } := by
  rw [retire, List.filter_cons_of_pos (by simpa using h), List.filter_nil]

theorem retire_pick (w : Workspace) (offers : List NodeId) :
    w.retire [w.pick offers] = { w with issued := w.issued ++ [w.pick offers] } :=
  retire_of_not_mem (w.pick_not_mem_issued offers)

theorem retire_of_subset {ids : List NodeId} (h : ids ⊆ w.issued) : w.retire ids = w := by
  have hf : ids.filter (· ∉ w.issued) = [] :=
    List.filter_eq_nil_iff.2 fun i hi => by simpa using h hi
  rw [retire, hf, List.append_nil]

theorem draw_zero (w : Workspace) (offers : List NodeId) : w.draw offers 0 = w := by
  rw [draw, drawn, List.append_nil]

theorem draw_succ (w : Workspace) (offers : List NodeId) (n : Nat) :
    w.draw offers (n + 1) = (w.retire [w.pick offers]).draw offers.tail n := by
  rw [draw, drawn, retire_pick, draw, List.append_assoc, List.singleton_append]

theorem issues_draw (w : Workspace) (offers : List NodeId) (n : Nat) :
    w.Issues (w.draw offers n) := ⟨rfl, rfl, List.subset_append_left _ _⟩

theorem mem_issued_retire {ids : List NodeId} (h : id ∈ (w.retire ids).issued) :
    id ∈ w.issued ∨ id ∈ ids := by
  rw [retire, List.mem_append, List.mem_filter] at h
  exact h.imp_right And.left

theorem run_freshId {ε : Type} (w : Workspace) (offers : List NodeId) :
    (freshId offers : Action ε NodeId).run w =
      (.ok (w.pick offers), w.retire [w.pick offers]) := rfl

theorem nodup_drawn (w : Workspace) (offers : List NodeId) (n : Nat) :
    (w.drawn offers n).Nodup ∧ ∀ id ∈ w.drawn offers n, id ∉ w.issued := by
  induction n generalizing w offers with
  | zero => exact ⟨List.nodup_nil, by simp [drawn]⟩
  | succ n ih =>
    obtain ⟨hn, hf⟩ := ih (w.retire [w.pick offers]) offers.tail
    simp only [retire_pick, List.mem_append, List.mem_singleton, not_or] at hn hf
    rw [drawn, retire_pick, List.nodup_cons, List.forall_mem_cons]
    exact ⟨⟨fun h => (hf _ h).2 rfl, hn⟩, w.pick_not_mem_issued offers, fun i hi => (hf i hi).1⟩

theorem run_addBlock_cases (w : Workspace) (rule : Rule) (flavor : Option Flavor)
    (offers : List NodeId) :
    (∃ e, (addBlock rule flavor offers).run w = (.error e, w)) ∨
      ((addBlock rule flavor offers).run w).1 = .ok (w.pick offers) ∧
      ((addBlock rule flavor offers).run w).2.issued = w.issued ++ [w.pick offers] := by
  unfold addBlock
  simp only [run_bind, run_check, run_freshId, retire_pick]
  split
  · next f v hf =>
    obtain ⟨-, rfl⟩ := Prod.mk.inj hf
    exact .inr ⟨rfl, rfl⟩
  · next e v hf =>
    obtain ⟨-, rfl⟩ := Prod.mk.inj hf
    exact .inl ⟨e, rfl⟩

section Moves

variable (w : Workspace) (id : NodeId)

theorem issued_connect (place : Attachment) : ((connect id place).run w).2.issued = w.issued :=
  (keeps_connect (P := fun v => v.issued = w.issued) (fun _ _ _ hv => hv) id place w rfl).1

theorem issued_disconnect : ((disconnect id).run w).2.issued = w.issued :=
  (keeps_disconnect (P := fun v => v.issued = w.issued) (fun _ _ _ hv => hv) id w rfl).1

theorem issued_delete : ((delete id).run w).2.issued = w.issued := by
  have hk : Keeps (fun v => v.issued = w.issued) (delete id) fun _ => True := by
    apply keeps_delete
    · exact fun _ _ _ hv => hv
    · exact fun _ _ hv => hv
    · exact fun v n stack hv => (Represents.issued_removeAll v n stack).trans hv
  exact (hk w rfl).1

theorem issued_edit (edit : FieldEdit) : ((Workspace.edit id edit).run w).2.issued = w.issued := by
  have hk : Keeps (fun v => v.issued = w.issued) (Workspace.edit id edit) fun _ => True :=
    .bind (.check_any _) fun _ _ => .bind (.check_any _) fun _ _ => .modify fun _ hv => hv
  exact (hk w rfl).1

end Moves

theorem issued_insertTree {t : Tree Flavor} {place : Option Attachment} {root : NodeId}
    (h : ((insertTree t place).run w).1 = .ok root) :
    ((insertTree t place).run w).2.issued = (w.retire t.ids).issued := by
  unfold insertTree at h ⊢
  simp only [run_bind, run_check] at h ⊢
  cases hc : w.checkTree t with
  | error e => simp [hc] at h
  | ok _ =>
    cases place with
    | none => rfl
    | some place =>
      simp only [hc, run_bind, run_check, run_modify] at h ⊢
      cases ha : w.checkAttachment place t.kind none with
      | error e => simp [ha] at h
      | ok _ =>
        have hi := issued_connect (w.place t) t.id place
        simp only
        split
        · next a v hr => rwa [hr] at hi
        · next e v hr => rwa [hr] at hi

section Rows

variable {pattern typeName : String} {pairs : List Pair}

theorem validRows_cons_of_error {e : ValidationError}
    (h : Leaf.makeString pattern typeName = .error e) :
    validRows ((pattern, typeName) :: pairs) = [] := by
  simp [validRows, h, Except.isOk, Except.toBool]

theorem validRows_cons_of_ok {l : Leaf} (h : Leaf.makeString pattern typeName = .ok l) :
    validRows ((pattern, typeName) :: pairs) = (pattern, typeName) :: validRows pairs := by
  simp [validRows, h, Except.isOk, Except.toBool]

end Rows

theorem run_stringsOfPairs (flavor : Flavor) (offers : List NodeId) (pairs : List Pair) :
    ((stringsOfPairs flavor offers pairs).run w).2 = w.draw offers (validRows pairs).length ∧
      ∀ ts, ((stringsOfPairs flavor offers pairs).run w).1 = .ok ts →
        ts.flatMap Tree.ids = w.drawn offers (validRows pairs).length := by
  induction pairs generalizing w offers with
  | nil =>
    refine ⟨(w.draw_zero offers).symm, ?_⟩
    rintro _ h
    obtain rfl := Except.ok.inj h
    rfl
  | cons pair pairs ih =>
    obtain ⟨pattern, typeName⟩ := pair
    simp only [stringsOfPairs, run_bind, run_check]
    cases hl : Leaf.makeString pattern typeName with
    | error e =>
      rw [validRows_cons_of_error hl]
      refine ⟨(w.draw_zero offers).symm, ?_⟩
      rintro _ h
      cases h
    | ok l =>
      obtain ⟨hw, hts⟩ := ih (w := w.retire [w.pick offers]) offers.tail
      rw [← draw_succ] at hw
      rw [validRows_cons_of_ok hl]
      simp only [Except.mapError, run_freshId]
      rcases hr : (stringsOfPairs flavor offers.tail pairs).run (w.retire [w.pick offers]) with
        ⟨error | us, v⟩
      · rw [hr] at hw
        refine ⟨hw, ?_⟩
        rintro _ h
        cases h
      · rw [hr] at hw hts
        refine ⟨hw, ?_⟩
        rintro _ h
        obtain rfl := Except.ok.inj h
        rw [List.flatMap_cons, hts us rfl]
        rfl

theorem run_choiceOfPairs (pairs : List Pair) (flavor : Flavor) (offers : List NodeId) :
    ((choiceOfPairs pairs flavor offers).run w).2 = w.draw offers ((validRows pairs).length + 1) ∧
      ∀ t, ((choiceOfPairs pairs flavor offers).run w).1 = .ok t →
        t.ids = w.drawn offers ((validRows pairs).length + 1) := by
  obtain ⟨hw, hts⟩ := run_stringsOfPairs (w := w.retire [w.pick offers]) flavor offers.tail pairs
  rw [← draw_succ] at hw
  simp only [choiceOfPairs, run_bind, run_freshId]
  rcases hr : (stringsOfPairs flavor offers.tail pairs).run (w.retire [w.pick offers]) with
    ⟨error | ts, v⟩
  · rw [hr] at hw
    refine ⟨hw, ?_⟩
    rintro _ h
    cases h
  · rw [hr] at hw hts
    refine ⟨hw, ?_⟩
    rintro _ h
    obtain rfl := Except.ok.inj h
    rw [Tree.ids_eq, Tree.children, hts ts rfl]
    rfl

theorem run_importPairs_refused {F : Forest} (h : Represents w F) {pairs : List Pair}
    {place : Option Attachment} {flavor : Flavor} {offers : List NodeId} {error : ImportError}
    (he : ((importPairs pairs place flavor offers).run w).1 = .error error) :
    ((importPairs pairs place flavor offers).run w).2 =
      w.draw offers ((validRows pairs).length + 1) := by
  obtain ⟨hw, -⟩ := run_choiceOfPairs (w := w) pairs flavor offers
  rw [importPairs, run_bind] at he ⊢
  split at he
  · next t v hr =>
    rw [hr] at hw
    obtain rfl := hw
    rw [run_mapError] at he ⊢
    cases hx : ((insertTree t place).run (w.draw offers ((validRows pairs).length + 1))).1 with
    | error e => exact (h.of_issues (w.issues_draw offers _)).insertTree_refused hx
    | ok id =>
      rw [hx] at he
      cases he
  · next e v hr =>
    rw [hr] at hw
    exact hw

/-- A call issues the ids that it draws or admits, and no other one. -/
theorem issued_after (h : Represents w F) (c : Call) :
    (w.after c).issued = w.issued ++ w.draws c ++ w.admitted c := by
  cases c with
  | freshId offers =>
    change (w.retire [w.pick offers]).issued = w.issued ++ [w.pick offers] ++ []
    rw [retire_pick, List.append_nil]
  | addBlock rule flavor offers =>
    rcases w.run_addBlock_cases rule flavor offers with ⟨e, hr⟩ | ⟨ha, hi⟩
    · simp [after, draws, admitted, hr]
    · simp [after, draws, admitted, ha, hi]
  | insertTree t place =>
    cases hr : ((insertTree t place).run w).1 with
    | error e => simp [after, draws, admitted, hr, h.insertTree_refused hr]
    | ok root => simp [after, draws, admitted, hr, issued_insertTree hr, retire]
  | connect child place => simp [after, draws, admitted, issued_connect]
  | disconnect id => simp [after, draws, admitted, issued_disconnect]
  | delete id => simp [after, draws, admitted, issued_delete]
  | edit id edit => simp [after, draws, admitted, issued_edit]
  | clear => simp [after, draws, admitted, clear]
  | importPairs pairs place flavor offers =>
    obtain ⟨hw, ht⟩ := run_choiceOfPairs (w := w) pairs flavor offers
    change _ = w.issued ++ w.drawn offers ((validRows pairs).length + 1) ++ []
    rw [after, importPairs, run_bind, List.append_nil]
    split
    · next t v hr =>
      rw [hr] at hw ht
      obtain rfl := hw
      rw [run_mapError]
      cases hx : ((insertTree t place).run (w.draw offers ((validRows pairs).length + 1))).1 with
      | error e => rw [(h.of_issues (w.issues_draw offers _)).insertTree_refused hx, draw]
      | ok root =>
        have hi : t.ids ⊆ (w.draw offers ((validRows pairs).length + 1)).issued := by
          rw [ht t rfl]
          exact List.subset_append_right _ _
        rw [issued_insertTree hx, retire_of_subset hi, draw]
    · next e v hr =>
      rw [hr] at hw
      rw [hw, draw]

theorem nodup_draws (w : Workspace) (c : Call) :
    (w.draws c).Nodup ∧ ∀ id ∈ w.draws c, id ∉ w.issued := by
  cases c with
  | freshId offers => simpa [draws] using w.pick_not_mem_issued offers
  | addBlock rule flavor offers =>
    rcases w.run_addBlock_cases rule flavor offers with ⟨e, hr⟩ | ⟨ha, -⟩
    · simp [draws, hr]
    · simpa [draws, ha] using w.pick_not_mem_issued offers
  | importPairs pairs place flavor offers => exact w.nodup_drawn offers _
  | _ => simp [draws]

theorem obtains_of_mem {c : Call} (h : id ∈ w.draws c ++ w.admitted c) : w.Obtains c id := by
  cases c with
  | freshId offers =>
    obtain rfl := List.mem_singleton.1 h
    exact .freshId offers
  | addBlock rule flavor offers =>
    cases hr : ((addBlock rule flavor offers).run w).1 with
    | error e => simp [draws, admitted, hr] at h
    | ok i =>
      obtain rfl : id = i := by simpa [draws, admitted, hr] using h
      exact .addBlock hr
  | insertTree t place =>
    cases hr : ((insertTree t place).run w).1 with
    | error e => simp [draws, admitted, hr] at h
    | ok root =>
      have hi : id ∈ t.ids ∧ id ∉ w.issued := by simpa [draws, admitted, hr] using h
      exact .insertTree hr hi.1
  | importPairs pairs place flavor offers => exact .importPairs (by simpa [draws, admitted] using h)
  | _ => simp [draws, admitted] at h

theorem mem_issued_after {F : Forest} (h : Represents w F) {c : Call}
    (hi : id ∈ (w.after c).issued) : id ∈ w.issued ∨ w.Obtains c id := by
  rw [issued_after h, List.append_assoc, List.mem_append] at hi
  exact hi.imp_right obtains_of_mem

theorem mem_issued_foldl_after {F : Forest} (h : Represents w F) {calls : List Call}
    (hi : id ∈ (calls.foldl after w).issued) : id ∈ w.issued ∨ w.Obtained calls id := by
  induction calls generalizing w F with
  | nil => exact .inl hi
  | cons c calls ih =>
    obtain ⟨G, hG⟩ := h.after c
    rcases ih hG hi with hi | hi
    · exact (mem_issued_after h hi).imp_right .inl
    · exact .inr (.inr hi)

end Workspace

end LabelGrammar
