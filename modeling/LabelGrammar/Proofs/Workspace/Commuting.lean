import LabelGrammar.Proofs.Workspace.Moves

/-! # Edits in either order

An edit decides by the kind of its block and changes a field of it. Moves decide by kinds and links,
and change links and flavors. Neither sees what the other does, so their order does not matter, and
neither does that of two edits that do not change the same field.
-/

namespace LabelGrammar

structure Action.Commutes {ε ε' α β : Type} (x : Action ε α) (y : Action ε' β) (w : Workspace) :
    Prop where
  left : (x.run (y.run w).2).1 = (x.run w).1
  right : (y.run (x.run w).2).1 = (y.run w).1
  workspace : (y.run (x.run w).2).2 = (x.run (y.run w).2).2

namespace Workspace

/-- The order of an edit and a move does not matter, nor that of edits of different fields. -/
structure EditsCommute (w : Workspace) : Prop where
  connect (id : NodeId) (edit : FieldEdit) (child : NodeId) (place : Attachment) :
    (Workspace.edit id edit).Commutes (Workspace.connect child place) w
  disconnect (id : NodeId) (edit : FieldEdit) (child : NodeId) :
    (Workspace.edit id edit).Commutes (Workspace.disconnect child) w
  edit {id id' : NodeId} (edit edit' : FieldEdit) : id ≠ id' ∨ edit.field ≠ edit'.field →
    (Workspace.edit id edit).Commutes (Workspace.edit id' edit') w

end Workspace

namespace Action

variable {ε ε' α β γ δ : Type} {x : Action ε α} {y : Action ε' β} {w : Workspace}
  {view : Workspace → γ} {view' : Workspace → δ} {f g : Workspace → Workspace}

/-- The workspace after an operation that changes nothing if it is refused. -/
def settled (r : Except ε α) (change : Workspace → Workspace) (w : Workspace) : Workspace :=
  match r with
  | .ok _ => change w
  | .error _ => w

/-- Where a view shows the same, an operation gives the same result. If it is accepted it makes the
given change, and none otherwise. -/
structure Sees (view : Workspace → γ) (x : Action ε α) (w : Workspace)
    (change : Workspace → Workspace) : Prop where
  result {v : Workspace} : view v = view w → (x.run v).1 = (x.run w).1
  workspace {v : Workspace} : view v = view w → (x.run v).2 = settled (x.run w).1 change v

theorem Sees.of_run (result : Workspace → Except ε α)
    (hrun : ∀ v, view v = view w → x.run v = (result v, settled (result v) f v))
    (hresult : ∀ v, view v = view w → result v = result w) : x.Sees view w f where
  result {v} h := by rw [hrun v h, hrun w rfl, hresult v h]
  workspace {v} h := by rw [hrun v h, hrun w rfl, hresult v h]

theorem Sees.view_eq (hx : x.Sees view w f) (hf : view' (f w) = view' w) :
    view' (x.run w).2 = view' w := by
  rw [hx.workspace rfl]
  cases (x.run w).1 with
  | error e => rfl
  | ok a => exact hf

/-- Operations commute if their changes do, and if each leaves alone what the other sees. -/
theorem Sees.commutes (hx : x.Sees view w f) (hy : y.Sees view' w g)
    (hf : view' (f w) = view' w) (hg : view (g w) = view w) (hfg : g (f w) = f (g w)) :
    x.Commutes y w := by
  have hfx := hx.view_eq hf
  have hgy := hy.view_eq hg
  refine ⟨hx.result hgy, hy.result hfx, ?_⟩
  rw [hy.workspace hfx, hx.workspace hgy, hx.workspace rfl, hy.workspace rfl]
  cases (x.run w).1 <;> cases (y.run w).1 <;> simp only [settled, hfg]

end Action

/-- What moves see of a block. -/
structure Block.Outline where
  id : NodeId
  kind : Kind
  parent : Option NodeId
  children : List NodeId

def Block.outline (b : Block) : Block.Outline := ⟨b.id, b.kind, b.parent, b.children⟩

namespace Workspace

variable {w v : Workspace} {id child : NodeId} {f g : Block → Block}

def kinds (w : Workspace) : List (NodeId × Kind) := w.blocks.map fun b => (b.id, b.kind)

/-- What moves see: which blocks there are, their kinds and their links. -/
def outlines (w : Workspace) : List Block.Outline := w.blocks.map Block.outline

theorem map_modifyBlock {γ : Type} {view : Block → γ} (hf : ∀ b, view (f b) = view b)
    (w : Workspace) (id : NodeId) :
    (w.modifyBlock id f).blocks.map view = w.blocks.map view := by
  change (w.blocks.map (Block.onId id f)).map view = _
  rw [List.map_map]
  refine List.map_congr_left fun b _ => ?_
  rw [Function.comp_apply, Block.onId]
  split
  · exact hf b
  · rfl

theorem modifyBlock_congr (h : ∀ b ∈ w.blocks, b.id = id → f b = g b) :
    w.modifyBlock id f = w.modifyBlock id g := by
  have hb : w.blocks.map (Block.onId id f) = w.blocks.map (Block.onId id g) := by
    refine List.map_congr_left fun b hb => ?_
    by_cases hi : b.id = id
    · rw [Block.onId_of_eq hi, Block.onId_of_eq hi, h b hb hi]
    · rw [Block.onId_of_ne hi, Block.onId_of_ne hi]
  exact congrArg (fun bs => { w with blocks := bs }) hb

theorem modifyBlock_comm {i j : NodeId} (hf : ∀ b, (f b).id = b.id) (hg : ∀ b, (g b).id = b.id)
    (hfg : i = j → ∀ b, f (g b) = g (f b)) (w : Workspace) :
    (w.modifyBlock j g).modifyBlock i f = (w.modifyBlock i f).modifyBlock j g := by
  have hb (b : Block) : Block.onId i f (Block.onId j g b) = Block.onId j g (Block.onId i f b) := by
    by_cases hi : b.id = i
    · by_cases hj : b.id = j
      · rw [Block.onId_of_eq hj, Block.onId_of_eq ((hg b).trans hi), Block.onId_of_eq hi,
          Block.onId_of_eq ((hf b).trans hj), hfg (hi.symm.trans hj)]
      · rw [Block.onId_of_ne hj, Block.onId_of_eq hi,
          Block.onId_of_ne fun he => hj ((hf b).symm.trans he)]
    · by_cases hj : b.id = j
      · rw [Block.onId_of_eq hj, Block.onId_of_ne hi, Block.onId_of_eq hj,
          Block.onId_of_ne fun he => hi ((hg b).symm.trans he)]
      · rw [Block.onId_of_ne hj, Block.onId_of_ne hi, Block.onId_of_ne hj]
  have hbs : (w.blocks.map (Block.onId j g)).map (Block.onId i f) =
      (w.blocks.map (Block.onId i f)).map (Block.onId j g) := by
    rw [List.map_map, List.map_map]
    exact List.map_congr_left fun b _ => hb b
  exact congrArg (fun bs => { w with blocks := bs }) hbs

end Workspace

/-- The check of an edit of a node of the given kind. -/
def FieldEdit.check : FieldEdit → Kind → Except ValidationError Unit
  | .pattern value, .string => (nonEmpty .pattern value).map fun _ => ()
  | .typeName value, .string | .typeName value, .rest | .typeName value, .substring =>
    (nonEmpty .typeName value).map fun _ => ()
  | .length value, .substring => (positiveLength value).map fun _ => ()
  | edit, kind => .error (.fieldNotApplicable edit.field kind)

/-- The leaf with a field changed, if it has the field. The value is not checked. -/
def Leaf.set : FieldEdit → Leaf → Leaf
  | .pattern value, .string _ typeName => .string value typeName
  | .typeName value, .string pattern _ => .string pattern value
  | .typeName value, .rest _ => .rest value
  | .typeName value, .substring length _ => .substring length value
  | .length value, .substring _ typeName => .substring value.toNat typeName
  | _, l => l

def Body.set (edit : FieldEdit) : Body → Body
  | .leaf l => .leaf (l.set edit)
  | .group shape children => .group shape children

def Block.set (edit : FieldEdit) (b : Block) : Block := { b with body := b.body.set edit }

theorem FieldEdit.applyLeaf_eq (edit : FieldEdit) (l : Leaf) :
    edit.applyLeaf l = (edit.check l.kind).map fun _ => l.set edit := by
  cases edit <;> cases l <;> first
    | rfl
    | (simp only [applyLeaf, check, Leaf.kind, nonEmpty, positiveLength]; split <;> rfl)

theorem Leaf.set_comm {edit edit' : FieldEdit} (h : edit.field ≠ edit'.field) (l : Leaf) :
    (l.set edit').set edit = (l.set edit).set edit' := by
  cases edit <;> cases edit' <;> first
    | exact absurd rfl h
    | cases l <;> rfl

namespace Body

variable (edit : FieldEdit) (body : Body)

theorem edit_eq : body.edit edit = (edit.check body.rule.kind).map fun _ => body.set edit := by
  cases body with
  | leaf l =>
    rw [Body.edit, edit.applyLeaf_eq, rule, Rule.kind]
    cases edit.check l.kind <;> rfl
  | group shape children => cases edit <;> cases shape <;> rfl

theorem kind_set : (body.set edit).rule.kind = body.rule.kind := by
  cases body with
  | leaf l => cases edit <;> cases l <;> rfl
  | group shape children => rfl

theorem children_set : (body.set edit).children = body.children := by cases body <;> rfl

end Body

namespace Block

variable (edit : FieldEdit) (b : Block)

theorem kind_set : (b.set edit).kind = b.kind := b.body.kind_set edit

theorem outline_set : (b.set edit).outline = b.outline := by
  rw [outline, outline, kind_set, children, children]
  exact congrArg (Outline.mk b.id b.kind b.parent) (b.body.children_set edit)

theorem set_withChildren (f : List NodeId → List NodeId) :
    Block.set edit (b.withChildren f) = (b.set edit).withChildren f := by
  rw [withChildren, set, set, withChildren]
  cases b.body <;> rfl

theorem set_reparent (parent : Option NodeId) :
    Block.set edit (b.reparent parent) = (b.set edit).reparent parent := by
  have hk : (⟨b.id, b.flavor, parent, b.body.set edit⟩ : Block).kind =
      (⟨b.id, b.flavor, parent, b.body⟩ : Block).kind := b.body.kind_set edit
  rw [reparent, reparent, retag, retag, set, set, hk]
  split <;> rfl

theorem set_comm {edit edit' : FieldEdit} (h : edit.field ≠ edit'.field) (b : Block) :
    (b.set edit').set edit = (b.set edit).set edit' := by
  rw [set, set, set, set]
  cases b.body with
  | leaf l => simp only [Body.set, Leaf.set_comm h]
  | group shape children => rfl

end Block

namespace Workspace

variable {w v : Workspace} {id : NodeId}

theorem map_find? {γ : Type} (view : Block → γ) (key : γ → NodeId)
    (hk : ∀ b, key (view b) = b.id) (w : Workspace) (id : NodeId) :
    (w.find? id).map view = (w.blocks.map view).find? (key · == id) := by
  have hp : (fun b : Block => b.id == id) = (key · == id) ∘ view := by
    funext b
    rw [Function.comp_apply, hk]
  rw [List.find?_map, find?, hp]

def editResult (w : Workspace) (id : NodeId) (edit : FieldEdit) : Except WorkspaceError Unit :=
  match (w.find? id).map Block.kind with
  | none => .error (.unknownNode id)
  | some kind => (edit.check kind).mapError .invalid

theorem run_edit (hu : (w.blocks.map Block.id).Nodup) (id : NodeId) (edit : FieldEdit) :
    (Workspace.edit id edit).run w = (w.editResult id edit,
      Action.settled (w.editResult id edit) (·.modifyBlock id (Block.set edit)) w) := by
  rw [editResult]
  cases hb : w.find? id with
  | none => simp [Workspace.edit, Action.run_bind, block, hb, Action.settled]
  | some b =>
    simp only [Workspace.edit, Action.run_bind, Action.run_check, block_eq_ok_iff.2 hb,
      Body.edit_eq, Option.map_some]
    rw [show b.kind = b.body.rule.kind from rfl]
    cases edit.check b.body.rule.kind with
    | error e => rfl
    | ok _ =>
      have hw : w.modifyBlock id (Block.withBody (b.body.set edit)) =
          w.modifyBlock id (Block.set edit) := by
        refine modifyBlock_congr fun c hc hi => ?_
        have hf := find?_of_mem hu hc
        obtain rfl : b = c := Option.some.inj (hb.symm.trans (hi ▸ hf))
        rfl
      exact congrArg (Prod.mk _) hw

theorem sees_edit (hu : (w.blocks.map Block.id).Nodup) (id : NodeId) (edit : FieldEdit) :
    (Workspace.edit id edit).Sees kinds w (·.modifyBlock id (Block.set edit)) := by
  have hkind (v : Workspace) : (v.find? id).map Block.kind =
      (v.kinds.find? (·.1 == id)).map Prod.snd := by
    rw [kinds, ← map_find? (fun b => (b.id, b.kind)) Prod.fst (fun _ => rfl), Option.map_map]
    rfl
  have hids (v : Workspace) : v.blocks.map Block.id = v.kinds.map Prod.fst := by
    rw [kinds, List.map_map]
    rfl
  refine .of_run (·.editResult id edit) (fun v h => run_edit ?_ id edit) fun v h => ?_
  · rwa [hids, h, ← hids]
  · rw [editResult, editResult, hkind, hkind, h]

theorem map_outline_find? (w : Workspace) (id : NodeId) :
    (w.find? id).map Block.outline = w.outlines.find? (·.id == id) :=
  map_find? Block.outline Block.Outline.id (fun _ => rfl) w id

theorem find?_of_outlines (h : v.outlines = w.outlines) (id : NodeId) :
    (v.find? id).map Block.outline = (w.find? id).map Block.outline := by
  rw [map_outline_find?, map_outline_find?, h]

theorem exists_of_outlines {b : Block} (h : v.outlines = w.outlines) (hb : w.find? id = some b) :
    ∃ c, v.find? id = some c ∧ c.kind = b.kind ∧ c.parent = b.parent ∧
      c.children = b.children := by
  have hc := find?_of_outlines h id
  rw [hb, Option.map_some, Option.map_eq_some_iff] at hc
  obtain ⟨c, hc, he⟩ := hc
  obtain ⟨-, hk, hp, hcs⟩ := Block.Outline.mk.inj he
  exact ⟨c, hc, hk, hp, hcs⟩

theorem find?_eq_none_of_outlines (h : v.outlines = w.outlines) (hn : w.find? id = none) :
    v.find? id = none := by
  simpa [hn] using find?_of_outlines h id

theorem parent_of_outlines (h : v.outlines = w.outlines) (id : NodeId) :
    (v.find? id).bind (·.parent) = (w.find? id).bind (·.parent) := by
  have ho := congrArg (·.bind Block.Outline.parent) (find?_of_outlines h id)
  rw [Option.bind_map, Option.bind_map] at ho
  exact ho

theorem climb_of_outlines (h : v.outlines = w.outlines) (ancestor : NodeId) (n : Nat)
    (id : NodeId) : v.climb ancestor n id = w.climb ancestor n id := by
  induction n generalizing id with
  | zero => rfl
  | succ n ih =>
    rw [climb, climb, parent_of_outlines h]
    simp only [ih]

theorem isAncestorOrSelf_of_outlines (h : v.outlines = w.outlines) (ancestor id : NodeId) :
    v.isAncestorOrSelf ancestor id = w.isAncestorOrSelf ancestor id := by
  have hs := congrArg List.length h
  rw [outlines, outlines, List.length_map, List.length_map, ← size, ← size] at hs
  rw [isAncestorOrSelf, isAncestorOrSelf, hs, climb_of_outlines h]

theorem checkAttachment_of_outlines (h : v.outlines = w.outlines) (place : Attachment)
    (kind : Kind) (child : Option NodeId) :
    v.checkAttachment place kind child = w.checkAttachment place kind child := by
  cases hb : w.find? place.parent with
  | none =>
    have hc := find?_eq_none_of_outlines h hb
    simp [checkAttachment, block, hb, hc, bind, Except.bind]
  | some b =>
    obtain ⟨c, hc, hk, -, hcs⟩ := exists_of_outlines h hb
    have hkinds : (fun id => (v.find? id).map Block.kind) =
        fun id => (w.find? id).map Block.kind := by
      funext id
      have ho := congrArg (·.map Block.Outline.kind) (find?_of_outlines h id)
      rw [Option.map_map, Option.map_map] at ho
      exact ho
    have hnone : v.checkAttachment place kind none = w.checkAttachment place kind none := by
      rw [checkAttachment_none hc, checkAttachment_none hb, hk, hcs, hkinds]
    cases child with
    | none => exact hnone
    | some child =>
      rw [checkAttachment_some hc, checkAttachment_some hb, hk, hnone,
        isAncestorOrSelf_of_outlines h]

def connectResult (w : Workspace) (child : NodeId) (place : Attachment) :
    Except WorkspaceError Unit :=
  (w.block child).bind fun b =>
    if b.parent.isSome then .error (.alreadyAttached child)
    else w.checkAttachment place b.kind (some child)

theorem run_connect (w : Workspace) (child : NodeId) (place : Attachment) :
    (Workspace.connect child place).run w = (w.connectResult child place,
      Action.settled (w.connectResult child place) (·.attach child place) w) := by
  rw [connectResult]
  cases hb : w.block child with
  | error e => simp [Workspace.connect, Action.run_bind, hb, Except.bind, Action.settled]
  | ok b =>
    cases hp : b.parent with
    | some p =>
      simp [Workspace.connect, Action.run_bind, hb, hp, Except.bind, Action.settled]
    | none =>
      cases hc : w.checkAttachment place b.kind (some child) <;>
        simp [Workspace.connect, Action.run_bind, hb, hp, hc, Except.bind, Action.settled]

theorem block_of_outlines (h : v.outlines = w.outlines) (id : NodeId) :
    (v.block id).map Block.outline = (w.block id).map Block.outline := by
  have hb := find?_of_outlines h id
  rw [block, block]
  cases hv : v.find? id <;> cases hw : w.find? id <;> simp_all [Except.map]

theorem sees_connect (w : Workspace) (child : NodeId) (place : Attachment) :
    (Workspace.connect child place).Sees outlines w (·.attach child place) := by
  refine .of_run (·.connectResult child place) (fun v _ => run_connect v child place) fun v h => ?_
  have hr (v : Workspace) : v.connectResult child place =
      ((v.block child).map Block.outline).bind fun o =>
        if o.parent.isSome then .error (.alreadyAttached child)
        else v.checkAttachment place o.kind (some child) := by
    rw [connectResult]
    cases v.block child <;> rfl
  rw [hr, hr, block_of_outlines h]
  simp only [checkAttachment_of_outlines h]

theorem run_disconnect (w : Workspace) (id : NodeId) :
    (Workspace.disconnect id).run w = ((w.block id).map fun _ => (),
      match (w.find? id).bind (·.parent) with
      | some p => w.detach id p
      | none => w) := by
  cases hb : w.find? id with
  | none => simp [Workspace.disconnect, Action.run_bind, block, hb, Except.map]
  | some b =>
    cases hp : b.parent with
    | none =>
      simp [Workspace.disconnect, Action.run_bind, block_eq_ok_iff.2 hb, hp, Except.map]
    | some p =>
      simp [Workspace.disconnect, Action.run_bind, block_eq_ok_iff.2 hb, hp, Except.map]

theorem sees_disconnect (w : Workspace) (id : NodeId) :
    (Workspace.disconnect id).Sees outlines w fun v =>
      match (w.find? id).bind (·.parent) with
      | some p => v.detach id p
      | none => v := by
  refine .of_run (fun v => (v.block id).map fun _ => ()) (fun v h => ?_) fun v h => ?_
  · rw [run_disconnect, parent_of_outlines h]
    cases hb : v.find? id with
    | none =>
      have hw := parent_of_outlines h id
      rw [hb, Option.bind_none] at hw
      simp [block, hb, ← hw, Except.map, Action.settled]
    | some b => rw [block_eq_ok_iff.2 hb]; rfl
  · have hr (v : Workspace) : ((v.block id).map fun _ => ()) =
        ((v.block id).map Block.outline).map fun _ => () := by
      cases v.block id <;> rfl
    rw [hr, hr, block_of_outlines h]

section Changes

variable (w : Workspace) (id : NodeId) (edit : FieldEdit)

theorem kinds_set : (w.modifyBlock id (Block.set edit)).kinds = w.kinds :=
  map_modifyBlock (fun b => congrArg (Prod.mk b.id) (b.kind_set edit)) w id

theorem outlines_set : (w.modifyBlock id (Block.set edit)).outlines = w.outlines :=
  map_modifyBlock (Block.outline_set edit) w id

theorem kinds_withChildren (f : List NodeId → List NodeId) :
    (w.modifyBlock id (Block.withChildren f)).kinds = w.kinds := by
  refine map_modifyBlock (fun b => ?_) w id
  exact congrArg (Prod.mk b.id) (congrArg Rule.kind (rule_mapChildren f b.body))

theorem kinds_reparent (parent : Option NodeId) :
    (w.modifyBlock id (Block.reparent parent)).kinds = w.kinds := by
  refine map_modifyBlock (fun b => ?_) w id
  rw [Block.id_reparent, Block.kind, Block.rule, Block.reparent, Block.body_retag]
  rfl

variable (child : NodeId)

theorem kinds_attach (place : Attachment) : (w.attach child place).kinds = w.kinds := by
  have hp := kinds_withChildren ⟨w.blocks, w.topLevel.filter (· ≠ child), w.issued⟩ place.parent
    fun children => children.insertIdx (place.index.getD children.length) child
  exact (kinds_reparent _ child (some place.parent)).trans hp

theorem kinds_detach (p : NodeId) : (w.detach child p).kinds = w.kinds :=
  (kinds_reparent _ child none).trans (w.kinds_withChildren p (·.filter (· ≠ child)))

theorem modifyBlock_set_withChildren (p : NodeId) (f : List NodeId → List NodeId) :
    (w.modifyBlock p (Block.withChildren f)).modifyBlock id (Block.set edit) =
      (w.modifyBlock id (Block.set edit)).modifyBlock p (Block.withChildren f) :=
  modifyBlock_comm (f := Block.set edit) (g := Block.withChildren f) (fun _ => rfl)
    (Block.id_withChildren f) (fun _ b => b.set_withChildren edit f) w

theorem modifyBlock_set_reparent (i : NodeId) (parent : Option NodeId) :
    (w.modifyBlock i (Block.reparent parent)).modifyBlock id (Block.set edit) =
      (w.modifyBlock id (Block.set edit)).modifyBlock i (Block.reparent parent) :=
  modifyBlock_comm (f := Block.set edit) (g := Block.reparent parent) (fun _ => rfl)
    (Block.id_reparent parent) (fun _ b => b.set_reparent edit parent) w

theorem attach_set (place : Attachment) :
    (w.attach child place).modifyBlock id (Block.set edit) =
      (w.modifyBlock id (Block.set edit)).attach child place := by
  let detached : Workspace := { w with topLevel := w.topLevel.filter (· ≠ child) }
  let insert : List NodeId → List NodeId := fun children =>
    children.insertIdx (place.index.getD children.length) child
  have h : ((detached.modifyBlock place.parent (Block.withChildren insert)).modifyBlock child
      (Block.reparent (some place.parent))).modifyBlock id (Block.set edit) =
      ((detached.modifyBlock id (Block.set edit)).modifyBlock place.parent
        (Block.withChildren insert)).modifyBlock child (Block.reparent (some place.parent)) := by
    rw [modifyBlock_set_reparent, modifyBlock_set_withChildren]
  exact h

theorem detach_set (p : NodeId) :
    (w.detach child p).modifyBlock id (Block.set edit) =
      (w.modifyBlock id (Block.set edit)).detach child p := by
  have h : ((w.modifyBlock p (Block.withChildren (·.filter (· ≠ child)))).modifyBlock child
      (Block.reparent none)).modifyBlock id (Block.set edit) =
      ((w.modifyBlock id (Block.set edit)).modifyBlock p
        (Block.withChildren (·.filter (· ≠ child)))).modifyBlock child (Block.reparent none) := by
    rw [modifyBlock_set_reparent, modifyBlock_set_withChildren]
  exact congrArg (fun v : Workspace => { v with topLevel := v.topLevel ++ [child] }) h

end Changes

/-- Whatever calls led to a workspace, the order of an edit and a move of any block does not matter
for their results and for the workspace that they end in, and neither does that of two edits of
different blocks or fields. -/
theorem editsCommute_of_reachable {w : Workspace} (h : w.Reachable) : w.EditsCommute := by
  obtain ⟨F, hF⟩ := h.represents
  have hedit (id : NodeId) (edit : FieldEdit) := sees_edit hF.unique id edit
  constructor
  case connect =>
    intro id edit child place
    exact (hedit id edit).commutes (sees_connect w child place) (outlines_set w id edit)
      (kinds_attach w child place) (attach_set w id edit child place).symm
  case disconnect =>
    intro id edit child
    refine (hedit id edit).commutes (sees_disconnect w child) (outlines_set w id edit) ?_ ?_
    · cases (w.find? child).bind (·.parent) with
      | none => rfl
      | some p => exact kinds_detach w child p
    · cases (w.find? child).bind (·.parent) with
      | none => rfl
      | some p => exact (detach_set w id edit child p).symm
  case edit =>
    intro id id' edit edit' hne
    refine (hedit id edit).commutes (hedit id' edit')
      (kinds_set w id edit) (kinds_set w id' edit') ?_
    refine modifyBlock_comm (f := Block.set edit') (g := Block.set edit) (fun _ => rfl)
      (fun _ => rfl) (fun he b => ?_) w
    exact Block.set_comm (hne.resolve_left (not_not.2 he.symm)).symm b

/-- A rest that is edited and taken from its sequence, a string that is edited and may not go behind
that rest, and both edits of the string. -/
theorem editsCommute_movedSequence :
    let w := movedSequence.after (.addBlock (.leaf (.string "AHU" "unit")) none ["d"])
    let rename := Workspace.edit "c" (.typeName "hall")
    let spell := Workspace.edit "d" (.pattern "VAV")
    let behind := Workspace.connect "d" ⟨"a", none⟩
    w.Reachable ∧ rename.Commutes (Workspace.disconnect "c") w ∧
      (rename.run w).1 = .ok () ∧ ((Workspace.disconnect "c").run w).1 = .ok () ∧
      spell.Commutes behind w ∧ (spell.run w).1 = .ok () ∧
      (behind.run w).1 = .error (.restNotLast "a") ∧
      spell.Commutes (Workspace.edit "d" (.typeName "")) w := by
  intro w rename spell behind
  have hw : w.Reachable := .call _ ReachableByValid.movedSequence.reachable
  have h := editsCommute_of_reachable hw
  exact ⟨hw, h.disconnect "c" _ "c", by decide, by decide, h.connect "d" _ "d" _, by decide,
    by decide, h.edit _ _ (.inr (by decide))⟩

end Workspace

end LabelGrammar
