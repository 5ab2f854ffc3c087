import LabelGrammar.Proofs.Document.Depth
import LabelGrammar.Proofs.Workspace.Fields
import LabelGrammar.Store.Memory

/-! # Restoring sessions

A saved session is restored as it was if no tree has more than 42 levels. Otherwise the text is
nested too deeply for the reader, and all blocks are lost while the labels are kept.
-/

namespace LabelGrammar

open Forest

/-- A store that keeps what was set last. -/
class ReliableStore (σ : Type) [Store σ] : Prop where
  get_set (s : σ) (key value : String) : Store.get (Store.set s key value).2 key = .ok (some value)
  get_set_of_ne (s : σ) {key other : String} (h : other ≠ key) (value : String) :
    Store.get (Store.set s key value).2 other = Store.get s other
  get_remove (s : σ) (key : String) : Store.get (Store.remove s key).2 key = .ok none

instance : ReliableStore MemoryStore where
  get_set m key value := congrArg Except.ok (m.get_set_self key value)
  get_set_of_ne m _ _ h value := congrArg Except.ok (m.get_set_of_ne h value)
  get_remove m key := congrArg Except.ok (m.get_remove_self key)

namespace Corpus

theorem texts_map_str (labels : List String) :
    Json.texts (.arr (labels.map .str)) = .ok labels := by
  have hm : (labels.map Json.str).mapM Json.text = .ok labels := by
    induction labels with
    | nil => rfl
    | cons label labels ih => rw [List.map_cons, List.mapM_cons, ih]; rfl
  exact hm

theorem parse_compact (c : Corpus) : Corpus.parse? c.toJson.compact = some c := by
  have hp : Json.Plain c.toJson := .arr fun v hv => by
    obtain ⟨label, -, rfl⟩ := List.mem_map.1 hv
    exact .str label
  have hd : c.toJson.depth ≤ Json.depthLimit := by
    refine (Json.depth_arr_add_le (n := 0)).2 ⟨by decide, fun v hv => ?_⟩
    obtain ⟨label, -, rfl⟩ := List.mem_map.1 hv
    simp [Json.depth, Json.depthLimit]
  have hs : c.toJson.sorted = c.toJson := by
    rw [toJson, Json.sorted, Json.sortedItems_eq_map, List.map_map]
    rfl
  rw [Corpus.parse?, hp.parse_compact, if_pos hd, hs]
  simp only [bind, Option.bind_some, toJson, texts_map_str]

end Corpus

namespace Represents

variable {w : Workspace} {F : Forest} {t : Tree Flavor}

theorem storable (h : Represents w F) (hw : w.FieldsValid) (ht : t ∈ F) : t.Storable true where
  fields := h.fieldsValid hw (tree_mem_subtrees ht)
  denotes u hu _ := by
    obtain ⟨_, hl⟩ := (h.legal t ht).subtree hu
    exact hl.fits.denotes
  root hk := (h.legal t ht).fits.sequence hk
  inner u hu c hc hk := by
    obtain ⟨_, hl⟩ := (h.legal t ht).subtree hu
    exact (hl.child hc).fits.sequence hk

theorem insertBlock_toValue (h : Represents w F) (hs : t.Storable true) (hl : t.Legal true)
    (hn : (ids (F ++ [t])).Nodup) :
    Saved.insertBlock w (Document.ofTree .internal t).toValue = .ok (w.place t) ∧
      Represents (w.place t) (F ++ [t]) := by
  have ht : t.ids.Nodup := hn.sublist (ids_sublist (tree_mem_subtrees (by simp)))
  have ha := h.admits_of_legal hl ht fun _ hi => (not_mem_ids_of_split hn hi).1
  have hp := h.place ha
  rw [hl.settle_eq] at hp
  refine ⟨?_, hp⟩
  simp only [Saved.insertBlock, Document.toTree_ofTree hs, bind, Except.bind,
    Workspace.run_insertTree ha]
  rfl

theorem foldlM_toValue {G : Forest} (h : Represents w G) (hs : ∀ t ∈ F, t.Storable true)
    (hl : Legal F) (hn : (ids (G ++ F)).Nodup) :
    ∃ v, (F.map fun t => (Document.ofTree .internal t).toValue).foldlM Saved.insertBlock w =
      .ok v ∧ Represents v (G ++ F) := by
  induction F generalizing w G with
  | nil => exact ⟨w, rfl, by rwa [List.append_nil]⟩
  | cons t F ih =>
    rw [List.forall_mem_cons] at hs
    have hg : G ++ t :: F = (G ++ [t]) ++ F := by simp
    rw [hg] at hn ⊢
    have hn' : (ids (G ++ [t])).Nodup := by
      rw [ids, List.flatMap_append] at hn
      exact hn.of_append_left
    obtain ⟨hi, hr⟩ := h.insertBlock_toValue hs.1 (hl t List.mem_cons_self) hn'
    obtain ⟨v, hv, hF⟩ := ih hr hs.2 (fun u hu => hl u (List.mem_cons_of_mem _ hu)) hn
    refine ⟨v, ?_, hF⟩
    rw [List.map_cons, List.foldlM_cons, hi]
    exact hv

theorem find?_eq {v : Workspace} (h : Represents w F) (h' : Represents v F) (id : NodeId) :
    v.find? id = w.find? id :=
  Option.ext fun _ => h'.find?_eq_some_iff.trans h.find?_eq_some_iff.symm

theorem toDocuments_eq (h : Represents w F) :
    w.toDocuments = .ok (F.map (Document.ofTree .internal)) := by
  rw [Workspace.toDocuments, h.topLevel]
  refine mapM_map_id fun t ht => ?_
  rw [h.snapshot_eq (tree_mem_subtrees ht)]
  rfl

end Represents

namespace Saved

/-- The value whose text is stored for documents. -/
def stateValue : List Document → Option Json
  | [] => none
  | [d] => some d.toJson
  | ds => some (.arr (ds.map Document.toJson))

theorem stateText_eq (ds : List Document) : stateText ds = (stateValue ds).map Json.compact := by
  rcases ds with _ | ⟨d, _ | ⟨e, ds⟩⟩ <;> rfl

variable {F : Forest} {v : Json}

theorem stateValue_eq_some (hv : stateValue (F.map (Document.ofTree .internal)) = some v) :
    (∃ t, F = [t] ∧ v = Document.written .internal true t) ∨
      v = .arr (F.map (Document.written .internal true)) := by
  rcases F with _ | ⟨t, _ | ⟨u, F⟩⟩
  · cases hv
  · exact .inl ⟨t, rfl, (Option.some.inj hv).symm⟩
  · refine .inr ((Option.some.inj hv).symm.trans ?_)
    simp [Document.ofTree, Document.written]

theorem stateValue_eq_none (hv : stateValue (F.map (Document.ofTree .internal)) = none) :
    F = [] := by
  rcases F with _ | ⟨t, _ | ⟨u, F⟩⟩
  · rfl
  · cases hv
  · cases hv

theorem plain_stateValue (hF : ∀ t ∈ F, t.Storable true)
    (hv : stateValue (F.map (Document.ofTree .internal)) = some v) : Json.Plain v := by
  have hp : ∀ t ∈ F, Json.Plain (Document.written .internal true t) := fun t ht =>
    Document.plain_written (hF t ht).fields
  rcases stateValue_eq_some hv with ⟨t, rfl, rfl⟩ | rfl
  · exact hp t List.mem_cons_self
  · refine .arr fun v hv => ?_
    obtain ⟨t, ht, rfl⟩ := List.mem_map.1 hv
    exact hp t ht

/-- The value is not too deep for the reader if and only if no tree has more than 42 levels. -/
theorem depth_stateValue (hv : stateValue (F.map (Document.ofTree .internal)) = some v) :
    v.depth ≤ Json.depthLimit ↔ ∀ t ∈ F, t.height ≤ 42 := by
  have hlimit : Json.depthLimit = 127 := rfl
  rcases stateValue_eq_some hv with ⟨t, rfl, rfl⟩ | rfl
  · have := Document.depth_written .internal true t
    rw [List.forall_mem_singleton]
    omega
  · rw [← Nat.add_zero (Json.depth _), Json.depth_arr_add_le, List.forall_mem_map]
    constructor
    · rintro ⟨-, hd⟩ t ht
      have := hd t ht
      have := Document.depth_written .internal true t
      omega
    · intro hh
      refine ⟨by omega, fun t ht => ?_⟩
      have := hh t ht
      have := Document.depth_written .internal true t
      omega

theorem blocksOf_stateValue (hv : stateValue (F.map (Document.ofTree .internal)) = some v) :
    blocksOf v.sorted = F.map fun t => (Document.ofTree .internal t).toValue := by
  rcases stateValue_eq_some hv with ⟨t, rfl, rfl⟩ | rfl
  · have ho : ∃ members, (Document.written .internal true t).sorted = .obj members := by
      cases t with
      | leaf => exact ⟨_, by rw [Document.written_leaf, Document.sorted_node]⟩
      | group => exact ⟨_, by rw [Document.written_group, Document.sorted_node]⟩
    obtain ⟨members, hm⟩ := ho
    rw [hm, blocksOf, ← hm]
    · rfl
    · simp
  · rw [Json.sorted, Json.sortedItems_eq_map, List.map_map]
    rfl

theorem parseState_of_height_le (hs : ∀ t ∈ F, t.Storable true) (hl : Legal F)
    (hn : (ids F).Nodup) (hv : stateValue (F.map (Document.ofTree .internal)) = some v)
    (hh : ∀ t ∈ F, t.height ≤ 42) : ∃ w, parseState v.compact = .ok w ∧ Represents w F := by
  obtain ⟨w, hw, hF⟩ := Represents.empty.foldlM_toValue hs hl hn
  refine ⟨w, ?_, hF⟩
  rw [parseState, (plain_stateValue hs hv).parse_compact, if_pos ((depth_stateValue hv).2 hh)]
  change (blocksOf v.sorted).foldlM insertBlock .empty = .ok w
  rw [blocksOf_stateValue hv]
  exact hw

theorem parseState_of_lt_height (hs : ∀ t ∈ F, t.Storable true)
    (hv : stateValue (F.map (Document.ofTree .internal)) = some v)
    (hh : ∃ t ∈ F, 42 < t.height) :
    parseState v.compact = .error (.malformed .root .notJson) := by
  have hd : ¬ v.depth ≤ Json.depthLimit := fun hd => by
    obtain ⟨t, ht, hlt⟩ := hh
    exact absurd ((depth_stateValue hv).1 hd t ht) (by omega)
  rw [parseState, (plain_stateValue hs hv).parse_compact, if_neg hd]

section Store

variable {σ : Type} [Store σ] [ReliableStore σ] {w : Workspace}

/-- A store in which a session is found once it was saved. -/
structure Keeps {σ : Type} [Store σ] (s : σ) : Prop where
  labels (saved : Saved) :
    Store.get (save saved s) labelsKey = .ok (some saved.corpus.toJson.compact)
  state {w : Workspace} {ds : List Document} (h : w.toDocuments = .ok ds) (corpus : Corpus) :
    Store.get (save ⟨w, corpus⟩ s) stateKey = .ok (stateText ds)

theorem keeps (s : σ) : Keeps s where
  labels _ := ReliableStore.get_set ..
  state h corpus := by
    have hne : stateKey ≠ labelsKey := by decide
    rw [save, saveCorpus, ReliableStore.get_set_of_ne _ hne]
    simp only [saveWorkspace, h]
    cases stateText _ with
    | none => exact ReliableStore.get_remove ..
    | some text => exact ReliableStore.get_set ..

/-- A property of stores that keep sessions, however often they are saved. -/
structure Durable {σ : Type} [Store σ] (P : σ → Prop) : Prop where
  keeps {s : σ} (h : P s) : Keeps s
  save {s : σ} (h : P s) (saved : Saved) : P (save saved s)

theorem durable : Durable fun _ : σ => True where
  keeps _ := keeps _
  save _ _ := trivial

section Get

variable {τ : Type} [Store τ] {s : τ}

theorem saveWorkspace_cases {P : τ → Prop} (h : P s) (hr : P (Store.remove s stateKey).2)
    (hs : ∀ text, P (Store.set s stateKey text).2) (w : Workspace) : P (saveWorkspace w s) := by
  unfold saveWorkspace
  split
  · exact h
  split
  · exact hr
  · exact hs _

theorem loadCorpus_of_get {c : Corpus}
    (h : Store.get s labelsKey = .ok (some c.toJson.compact)) : loadCorpus s = c := by
  rw [loadCorpus, readText?, h]
  exact congrArg (·.getD .empty) c.parse_compact

theorem Keeps.loadCorpus_save (h : Keeps s) (saved : Saved) :
    loadCorpus (save saved s) = saved.corpus :=
  loadCorpus_of_get (h.labels saved)

theorem loadWorkspace_of_get_none (h : Store.get s stateKey = .ok none) :
    loadWorkspace s = .empty := by
  rw [loadWorkspace, readText?, h]

theorem loadWorkspace_of_get_some {text : String} (h : Store.get s stateKey = .ok (some text)) :
    loadWorkspace s = (parseState text).toOption.getD .empty := by
  rw [loadWorkspace, readText?, h]
  cases hp : parseState text <;> simp only [hp] <;> rfl

theorem loadWorkspace_of_height_le
    (h : Store.get s stateKey = .ok (stateText (F.map (Document.ofTree .internal))))
    (hs : ∀ t ∈ F, t.Storable true) (hl : Legal F) (hn : (ids F).Nodup)
    (hh : ∀ t ∈ F, t.height ≤ 42) : Represents (loadWorkspace s) F := by
  rw [stateText_eq] at h
  cases hv : stateValue (F.map (Document.ofTree .internal)) with
  | none =>
    rw [hv] at h
    obtain rfl : F = [] := stateValue_eq_none hv
    rw [loadWorkspace_of_get_none h]
    exact .empty
  | some v =>
    rw [hv] at h
    obtain ⟨w, hw, hF⟩ := parseState_of_height_le hs hl hn hv hh
    rw [loadWorkspace_of_get_some h, hw]
    exact hF

theorem loadWorkspace_of_lt_height
    (h : Store.get s stateKey = .ok (stateText (F.map (Document.ofTree .internal))))
    (hs : ∀ t ∈ F, t.Storable true) (hh : ∃ t ∈ F, 42 < t.height) :
    loadWorkspace s = .empty := by
  rw [stateText_eq] at h
  cases hv : stateValue (F.map (Document.ofTree .internal)) with
  | none =>
    rw [hv] at h
    exact loadWorkspace_of_get_none h
  | some v =>
    rw [hv] at h
    rw [loadWorkspace_of_get_some h, parseState_of_lt_height hs hv hh]
    rfl

end Get

/-- After saving, a session is loaded again if no tree has more than 42 levels. Otherwise no block
is loaded, but all labels are. -/
theorem load_save (h : w.Reachable) (hw : ∀ b ∈ w.blocks, ∀ l, b.rule = .leaf l → l.Valid)
    (corpus : Corpus) (s : σ) :
    ∃ F, w.forest = .ok F ∧
      Store.get (save ⟨w, corpus⟩ s) stateKey =
        .ok (stateText (F.map (Document.ofTree .internal))) ∧
      (load (save ⟨w, corpus⟩ s)).corpus = corpus ∧
      ((∀ t ∈ F, t.height ≤ 42) →
        (load (save ⟨w, corpus⟩ s)).workspace.topLevel = w.topLevel ∧
        ∀ id, (load (save ⟨w, corpus⟩ s)).workspace.find? id = w.find? id) ∧
      ((∃ t ∈ F, 42 < t.height) → (load (save ⟨w, corpus⟩ s)).workspace = .empty) := by
  obtain ⟨F, hF⟩ := h.represents
  have hget := (keeps s).state hF.toDocuments_eq corpus
  have hs : ∀ t ∈ F, t.Storable true := fun t ht => hF.storable hw ht
  refine ⟨F, hF.forest_eq, hget, (keeps s).loadCorpus_save _, fun hh => ?_, fun hh => ?_⟩
  · have hr := loadWorkspace_of_height_le hget hs hF.legal hF.nodup hh
    exact ⟨hr.topLevel.trans hF.topLevel.symm, hF.find?_eq hr⟩
  · exact loadWorkspace_of_lt_height hget hs hh

end Store

theorem load_save_restBelowSequence :
    let saved : Saved := ⟨.restBelowSequence, ⟨["101"]⟩⟩
    (load (save saved MemoryStore.empty)).corpus = saved.corpus ∧
      (load (save saved MemoryStore.empty)).workspace.topLevel = ["a"] := by
  have hrules : Workspace.restBelowSequence.blocks.map Block.rule =
      [.group .sequence, .leaf (.rest "room")] := by decide
  have hw : ∀ b ∈ Workspace.restBelowSequence.blocks, ∀ l, b.rule = .leaf l → l.Valid := by
    intro b hb l hl
    have hm : Rule.leaf l ∈ [Rule.group .sequence, .leaf (.rest "room")] := by
      rw [← hrules, ← hl]
      exact List.mem_map_of_mem hb
    obtain rfl : l = .rest "room" := by simpa using hm
    exact (by decide : "room" ≠ "")
  obtain ⟨F, hF, -, hc, hr, -⟩ := load_save .restBelowSequence hw ⟨["101"]⟩ MemoryStore.empty
  have hh : ∀ t ∈ F, t.height ≤ 42 := by
    obtain rfl := Except.ok.inj hF
    decide
  exact ⟨hc, (hr hh).1⟩

end Saved

end LabelGrammar
