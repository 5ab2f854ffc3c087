import LabelGrammar.Proofs.Session.Calls
import LabelGrammar.Store.Memory

/-! # Late answers

Requests are answered in any order, once, twice or never. The history of a session says which
numbers were issued and which answers were kept; the outcome that is shown follows from it.
-/

namespace LabelGrammar.Editor

/-- What a call does to the numbers and the outcome of a session. -/
inductive Event where
  | issued (number : RequestNumber)
  | kept (number : RequestNumber) (outcome : Outcome)
  | forgotten

def Event.issued? : Event → Option RequestNumber
  | .issued number => some number
  | _ => none

def Event.shows (shown : Option (RequestNumber × Outcome)) :
    Event → Option (RequestNumber × Outcome)
  | .issued _ => shown
  | .kept number outcome => some (number, outcome)
  | .forgotten => none

def issued (h : List Event) : List RequestNumber := h.filterMap Event.issued?

/-- The last answer that was kept, unless it was forgotten since. -/
def shown (h : List Event) : Option (RequestNumber × Outcome) := h.foldl Event.shows none

section Lists

variable {h vs : List Event}

theorem issued_append : issued (h ++ vs) = issued h ++ issued vs := List.filterMap_append

theorem shown_concat {v : Event} : shown (h ++ [v]) = v.shows (shown h) := by
  rw [shown, List.foldl_append]
  rfl

end Lists

variable {σ : Type} [Store σ]

def answerEvents (e : Editor σ) (number : RequestNumber) (outcome : Outcome) : List Event :=
  if (e.applyEvaluation number outcome).1 then [.kept number outcome] else []

/-- The events of a call. Other calls than these leave numbers and outcome alone. -/
def events (e : Editor σ) : Call → List Event
  | .reset => [.forgotten]
  | .prepareEvaluation =>
    match e.prepareEvaluation.1 with
    | .ok pending => [.issued pending.number]
    | .error _ => []
  | .applyEvaluation number outcome => e.answerEvents number outcome
  | .evaluate transport policy s =>
    match e.prepareEvaluation with
    | (.ok pending, e) => .issued pending.number ::
        e.answerEvents pending.number (transport.send policy pending.request s).1
    | (.error _, _) => []
  | _ => []

def history (e : Editor σ) : List Call → List Event
  | [] => []
  | c :: calls => e.events c ++ history (e.after c) calls

inductive Moves : Editor σ → List Event → Editor σ → Prop where
  | silent {e e' : Editor σ} :
      e'.numbering = e.numbering → e'.outcome = e.outcome → Moves e [] e'
  | issued {e e' : Editor σ} : e'.numbering = ⟨e.numbering.count + 1⟩ → e'.outcome = e.outcome →
      Moves e [.issued ⟨e.numbering.count + 1⟩] e'
  | kept {e e' : Editor σ} {number : RequestNumber} {outcome : Outcome} :
      number.value = e.numbering.count → e'.numbering = e.numbering →
      e'.outcome = some outcome → Moves e [.kept number outcome] e'
  | forgotten {e e' : Editor σ} :
      e'.numbering = e.numbering → e'.outcome = none → Moves e [.forgotten] e'
  | trans {e e' e'' : Editor σ} {vs vs' : List Event} :
      Moves e vs e' → Moves e' vs' e'' → Moves e (vs ++ vs') e''

omit [Store σ] in
theorem moves_applyEvaluation (e : Editor σ) (number : RequestNumber) (outcome : Outcome) :
    Moves e (e.answerEvents number outcome) (e.applyEvaluation number outcome).2 := by
  unfold answerEvents
  rcases e.applyEvaluation_cases number outcome with ⟨hn, h⟩ | ⟨-, h⟩
  · rw [h, if_pos rfl]
    exact .kept hn rfl rfl
  · rw [h, if_neg (by simp)]
    exact .silent rfl rfl

theorem moves_prepareEvaluation (e : Editor σ) :
    Moves e (e.events .prepareEvaluation) e.prepareEvaluation.2 := by
  unfold events
  rcases e.prepareEvaluation_cases with ⟨error, h⟩ | ⟨request, h⟩
  · rw [h]
    exact .silent rfl rfl
  · rw [h]
    exact .issued rfl rfl

theorem moves_after (e : Editor σ) (c : Call) : Moves e (e.events c) (e.after c) := by
  cases c with
  | edit action =>
    change Moves e [] (e.edit action).2
    rcases e.edit_cases action with ⟨_, -, h⟩ | ⟨_, h⟩
    all_goals
      rw [h]
      exact .silent rfl rfl
  | setCorpus corpus => exact .silent rfl rfl
  | loadGrammar text =>
    change Moves e [] (e.loadGrammar text).2
    rcases e.loadGrammar_cases text with ⟨_, h⟩ | ⟨_, -, -, h⟩
    all_goals
      rw [h]
      exact .silent rfl rfl
  | importPairs pairs place flavor offers =>
    change Moves e [] (e.importPairs pairs place flavor offers).2
    rcases e.importPairs_cases pairs place flavor offers with ⟨_, h⟩ | ⟨_, -, h⟩
    all_goals
      rw [h]
      exact .silent rfl rfl
  | reset => exact .forgotten rfl rfl
  | prepareEvaluation => exact e.moves_prepareEvaluation
  | applyEvaluation number outcome => exact e.moves_applyEvaluation number outcome
  | evaluate transport policy s =>
    have hp := e.moves_prepareEvaluation
    rw [after]
    unfold events at hp ⊢
    rcases e.evaluate_cases transport policy s with ⟨error, h, hr⟩ | ⟨pending, h, hr⟩
    · rw [hr]
      simp only [h]
      exact .silent rfl rfl
    · rw [hr]
      simp only [h] at hp ⊢
      exact .trans hp (moves_applyEvaluation _ _ _)

theorem moves_run (e : Editor σ) (calls : List Call) : Moves e (history e calls) (e.run calls) := by
  induction calls generalizing e with
  | nil => exact .silent rfl rfl
  | cons c calls ih => exact .trans (e.moves_after c) (ih (e.after c))

/-- A history fits a session: the numbers are those up to the count, the outcome is that of the
answer that is shown, and no answer gives way to an older one. -/
structure Tracks (h : List Event) (e : Editor σ) : Prop where
  issued : (issued h).map RequestNumber.value = List.range' 1 e.numbering.count
  outcome : e.outcome = (shown h).map Prod.snd
  shown_le {h₁ : List Event} {m : RequestNumber} {o : Outcome} : h₁ <+: h →
    shown h₁ = some (m, o) → m.value ≤ e.numbering.count
  shown_mono {h₁ : List Event} {m n : RequestNumber} {o p : Outcome} : h₁ <+: h →
    shown h₁ = some (m, o) → shown h = some (n, p) → m.value ≤ n.value

namespace Tracks

variable {h : List Event} {e e' : Editor σ}

omit [Store σ]

theorem silent (ht : Tracks h e) (hn : e'.numbering = e.numbering) (ho : e'.outcome = e.outcome) :
    Tracks h e' where
  issued := by rw [hn, ht.issued]
  outcome := by rw [ho, ht.outcome]
  shown_le := by rw [hn]; exact ht.shown_le
  shown_mono := ht.shown_mono

theorem issue (ht : Tracks h e) (hn : e'.numbering = ⟨e.numbering.count + 1⟩)
    (ho : e'.outcome = e.outcome) : Tracks (h ++ [.issued ⟨e.numbering.count + 1⟩]) e' where
  issued := by
    rw [issued_append, List.map_append, ht.issued, hn, List.range'_1_concat, Nat.add_comm 1]
    rfl
  outcome := by rw [ho, ht.outcome, shown_concat, Event.shows]
  shown_le hp hm := by
    rw [hn]
    rcases List.prefix_concat_iff.1 hp with rfl | hp
    · rw [shown_concat, Event.shows] at hm
      exact Nat.le_succ_of_le (ht.shown_le List.prefix_rfl hm)
    · exact Nat.le_succ_of_le (ht.shown_le hp hm)
  shown_mono hp hm hl := by
    rw [shown_concat, Event.shows] at hl
    rcases List.prefix_concat_iff.1 hp with rfl | hp
    · rw [shown_concat, Event.shows] at hm
      exact ht.shown_mono List.prefix_rfl hm hl
    · exact ht.shown_mono hp hm hl

theorem keep {number : RequestNumber} {outcome : Outcome} (ht : Tracks h e)
    (hk : number.value = e.numbering.count) (hn : e'.numbering = e.numbering)
    (ho : e'.outcome = some outcome) : Tracks (h ++ [.kept number outcome]) e' := by
  have hs : shown (h ++ [.kept number outcome]) = some (number, outcome) := shown_concat
  have hle {h₁ : List Event} {m : RequestNumber} {o : Outcome}
      (hp : h₁ <+: h ++ [.kept number outcome]) (hm : shown h₁ = some (m, o)) :
      m.value ≤ e.numbering.count := by
    rcases List.prefix_concat_iff.1 hp with rfl | hp
    · obtain ⟨rfl, -⟩ := Prod.mk.inj (Option.some.inj (hs.symm.trans hm))
      exact Nat.le_of_eq hk
    · exact ht.shown_le hp hm
  constructor
  case issued => rw [issued_append, List.map_append, ht.issued, hn]; exact List.append_nil _
  case outcome => rw [ho, hs]; rfl
  case shown_le => rw [hn]; exact hle
  case shown_mono =>
    intro h₁ m n o p hp hm hl
    obtain ⟨rfl, -⟩ := Prod.mk.inj (Option.some.inj (hs.symm.trans hl))
    rw [hk]
    exact hle hp hm

theorem forget (ht : Tracks h e) (hn : e'.numbering = e.numbering) (ho : e'.outcome = none) :
    Tracks (h ++ [.forgotten]) e' := by
  have hs : shown (h ++ [.forgotten]) = none := shown_concat
  constructor
  case issued => rw [issued_append, List.map_append, ht.issued, hn]; exact List.append_nil _
  case outcome => rw [ho, hs]; rfl
  case shown_le =>
    intro h₁ m o hp hm
    rw [hn]
    rcases List.prefix_concat_iff.1 hp with rfl | hp
    · cases hs.symm.trans hm
    · exact ht.shown_le hp hm
  case shown_mono =>
    intro h₁ m n o p hp hm hl
    cases hs.symm.trans hl

theorem moves {vs : List Event} (ht : Tracks h e) (hm : Moves e vs e') : Tracks (h ++ vs) e' := by
  induction hm generalizing h with
  | silent hn ho => rw [List.append_nil]; exact ht.silent hn ho
  | issued hn ho => exact ht.issue hn ho
  | kept hk hn ho => exact ht.keep hk hn ho
  | forgotten hn ho => exact ht.forget hn ho
  | trans _ _ ih ih' => rw [← List.append_assoc]; exact ih' (ih ht)

theorem length_issued (ht : Tracks h e) : (Editor.issued h).length = e.numbering.count := by
  have hl := congrArg List.length ht.issued
  rwa [List.length_map, List.length_range'] at hl

theorem value_of_getElem? {i : Nat} {n : RequestNumber} (ht : Tracks h e)
    (hi : (Editor.issued h)[i]? = some n) : n.value = i + 1 := by
  have hv : ((Editor.issued h).map RequestNumber.value)[i]? = some n.value := by
    rw [List.getElem?_map, hi]
    rfl
  rw [ht.issued] at hv
  obtain ⟨_, hv⟩ := List.getElem?_eq_some_iff.1 hv
  rw [List.getElem_range'] at hv
  omega

theorem value_of_issued {before after : List Event} {n : RequestNumber}
    (ht : Tracks (before ++ .issued n :: after) e) :
    n.value = (Editor.issued before).length + 1 := by
  refine ht.value_of_getElem? ?_
  rw [issued_append, List.getElem?_append_right (Nat.le_refl _), Nat.sub_self]
  rfl

end Tracks

theorem tracks_run (store : σ) (calls : List Call) :
    Tracks (history (.opened store) calls) (run (.opened store) calls) := by
  have ho : Tracks [] (opened store) := by
    constructor
    case issued => rfl
    case outcome => rfl
    case shown_le =>
      intro h₁ m o hp hm
      obtain rfl := List.prefix_nil.1 hp
      cases hm
    case shown_mono =>
      intro h₁ m n o p hp hm hl
      cases hl
  exact ho.moves (moves_run _ calls)

/-- What the history of a session says about the answers to its requests. -/
structure Consistent (h : List Event) (e : Editor σ) : Prop where
  issued_lt : (issued h).Pairwise fun m n => m.value < n.value
  issued_le : ∀ n ∈ issued h, n.value ≤ (issued h).length
  refused {error : EvaluationError} : e.prepareEvaluation.1 = .error error →
    e.prepareEvaluation.2 = e
  /-- The answer to a request is kept unless a later one was issued. -/
  kept_iff {before after : List Event} {n : RequestNumber} (outcome : Outcome) :
    h = before ++ .issued n :: after →
    ((e.applyEvaluation n outcome).1 = true ↔ issued after = [])
  dropped {n : RequestNumber} {outcome : Outcome} : (e.applyEvaluation n outcome).1 = false →
    (e.applyEvaluation n outcome).2 = e
  outcome : e.outcome = (shown h).map Prod.snd
  shown_mono {h₁ : List Event} {m n : RequestNumber} {o p : Outcome} : h₁ <+: h →
    shown h₁ = some (m, o) → shown h = some (n, p) → m.value ≤ n.value

theorem consistent_of_tracks {h : List Event} {e : Editor σ} (ht : Tracks h e) :
    Consistent h e := by
  constructor
  case issued_lt =>
    have hp : ((issued h).map RequestNumber.value).Pairwise (· < ·) := by
      rw [ht.issued]
      exact List.pairwise_lt_range'
    exact List.pairwise_map.1 hp
  case issued_le =>
    intro n hn
    have hm := List.mem_map_of_mem (f := RequestNumber.value) hn
    rw [ht.issued, List.mem_range'_1] at hm
    rw [ht.length_issued]
    omega
  case refused =>
    intro error hr
    rcases e.prepareEvaluation_cases with ⟨_, h⟩ | ⟨_, h⟩
    · rw [h]
    · rw [h] at hr
      cases hr
  case kept_iff =>
    rintro before after n outcome rfl
    have hn := ht.value_of_issued
    have hl : (issued before).length + ((issued after).length + 1) = e.numbering.count := by
      rw [← ht.length_issued, issued_append, List.length_append]
      rfl
    rw [applyEvaluation_eq_true_iff, ← List.length_eq_zero_iff]
    omega
  case dropped =>
    intro n outcome hr
    rcases e.applyEvaluation_cases n outcome with ⟨-, h⟩ | ⟨-, h⟩
    · rw [h] at hr
      cases hr
    · rw [h]
  case outcome => exact ht.outcome
  case shown_mono => exact ht.shown_mono

/-- Whatever calls came in whatever order, the session is consistent with their history. -/
theorem consistent_run (store : σ) (calls : List Call) :
    Consistent (history (.opened store) calls) (run (.opened store) calls) :=
  consistent_of_tracks (tracks_run store calls)

example : history (opened MemoryStore.empty)
    [.edit (Workspace.addBlock (.group .sequence) none ["a"]), .prepareEvaluation,
      .prepareEvaluation, .applyEvaluation ⟨1⟩ (.ok []), .applyEvaluation ⟨2⟩ (.ok []),
      .applyEvaluation ⟨1⟩ (.error (.rejected "late"))] =
    [.issued ⟨1⟩, .issued ⟨2⟩, .kept ⟨2⟩ (.ok [])] := rfl

end LabelGrammar.Editor
