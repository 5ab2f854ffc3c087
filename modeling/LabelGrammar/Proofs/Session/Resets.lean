import Mathlib.Data.List.Induction
import LabelGrammar.Proofs.Session.Answers
import LabelGrammar.Proofs.Session.Synchrony

/-! # Answers after a reset

A reset forgets the outcome but issues no number. The request that was issued last before it may
therefore still be answered, until another one is issued; no other earlier request may.
-/

namespace LabelGrammar.Editor

/-- An answer has the number of a request, and numbers are issued from 1 on. -/
def Call.Numbered : Call → Prop
  | .applyEvaluation number _ => 0 < number.value
  | _ => True

section Lists

variable {h : List Event} {n : RequestNumber} {o : Outcome}

theorem mem_of_shown (hs : shown h = some (n, o)) : .kept n o ∈ h := by
  induction h using List.reverseRecOn with
  | nil => cases hs
  | append_singleton h v ih =>
    rw [shown_concat] at hs
    rw [List.mem_append]
    cases v with
    | issued m => exact .inl (ih hs)
    | kept m p =>
      cases hs
      exact .inr List.mem_cons_self
    | forgotten => cases hs

theorem issued_append_forgotten (earlier since : List Event) :
    issued (earlier ++ .forgotten :: since) = issued earlier ++ issued since := issued_append

theorem shown_append_forgotten (earlier since : List Event) :
    shown (earlier ++ .forgotten :: since) = shown since := by
  rw [shown, List.foldl_append]
  rfl

end Lists

/-- The request that was issued last before a reset is answered after it, and before another one
is issued. -/
def AnsweredAcross (earlier since : List Event) : Prop :=
  ∃ vs n o vs', since = vs ++ .kept n o :: vs' ∧ issued vs = [] ∧
    (issued earlier).getLast? = some n

variable {σ : Type} [Store σ]

namespace Tracks

variable {h us vs vs' : List Event} {e e' : Editor σ} {n : RequestNumber} {o : Outcome}

omit [Store σ]

theorem value_of_kept (ht : Tracks h e) (hm : Moves e us e') (hu : us = vs ++ .kept n o :: vs') :
    n.value = (Editor.issued (h ++ vs)).length := by
  induction hm generalizing h vs vs' with
  | silent => simp at hu
  | issued => simp [List.singleton_eq_append_iff] at hu
  | kept hk =>
    obtain ⟨rfl, hu⟩ : vs = [] ∧ _ := by simpa [List.singleton_eq_append_iff] using hu
    obtain ⟨⟨rfl, rfl⟩, rfl⟩ := hu
    rw [hk, List.append_nil, ht.length_issued]
  | forgotten => simp [List.singleton_eq_append_iff] at hu
  | trans hm _ ih ih' =>
    rcases List.append_eq_append_iff.1 hu with ⟨ws, rfl, hw⟩ | ⟨ws, hv, hw⟩
    · rw [← List.append_assoc]
      exact ih' (ht.moves hm) hw
    · cases ws with
      | nil =>
        rw [List.append_nil] at hv
        have hn := ih' (ht.moves hm) (show _ = [] ++ .kept n o :: vs' from hw.symm)
        rwa [List.append_nil, hv] at hn
      | cons v ws =>
        obtain ⟨rfl, -⟩ := List.cons.inj hw
        exact ih ht hv

theorem getLast?_issued (ht : Tracks (h ++ vs) e) (hn : n.value = (Editor.issued h).length)
    (hp : 0 < n.value) : (Editor.issued h).getLast? = some n := by
  rcases List.eq_nil_or_concat' (Editor.issued h) with hnil | ⟨us, m, hl⟩
  · rw [hn, hnil] at hp
    cases hp
  · have hm : m.value = us.length + 1 := by
      refine ht.value_of_getElem? ?_
      rw [issued_append, hl]
      simp
    rw [hl, List.length_append, List.length_singleton] at hn
    rw [hl, List.getLast?_concat]
    cases m
    cases n
    simp_all

theorem kept_of_reset (ht : Tracks (h ++ [.forgotten]) e) (hm : Moves e us e')
    (hu : us = vs ++ .kept n o :: vs') (hp : 0 < n.value) :
    n ∈ Editor.issued vs ∨ Editor.issued vs = [] ∧ (Editor.issued h).getLast? = some n := by
  have hl : (Editor.issued (h ++ [.forgotten] ++ vs)).getLast? = some n := by
    have ht' := ht.moves hm
    rw [hu, ← List.append_assoc] at ht'
    exact ht'.getLast?_issued (ht.value_of_kept hm hu) hp
  rw [List.append_assoc, List.singleton_append, issued_append_forgotten, List.getLast?_append] at hl
  cases hv : (Editor.issued vs).getLast? with
  | none =>
    rw [hv, Option.none_or] at hl
    exact .inr ⟨List.getLast?_eq_none_iff.1 hv, hl⟩
  | some m =>
    rw [hv, Option.some_or] at hl
    cases hl
    exact .inl (List.mem_of_getLast? hv)

theorem keeps_iff_of_reset (ht : Tracks (h ++ .forgotten :: us) e)
    (hn : n ∈ Editor.issued h) : (e.applyEvaluation n o).1 = true ↔
      (Editor.issued h).getLast? = some n ∧ Editor.issued us = [] := by
  obtain ⟨i, hi⟩ := List.getElem?_of_mem hn
  obtain ⟨hlt, -⟩ := List.getElem?_eq_some_iff.1 hi
  have hv : n.value = i + 1 := by
    refine ht.value_of_getElem? ?_
    rw [issued_append_forgotten, List.getElem?_append_left hlt, hi]
  have hc := ht.length_issued
  rw [issued_append_forgotten, List.length_append] at hc
  rw [applyEvaluation_eq_true_iff, ← List.length_eq_zero_iff]
  constructor
  · intro hk
    have hl : (Editor.issued us).length = 0 := by omega
    exact ⟨ht.getLast?_issued (by omega) (by omega), hl⟩
  · rintro ⟨hl, h0⟩
    rw [List.getLast?_eq_getElem?] at hl
    have hv' : n.value = (Editor.issued h).length - 1 + 1 := by
      refine ht.value_of_getElem? ?_
      rw [issued_append_forgotten, List.getElem?_append_left (by omega), hl]
    omega

end Tracks

omit [Store σ] in
theorem eq_of_mem_answerEvents {e : Editor σ} {m n : RequestNumber} {o p : Outcome}
    (h : .kept n o ∈ e.answerEvents m p) : n = m := by
  unfold answerEvents at h
  split at h
  · cases List.mem_singleton.1 h
    rfl
  · cases h

theorem pos_of_kept (e : Editor σ) {calls : List Call} (hc : ∀ c ∈ calls, c.Numbered)
    {n : RequestNumber} {o : Outcome} (hk : .kept n o ∈ history e calls) : 0 < n.value := by
  induction calls generalizing e with
  | nil => cases hk
  | cons c calls ih =>
    rw [List.forall_mem_cons] at hc
    rcases List.mem_append.1 hk with hk | hk
    · cases c with
      | applyEvaluation number outcome =>
        rw [eq_of_mem_answerEvents hk]
        exact hc.1
      | evaluate transport policy s =>
        rcases e.prepareEvaluation_cases with ⟨error, h⟩ | ⟨request, h⟩
        · simp only [events, h] at hk
          cases hk
        · simp only [events, h] at hk
          rcases List.mem_cons.1 hk with hk | hk
          · cases hk
          · rw [eq_of_mem_answerEvents hk]
            exact Nat.succ_pos _
      | prepareEvaluation =>
        rcases e.prepareEvaluation_cases with ⟨error, h⟩ | ⟨request, h⟩
        · simp only [events, h] at hk
          cases hk
        · simp only [events, h] at hk
          cases List.mem_singleton.1 hk
      | reset => cases List.mem_singleton.1 hk
      | edit | setCorpus | loadGrammar | importPairs => cases hk
    · exact ih _ hc.2 hk

/-- What is left of the requests of a session after a reset. -/
structure Forgets (earlier since : List Event) (e : Editor σ) : Prop where
  /-- Answers are kept to requests issued since the reset, and to the last one before it as long
  as no other is issued. -/
  kept {vs vs' : List Event} {n : RequestNumber} {o : Outcome} :
    since = vs ++ .kept n o :: vs' →
      n ∈ issued vs ∨ issued vs = [] ∧ (issued earlier).getLast? = some n
  keeps_iff {n : RequestNumber} (o : Outcome) : n ∈ issued earlier →
    ((e.applyEvaluation n o).1 = true ↔
      (issued earlier).getLast? = some n ∧ issued since = [])
  dropped {n : RequestNumber} {o : Outcome} : ¬ AnsweredAcross earlier since →
    n ∈ issued earlier → .kept n o ∉ since
  outcome {o : Outcome} : ¬ AnsweredAcross earlier since → e.outcome = some o →
    ∃ n ∈ issued since, .kept n o ∈ since

/-- A reset leaves no outcome, and of the requests issued before it only the last one may still be
answered, before another one is issued. -/
theorem forgets_of_reset (store : σ) (before after : List Call) (ha : ∀ c ∈ after, c.Numbered) :
    let e := ((opened store).run before).reset
    let since := history e after
    e.outcome = none ∧ Forgets (history (opened store) before) since (e.run after) := by
  intro e since
  have hb := (tracks_run store before).moves (moves_after _ .reset)
  have hm := moves_run e after
  have ht : Tracks (history (opened store) before ++ .forgotten :: since) (e.run after) := by
    rw [← List.singleton_append, ← List.append_assoc]
    exact hb.moves hm
  have hkept {vs vs' : List Event} {n : RequestNumber} {o : Outcome}
      (hs : since = vs ++ .kept n o :: vs') : n ∈ issued vs ∨
        issued vs = [] ∧ (issued (history (opened store) before)).getLast? = some n :=
    hb.kept_of_reset hm hs (pos_of_kept e ha (show .kept n o ∈ since by simp [hs]))
  refine ⟨rfl, ?_⟩
  constructor
  case kept => exact hkept
  case keeps_iff => exact fun o hn => ht.keeps_iff_of_reset hn
  case dropped =>
    intro n o hn hi hk
    obtain ⟨vs, vs', hs⟩ := List.append_of_mem hk
    rcases hkept hs with hv | ⟨hv, hl⟩
    · have hlt := (consistent_of_tracks ht).issued_lt
      rw [issued_append_forgotten, List.pairwise_append] at hlt
      have hv' : n ∈ issued since := by
        rw [hs, issued_append]
        exact List.mem_append_left _ hv
      exact Nat.lt_irrefl _ (hlt.2.2 n hi n hv')
    · exact hn ⟨vs, n, o, vs', hs, hv, hl⟩
  case outcome =>
    intro o hn ho
    rw [ht.outcome, shown_append_forgotten, Option.map_eq_some_iff] at ho
    obtain ⟨⟨n, _⟩, hsh, rfl⟩ := ho
    have hk := mem_of_shown hsh
    obtain ⟨vs, vs', hs⟩ := List.append_of_mem hk
    rcases hkept hs with hv | ⟨hv, hl⟩
    · refine ⟨n, ?_, hk⟩
      rw [hs, issued_append]
      exact List.mem_append_left _ hv
    · exact absurd ⟨vs, n, _, vs', hs, hv, hl⟩ hn

/-- The answer to a request that was pending at a reset brings an outcome back. -/
theorem outcome_after_reset :
    let earlier : List Call := [.edit addRoot, .prepareEvaluation]
    let e := ((opened MemoryStore.empty).run earlier).reset
    issued (history (opened MemoryStore.empty) earlier) = [⟨1⟩] ∧ e.outcome = none ∧
      history e [.applyEvaluation ⟨1⟩ (.ok [])] = [.kept ⟨1⟩ (.ok [])] ∧
      (e.run [.applyEvaluation ⟨1⟩ (.ok [])]).outcome = some (.ok []) :=
  ⟨rfl, rfl, rfl, rfl⟩

/-- Once another request is issued, the one that was pending is not answered any more. -/
theorem forgets_of_reset_reissued :
    let earlier : List Call := [.edit addRoot, .prepareEvaluation]
    let late : List Call := [.edit addRoot, .prepareEvaluation, .applyEvaluation ⟨1⟩ (.ok []),
      .applyEvaluation ⟨2⟩ (.error (.rejected "down"))]
    let e := ((opened MemoryStore.empty).run earlier).reset
    history e late = [.issued ⟨2⟩, .kept ⟨2⟩ (.error (.rejected "down"))] ∧
      ¬ AnsweredAcross (history (opened MemoryStore.empty) earlier) (history e late) ∧
      e.outcome = none ∧
      Forgets (history (opened MemoryStore.empty) earlier) (history e late) (e.run late) := by
  refine ⟨rfl, ?_, forgets_of_reset _ _ _ ?_⟩
  · rintro ⟨_ | ⟨v, vs⟩, n, o, vs', hs, hv, -⟩
    · cases hs
    · obtain ⟨rfl, -⟩ := List.cons.inj hs
      cases hv
  · intro c hc
    simp only [List.mem_cons, List.not_mem_nil, or_false] at hc
    rcases hc with rfl | rfl | rfl | rfl
    · trivial
    · trivial
    · exact Nat.one_pos
    · exact Nat.two_pos

end LabelGrammar.Editor
