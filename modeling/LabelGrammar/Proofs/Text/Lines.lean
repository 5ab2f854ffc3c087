import Mathlib.Data.List.DropRight
import LabelGrammar.Text.Blank
import LabelGrammar.Text.Lines

/-! # Lines, cells and trimming

The lines of a text are what its line feeds separate, up to a carriage return at the end of each
line and up to an empty last line. The cells of a line are what its commas separate. Blanks around a
text without blanks at its ends are trimmed and nothing else.
-/

namespace LabelGrammar.Text

variable {p : Char → Bool} {c : Char} {cs ds line : List Char}

theorem exists_dropEnd_append (p : Char → Bool) (cs : List Char) :
    ∃ ds, cs = dropEnd p cs ++ ds ∧ ∀ d ∈ ds, p d = true :=
  ⟨cs.rtakeWhile p, (List.rdropWhile_append_rtakeWhile ..).symm, fun _ => List.mem_rtakeWhile_imp⟩

theorem dropEnd_append_cons (hc : p c = false) :
    dropEnd p (cs ++ c :: ds) = cs ++ c :: dropEnd p ds := by
  rw [dropEnd, dropEnd, List.reverse_append, List.reverse_cons, List.append_assoc,
    List.dropWhile_append]
  split
  · next hd =>
    rw [List.isEmpty_iff.1 hd, List.singleton_append, List.dropWhile_cons_of_neg (by simp [hc]),
      List.reverse_cons, List.reverse_reverse, List.reverse_nil]
  · rw [List.reverse_append, List.reverse_append, List.reverse_reverse, List.append_assoc]
    rfl

theorem mem_dropEnd_iff (hc : p c = false) : c ∈ dropEnd p cs ↔ c ∈ cs := by
  obtain ⟨ds, hd, hp⟩ := exists_dropEnd_append p cs
  have hn : c ∉ ds := fun hm => by
    rw [hp c hm] at hc
    cases hc
  conv_rhs => rw [hd, List.mem_append, or_iff_left hn]

theorem trim_eq_nil_iff : trim cs = [] ↔ ∀ c ∈ cs, isBlank c = true := by
  rw [trim, dropEnd, List.reverse_eq_nil_iff, List.dropWhile_eq_nil_iff]
  simp only [List.mem_reverse]
  rw [← List.dropWhile_eq_nil_iff, List.dropWhile_idempotent, List.dropWhile_eq_nil_iff]

theorem trim_append_of_all (h : ∀ d ∈ ds, isBlank d = true) : trim (cs ++ ds) = trim cs := by
  rw [trim, trim, List.dropWhile_append]
  split
  · next hc =>
    rw [List.isEmpty_iff.1 hc, List.dropWhile_eq_nil_iff.2 h]
  · exact dropEnd_append_of_all _ _ h

theorem trim_append_of_all_left (h : ∀ d ∈ ds, isBlank d = true) : trim (ds ++ cs) = trim cs := by
  rw [trim, List.dropWhile_append_of_pos h, trim]

theorem trim_dropEnd (h : ∀ c, p c = true → isBlank c = true) (cs : List Char) :
    trim (dropEnd p cs) = trim cs := by
  obtain ⟨ds, hd, hp⟩ := exists_dropEnd_append p cs
  conv_rhs => rw [hd, trim_append_of_all fun d hm => h d (hp d hm)]

/-- A text has no blank at its ends. -/
structure Trimmed (cs : List Char) : Prop where
  head {c : Char} : cs.head? = some c → isBlank c = false
  last {c : Char} : cs.getLast? = some c → isBlank c = false

theorem Trimmed.trim_eq (h : Trimmed cs) : trim cs = cs := by
  have hd : cs.dropWhile isBlank = cs := by
    cases cs with
    | nil => rfl
    | cons c cs => exact List.dropWhile_cons_of_neg (by simp [h.head rfl])
  rw [trim, hd]
  refine List.rdropWhile_eq_self_iff.2 fun hne => ?_
  rw [h.last (List.getLast?_eq_getLast_of_ne_nil hne)]
  exact Bool.false_ne_true

theorem trimmed_trim (cs : List Char) : Trimmed (trim cs) where
  head {c} hc := by
    obtain ⟨ds, hd, -⟩ := exists_dropEnd_append isBlank (cs.dropWhile isBlank)
    have hh : (cs.dropWhile isBlank).head? = some c := by
      rw [hd, List.head?_append, ← trim, hc]
      rfl
    simpa [hh] using List.head?_dropWhile_not isBlank cs
  last {c} hc := by
    obtain ⟨hne, rfl⟩ := List.mem_getLast?_eq_getLast hc
    exact Bool.eq_false_iff.2 (List.rdropWhile_last_not _ (cs.dropWhile isBlank) hne)

theorem exists_append_trim_append (cs : List Char) :
    ∃ before after, cs = before ++ trim cs ++ after ∧
      (∀ c ∈ before, isBlank c = true) ∧ ∀ c ∈ after, isBlank c = true := by
  obtain ⟨after, ha, hp⟩ := exists_dropEnd_append isBlank (cs.dropWhile isBlank)
  refine ⟨cs.takeWhile isBlank, after, ?_, fun c hc => List.mem_takeWhile_imp hc, hp⟩
  rw [List.append_assoc, trim, ← ha, List.takeWhile_append_dropWhile]

theorem cells_eq_splitOn (cs : List Char) : cells cs = cs.splitOn ',' := by
  induction cs with
  | nil => rfl
  | cons c cs ih =>
    rw [List.splitOn_cons_eq_if_modifyHead, ← ih]
    split
    · next hc =>
      obtain rfl : c = ',' := by simpa using hc
      rfl
    · next hc =>
      rw [cells]
      · cases hcs : cells cs with
        | nil => exact (List.splitOn_ne_nil _ _ (ih.symm.trans hcs)).elim
        | cons cell others => rfl
      · rintro rfl
        exact hc rfl

/-- Along the lines of a text, the last of which has no line feed. -/
@[elab_as_elim]
theorem lines_induction {motive : List Char → Prop}
    (last : ∀ line, '\n' ∉ line → motive line)
    (next : ∀ line cs, '\n' ∉ line → motive cs → motive (line ++ '\n' :: cs)) (cs : List Char) :
    motive cs := by
  induction hn : cs.length using Nat.strong_induction_on generalizing cs with
  | _ n ih =>
    by_cases hm : '\n' ∈ cs
    · obtain ⟨line, ds, rfl, hl⟩ := List.eq_append_cons_of_mem hm
      refine next line ds hl (ih _ ?_ ds rfl)
      simp only [List.length_append, List.length_cons] at hn
      omega
    · exact last cs hm

theorem lines_cons (hn : c ≠ '\n') (hr : c = '\r' → cs.head? ≠ some '\n') :
    lines (c :: cs) = (c :: (lines cs).headD []) :: (lines cs).tail := by
  rw [lines]
  · cases lines cs <;> rfl
  · exact hn
  · rintro ds rfl rfl
    exact hr rfl rfl

/-- A line ends before its line feed or before a carriage return in front of it. -/
theorem lines_append (h : '\n' ∉ line) (cs : List Char) :
    ∃ content, lines (line ++ '\n' :: cs) = content :: lines cs ∧
      (line = content ∨ line = content ++ ['\r']) := by
  induction line with
  | nil => exact ⟨[], rfl, .inl rfl⟩
  | cons c line ih =>
    rw [List.mem_cons, not_or] at h
    obtain ⟨content, hl, he⟩ := ih h.2
    -- Only the last carriage return in front of the line feed belongs to the line end.
    by_cases hr : c = '\r' ∧ line = []
    · obtain ⟨rfl, rfl⟩ := hr
      exact ⟨[], rfl, .inr rfl⟩
    · refine ⟨c :: content, ?_, ?_⟩
      · rw [List.cons_append, lines_cons (Ne.symm h.1) fun hc hd => ?_, hl]
        · rfl
        cases line with
        | nil => exact hr ⟨hc, rfl⟩
        | cons d line => exact h.2 (Option.some.inj hd ▸ List.mem_cons_self)
      · rcases he with rfl | rfl
        · exact .inl rfl
        · exact .inr rfl

theorem lines_of_not_mem (h : '\n' ∉ line) (hne : line ≠ []) : lines line = [line] := by
  induction line with
  | nil => exact absurd rfl hne
  | cons c line ih =>
    rw [List.mem_cons, not_or] at h
    rw [lines_cons (Ne.symm h.1) fun _ hd => h.2 (List.mem_of_mem_head? hd)]
    cases line with
    | nil => rfl
    | cons d line => rw [ih h.2 (List.cons_ne_nil d line)]; rfl

def withReturns (cs : List Char) : List Char :=
  cs.flatMap fun c => if c = '\n' then ['\r', '\n'] else [c]

theorem withReturns_of_not_mem (h : '\n' ∉ line) : withReturns line = line := by
  have hc : ∀ c ∈ line, (if c = '\n' then ['\r', '\n'] else [c]) = [c] := fun c hm =>
    if_neg fun (he : c = '\n') => h (he ▸ hm)
  rw [withReturns, List.flatMap_congr hc, ← List.map_eq_flatMap, List.map_id']

theorem withReturns_append (h : '\n' ∉ line) (cs : List Char) :
    withReturns (line ++ '\n' :: cs) = (line ++ ['\r']) ++ '\n' :: withReturns cs := by
  rw [withReturns, List.flatMap_append, ← withReturns, withReturns_of_not_mem h, List.append_assoc]
  rfl

end LabelGrammar.Text
