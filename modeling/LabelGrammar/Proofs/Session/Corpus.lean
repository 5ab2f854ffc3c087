import LabelGrammar.Proofs.Session.Table
import LabelGrammar.Session.Corpus

/-! # What corpus texts are read as

Every line with something on it is read as a label. The blanks around a label, the blank lines and
the way in which lines end leave no trace, so the labels are in a normal form, and any labels in
that form are read back from every text that spells them.
-/

namespace LabelGrammar.Corpus

open Text
open Table (Space)

/-- A text that can stand on a line of its own without losing anything. -/
structure IsLabel (s : String) : Prop where
  ne_empty : s ≠ ""
  trimmed : Trimmed s.toList
  lineFeed : '\n' ∉ s.toList

/-- The lines that spell a label, and those that spell none. -/
inductive Spells : Option String → List Char → Prop where
  | blank {line : List Char} : Space line → Spells none line
  | label {s : String} {before after : List Char} : IsLabel s → Space before → Space after →
      Spells (some s) (before ++ s.toList ++ after)

/-- The texts that spell labels, line after line. The last line may have no end, or be empty. -/
inductive Written : List String → List Char → Prop where
  | last {label : Option String} {line : List Char} : Spells label line →
      Written label.toList line
  | next {label : Option String} {labels : List String} {line lineEnd cs : List Char} :
      Spells label line → lineEnd = ['\n'] ∨ lineEnd = ['\r', '\n'] → Written labels cs →
      Written (label.toList ++ labels) (line ++ lineEnd ++ cs)

/-- A text is read as the labels that it spells. They are in a normal form, and whichever way lines
end, neither joining the labels again nor changing the ends in the text makes a difference. -/
structure ReadToNormalForm (text : String) : Prop where
  isLabel {s : String} : s ∈ (ofLines text).labels → IsLabel s
  joined {lineEnd : String} : lineEnd = "\n" ∨ lineEnd = "\r\n" →
    ofLines (lineEnd.intercalate (ofLines text).labels) = ofLines text
  written_iff {labels : List String} : Written labels text.toList ↔ ofLines text = ⟨labels⟩
  returns : ofLines (String.ofList (withReturns text.toList)) = ofLines text

/-- The label on a line. -/
def label? (line : List Char) : Option String :=
  if trim line = [] then none else some (String.ofList (trim line))

variable {s : String} {label : Option String} {labels : List String} {line cs : List Char}

theorem label?_append_return (line : List Char) : label? (line ++ ['\r']) = label? line := by
  rw [label?, label?, trim_append_of_all (by simp [isBlank])]

theorem label?_of_spells (h : Spells label line) : label? line = label := by
  cases h with
  | blank hs => exact if_pos (trim_eq_nil_iff.2 hs.blank)
  | label hl hb ha =>
    have ht := (trim_append_of_all ha.blank).trans
      ((trim_append_of_all_left hb.blank).trans hl.trimmed.trim_eq)
    rw [label?, ht, String.ofList_toList, if_neg (by simpa using hl.ne_empty)]

theorem spells_label? (h : '\n' ∉ line) : Spells (label? line) line := by
  have hs {cs : List Char} (hb : ∀ c ∈ cs, isBlank c = true) (hc : cs ⊆ line) : Space cs :=
    fun c hm => ⟨hb c hm, fun he => h (hc (he ▸ hm))⟩
  by_cases ht : trim line = []
  · rw [label?, if_pos ht]
    exact .blank (hs (trim_eq_nil_iff.1 ht) (List.Subset.refl _))
  · obtain ⟨before, after, hl, hb, ha⟩ := exists_append_trim_append line
    have hsub : (before ⊆ line ∧ trim line ⊆ line) ∧ after ⊆ line := by
      rw [← List.append_subset, ← List.append_subset, ← hl]
      exact List.Subset.refl line
    have hlabel : IsLabel (String.ofList (trim line)) := by
      refine ⟨fun he => ht ?_, ?_, fun hm => h (hsub.1.2 ?_)⟩
      · simpa using congrArg String.toList he
      · simpa using trimmed_trim line
      · simpa using hm
    have hspells := Spells.label hlabel (hs hb hsub.1.1) (hs ha hsub.2)
    rw [label?, if_neg ht]
    rwa [String.toList_ofList, ← hl] at hspells

theorem Spells.not_mem (h : Spells label line) : '\n' ∉ line := by
  have hn {cs : List Char} (hs : Space cs) : '\n' ∉ cs := fun hm => (hs '\n' hm).2 rfl
  cases h with
  | blank hs => exact hn hs
  | label hl hb ha => simp [hn hb, hn ha, hl.lineFeed]

theorem Spells.isLabel (h : Spells (some s) line) : IsLabel s := by
  cases h with
  | label hl _ _ => exact hl

theorem Spells.append_return (h : Spells label line) : Spells label (line ++ ['\r']) := by
  have hr : Space ['\r'] := by simp [Space, isBlank]
  cases h with
  | blank hs => exact .blank (List.forall_mem_append.2 ⟨hs, hr⟩)
  | label hl hb ha =>
    rw [List.append_assoc]
    exact .label hl hb (List.forall_mem_append.2 ⟨ha, hr⟩)

theorem filterMap_label?_lines (cs : List Char) :
    (lines cs).filterMap label? = (cs.splitOn '\n').filterMap label? := by
  induction cs using lines_induction with
  | last line h =>
    rw [List.splitOn_eq_singleton h]
    by_cases hne : line = []
    · rw [hne]
      rfl
    · rw [lines_of_not_mem h hne]
  | next line cs h ih =>
    obtain ⟨content, hc, he⟩ := lines_append h cs
    have hl : label? content = label? line := by
      rcases he with rfl | rfl
      · rfl
      · exact (label?_append_return content).symm
    rw [hc, List.splitOn_append_cons_self_of_not_mem h, List.filterMap_cons, List.filterMap_cons,
      hl, ih]

theorem ofLines_eq (text : String) :
    ofLines text = ⟨(text.toList.splitOn '\n').filterMap label?⟩ := by
  have hl (ls : List (List Char)) :
      ((ls.map trim).filter (! ·.isEmpty)).map String.ofList = ls.filterMap label? := by
    induction ls with
    | nil => rfl
    | cons line ls ih => by_cases ht : trim line = [] <;> simp [label?, ht, ih]
  rw [ofLines, hl, filterMap_label?_lines]

theorem filterMap_label?_cons (h : Spells label line) (ls : List (List Char)) :
    (line :: ls).filterMap label? = label.toList ++ ls.filterMap label? := by
  rw [List.filterMap_cons, label?_of_spells h]
  cases label <;> rfl

theorem labels_of_written (h : Written labels cs) :
    (cs.splitOn '\n').filterMap label? = labels := by
  induction h with
  | @last label line hs =>
    rw [List.splitOn_eq_singleton hs.not_mem, filterMap_label?_cons hs]
    exact List.append_nil label.toList
  | @next label labels line lineEnd cs hs he _ ih =>
    have hl {line : List Char} (hs : Spells label line) :
        ((line ++ '\n' :: cs).splitOn '\n').filterMap label? = label.toList ++ labels := by
      rw [List.splitOn_append_cons_self_of_not_mem hs.not_mem, filterMap_label?_cons hs, ih]
    rcases he with rfl | rfl
    · simpa using hl hs
    · simpa using hl hs.append_return

theorem written_splitOn (cs : List Char) : Written ((cs.splitOn '\n').filterMap label?) cs := by
  induction cs using lines_induction with
  | last line h =>
    have hs := spells_label? h
    rw [List.splitOn_eq_singleton h, filterMap_label?_cons hs, List.filterMap_nil, List.append_nil]
    exact .last hs
  | next line cs h ih =>
    have hs := spells_label? h
    have hw := Written.next hs (.inl rfl) ih
    rwa [List.append_assoc, List.singleton_append, ← filterMap_label?_cons hs,
      ← List.splitOn_append_cons_self_of_not_mem h] at hw

theorem Written.isLabel (h : Written labels cs) : ∀ s ∈ labels, IsLabel s := by
  have hl {label : Option String} {line : List Char} (hs : Spells label line) :
      ∀ s ∈ label.toList, IsLabel s := by
    rintro s hm
    obtain rfl := Option.mem_toList.1 hm
    exact hs.isLabel
  induction h with
  | last hs => exact hl hs
  | next hs _ _ ih => exact List.forall_mem_append.2 ⟨hl hs, ih⟩

/-- Any labels are written by joining them. -/
theorem written_intercalate (h : ∀ s ∈ labels, IsLabel s) {lineEnd : String}
    (he : lineEnd = "\n" ∨ lineEnd = "\r\n") :
    Written labels (lineEnd.intercalate labels).toList := by
  have hn : Space [] := List.forall_mem_nil _
  have hs {s : String} (hl : IsLabel s) : Spells (some s) s.toList := by
    simpa using Spells.label hl hn hn
  have he : lineEnd.toList = ['\n'] ∨ lineEnd.toList = ['\r', '\n'] := by
    rcases he with rfl | rfl
    · exact .inl rfl
    · exact .inr rfl
  induction labels with
  | nil => exact .last (.blank hn)
  | cons s labels ih =>
    rw [List.forall_mem_cons] at h
    cases labels with
    | nil => simpa using Written.last (hs h.1)
    | cons t labels =>
      rw [String.intercalate_cons_of_ne_nil (List.cons_ne_nil t labels), String.toList_append,
        String.toList_append]
      exact .next (hs h.1) he (ih h.2)

theorem written_iff (text : String) :
    Written labels text.toList ↔ ofLines text = ⟨labels⟩ := by
  rw [ofLines_eq, mk.injEq]
  refine ⟨labels_of_written, ?_⟩
  rintro rfl
  exact written_splitOn text.toList

theorem filterMap_label?_withReturns (cs : List Char) :
    ((withReturns cs).splitOn '\n').filterMap label? = (cs.splitOn '\n').filterMap label? := by
  induction cs using lines_induction with
  | last line h => rw [withReturns_of_not_mem h]
  | next line cs h ih =>
    have hr : '\n' ∉ line ++ ['\r'] := by simpa using h
    rw [withReturns_append h, List.splitOn_append_cons_self_of_not_mem hr,
      List.splitOn_append_cons_self_of_not_mem h, List.filterMap_cons, List.filterMap_cons,
      label?_append_return, ih]

/-- Every text is read to the normal form of the labels that it spells. -/
theorem readToNormalForm (text : String) : ReadToNormalForm text := by
  have hw : Written (ofLines text).labels text.toList := (written_iff text).2 rfl
  constructor
  case isLabel => exact fun hm => hw.isLabel _ hm
  case joined =>
    intro lineEnd he
    exact (written_iff _).1 (written_intercalate hw.isLabel he)
  case written_iff => exact written_iff text
  case returns =>
    rw [ofLines_eq, ofLines_eq, String.toList_ofList, filterMap_label?_withReturns]

example : (ofLines " A\rB\r\n\u2003\n\tAHU 1\nA\rB\r").labels = ["A\rB", "AHU 1", "A\rB"] := by
  decide

end LabelGrammar.Corpus
