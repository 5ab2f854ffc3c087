import LabelGrammar.Proofs.Text.Lines
import LabelGrammar.Session.Table

/-! # What tables are read as

A table is read line by line, and neither the carriage returns at the end of a line nor an empty
last line matter. So a table gives back the rows that were written, and is refused for its first
line that has something on it but no comma.
-/

namespace LabelGrammar.Table

open Text

def Space (cs : List Char) : Prop := ∀ c ∈ cs, isBlank c = true ∧ c ≠ '\n'

/-- A text that can be written into a cell. -/
structure IsCell (s : String) : Prop where
  comma : ',' ∉ s.toList
  lineFeed : '\n' ∉ s.toList
  trimmed : Trimmed s.toList

/-- The lines that spell a row, and those that spell none. -/
inductive Spells : Option Pair → List Char → Prop where
  | blank {line : List Char} : Space line → Spells none line
  | row {pattern typeName : String} {before after before' after' : List Char}
      {columns : List (List Char)} : IsCell pattern → IsCell typeName → Space before → Space after →
      Space before' → Space after' → (∀ column ∈ columns, '\n' ∉ column) →
      Spells (some (pattern, typeName)) (before ++ pattern.toList ++ after ++ ',' ::
        (before' ++ typeName.toList ++ after' ++ columns.flatMap fun column => ',' :: column))

/-- The texts that spell rows, line after line. The last line may have no end, or be empty. -/
inductive Written : List Pair → List Char → Prop where
  | last {row : Option Pair} {line : List Char} : Spells row line → Written row.toList line
  | next {row : Option Pair} {pairs : List Pair} {line lineEnd cs : List Char} : Spells row line →
      lineEnd = ['\n'] ∨ lineEnd = ['\r', '\n'] → Written pairs cs →
      Written (row.toList ++ pairs) (line ++ lineEnd ++ cs)

/-- A line has something on it but no comma. -/
def Malformed (line : List Char) : Prop := (∃ c ∈ line, isBlank c = false) ∧ ',' ∉ line

/-- A table is read as the rows that it spells, and refused for its first malformed line, whichever
way its lines end. -/
structure ReadAsSpelled (text : String) : Prop where
  written {pairs : List Pair} : Written pairs text.toList → parse text = .ok pairs
  refused_iff : (∃ e, parse text = .error e) ↔ ∃ line ∈ text.toList.splitOn '\n', Malformed line
  refused (e : ImportError) : parse text = .error e ↔
    ∃ before line after, text.toList.splitOn '\n' = before ++ line :: after ∧
      (∀ l ∈ before, ¬ Malformed l) ∧ Malformed line ∧
      e = .malformedRow (before.length + 1) (String.ofList (line.rdropWhile (· == '\r')))
  returns : parse (String.ofList (withReturns text.toList)) = parse text

variable {line cs : List Char} {row : Option Pair} {pairs : List Pair} {e : ImportError}

theorem readLines_cons_of_ok {number : Nat} (h : readLine number line = .ok row)
    (ls : List (List Char)) :
    readLines number (line :: ls) = (readLines (number + 1) ls).map (row.toList ++ ·) := by
  rw [readLines, h]
  cases readLines (number + 1) ls <;> rfl

theorem readLines_cons_of_error {number : Nat} (h : readLine number line = .error e)
    (ls : List (List Char)) : readLines number (line :: ls) = .error e := by
  rw [readLines, h]
  rfl

theorem readLine_append_return (number : Nat) (line : List Char) :
    readLine number (line ++ ['\r']) = readLine number line := by
  rw [readLine, readLine, dropEnd_append_of_all _ _ (by simp)]

theorem readLines_lines (number : Nat) (cs : List Char) :
    readLines number (lines cs) = readLines number (cs.splitOn '\n') := by
  induction cs using lines_induction generalizing number with
  | last line h =>
    rw [List.splitOn_eq_singleton h]
    by_cases hne : line = []
    · rw [hne]
      rfl
    · rw [lines_of_not_mem h hne]
  | next line cs h ih =>
    obtain ⟨content, hl, he⟩ := lines_append h cs
    have hc : readLine number content = readLine number line := by
      rcases he with rfl | rfl
      · rfl
      · exact (readLine_append_return number content).symm
    rw [hl, List.splitOn_append_cons_self_of_not_mem h, readLines, readLines, hc, ih]

theorem parse_eq (text : String) : parse text = readLines 1 (text.toList.splitOn '\n') :=
  readLines_lines 1 text.toList

section Cells

variable {s : String} {before after cell : List Char}

theorem Space.blank (h : Space cs) : ∀ c ∈ cs, isBlank c = true := fun c hc => (h c hc).1

theorem IsCell.trim_eq (h : IsCell s) (hb : Space before) (ha : Space after) :
    trim (before ++ s.toList ++ after) = s.toList := by
  rw [trim_append_of_all ha.blank, trim_append_of_all_left hb.blank, h.trimmed.trim_eq]

theorem IsCell.comma_not_mem (h : IsCell s) (hb : Space before) (ha : Space after) :
    ',' ∉ before ++ s.toList ++ after := by
  have hn {cs : List Char} (hs : Space cs) : ',' ∉ cs := fun hm => nomatch (hs ',' hm).1
  simp [hn hb, hn ha, h.comma]

theorem IsCell.lineFeed_not_mem (h : IsCell s) (hb : Space before) (ha : Space after) :
    '\n' ∉ before ++ s.toList ++ after := by
  have hn {cs : List Char} (hs : Space cs) : '\n' ∉ cs := fun hm => (hs '\n' hm).2 rfl
  simp [hn hb, hn ha, h.lineFeed]

theorem trim_dropReturn (line : List Char) : trim (dropEnd (· == '\r') line) = trim line :=
  trim_dropEnd (fun c (hc : (c == '\r') = true) => by rw [beq_iff_eq.1 hc]; rfl) line

theorem isEmpty_trim_dropReturn :
    (trim (dropEnd (· == '\r') line)).isEmpty = true ↔ ∀ c ∈ line, isBlank c = true := by
  rw [trim_dropReturn, List.isEmpty_iff, trim_eq_nil_iff]

theorem readLine_of_blank (h : ∀ c ∈ line, isBlank c = true) (number : Nat) :
    readLine number line = .ok none := by
  rw [readLine, if_pos (isEmpty_trim_dropReturn.2 h)]

/-- A line with a comma is read as its first two cells. -/
theorem readLine_append_comma (h : ',' ∉ cell) (number : Nat) (cs : List Char) :
    ∃ cell' others, cells (dropEnd (· == '\r') cs) = cell' :: others ∧
      readLine number (cell ++ ',' :: cs) =
        .ok (some (String.ofList (trim cell), String.ofList (trim cell'))) := by
  have hb : ¬ (trim (dropEnd (· == '\r') (cell ++ ',' :: cs))).isEmpty = true := fun he =>
    nomatch isEmpty_trim_dropReturn.1 he ',' (by simp)
  cases hc : cells (dropEnd (· == '\r') cs) with
  | nil => exact (List.splitOn_ne_nil _ _ ((cells_eq_splitOn _).symm.trans hc)).elim
  | cons cell' others =>
    refine ⟨cell', others, rfl, ?_⟩
    rw [readLine, if_neg hb, dropEnd_append_cons rfl, cells_eq_splitOn,
      List.splitOn_append_cons_self_of_not_mem h, ← cells_eq_splitOn, hc]

end Cells

theorem readLine_of_spells (h : Spells row line) (number : Nat) :
    readLine number line = .ok row := by
  cases h with
  | blank hs => exact readLine_of_blank hs.blank number
  | @row pattern typeName before after before' after' columns hp ht hb ha hb' ha' hc =>
    obtain ⟨cell', others, hcells, hr⟩ := readLine_append_comma (hp.comma_not_mem hb ha) number
      (before' ++ typeName.toList ++ after' ++ columns.flatMap fun column => ',' :: column)
    have hn := ht.comma_not_mem hb' ha'
    have hcell : trim cell' = typeName.toList := by
      rw [cells_eq_splitOn] at hcells
      cases columns with
      | nil =>
        rw [List.flatMap_nil, List.append_nil,
          List.splitOn_eq_singleton (mt (mem_dropEnd_iff rfl).1 hn)] at hcells
        rw [← (List.cons.inj hcells).1, trim_dropReturn, ht.trim_eq hb' ha']
      | cons column columns =>
        rw [List.flatMap_cons, List.cons_append, dropEnd_append_cons rfl,
          List.splitOn_append_cons_self_of_not_mem hn] at hcells
        rw [← (List.cons.inj hcells).1, ht.trim_eq hb' ha']
    rw [hr, hp.trim_eq hb ha, hcell, String.ofList_toList, String.ofList_toList]

theorem Spells.not_mem (h : Spells row line) : '\n' ∉ line := by
  cases h with
  | blank hs => exact fun hm => (hs '\n' hm).2 rfl
  | row hp ht hb ha hb' ha' hc =>
    have hp := hp.lineFeed_not_mem hb ha
    have ht := ht.lineFeed_not_mem hb' ha'
    simp only [List.mem_append, List.mem_cons, List.mem_flatMap] at hp ht ⊢
    rintro (hm | hm | hm | ⟨column, hcol, hm | hm⟩)
    · exact hp hm
    · cases hm
    · exact ht hm
    · cases hm
    · exact hc column hcol hm

/-- Any rows can be written, if their texts can be written into cells. -/
theorem written_lines (h : ∀ pair ∈ pairs, IsCell pair.1 ∧ IsCell pair.2) :
    Written pairs (pairs.flatMap fun pair => pair.1.toList ++ ',' :: pair.2.toList ++ ['\n']) := by
  have hs : Space [] := List.forall_mem_nil _
  induction pairs with
  | nil => exact .last (.blank hs)
  | cons pair pairs ih =>
    rw [List.forall_mem_cons] at h
    have hrow := Spells.row h.1.1 h.1.2 hs hs hs hs (List.forall_mem_nil _)
    have hw := Written.next hrow (.inl rfl) (ih h.2)
    simpa using hw

theorem readLines_of_written (h : Written pairs cs) (number : Nat) :
    readLines number (cs.splitOn '\n') = .ok pairs := by
  induction h generalizing number with
  | @last row line hs =>
    rw [List.splitOn_eq_singleton hs.not_mem, readLines_cons_of_ok (readLine_of_spells hs number)]
    exact congrArg Except.ok (List.append_nil row.toList)
  | @next row pairs line lineEnd cs hs he _ ih =>
    have hr := readLine_of_spells hs number
    rcases he with rfl | rfl
    · rw [List.append_assoc, List.singleton_append,
        List.splitOn_append_cons_self_of_not_mem hs.not_mem, readLines_cons_of_ok hr, ih]
      rfl
    · have hn : '\n' ∉ line ++ ['\r'] := by simpa using hs.not_mem
      have hl : line ++ ['\r', '\n'] ++ cs = (line ++ ['\r']) ++ '\n' :: cs := by simp
      rw [← readLine_append_return] at hr
      rw [hl, List.splitOn_append_cons_self_of_not_mem hn, readLines_cons_of_ok hr, ih]
      rfl

theorem readLine_cases (number : Nat) (line : List Char) :
    (¬ Malformed line ∧ ∃ row, readLine number line = .ok row) ∨
      Malformed line ∧ readLine number line =
        .error (.malformedRow number (String.ofList (line.rdropWhile (· == '\r')))) := by
  by_cases hb : ∀ c ∈ line, isBlank c = true
  · refine .inl ⟨?_, none, readLine_of_blank hb number⟩
    rintro ⟨⟨c, hc, hn⟩, -⟩
    rw [hb c hc] at hn
    cases hn
  by_cases hm : ',' ∈ line
  · obtain ⟨cell, cs, rfl, hn⟩ := List.eq_append_cons_of_mem hm
    obtain ⟨cell', -, -, hr⟩ := readLine_append_comma hn number cs
    exact .inl ⟨fun h => h.2 hm, _, hr⟩
  · have hn : ',' ∉ dropEnd (· == '\r') line := mt (mem_dropEnd_iff rfl).1 hm
    refine .inr ⟨⟨by simpa using hb, hm⟩, ?_⟩
    rw [readLine, if_neg (mt isEmpty_trim_dropReturn.1 hb), cells_eq_splitOn,
      List.splitOn_eq_singleton hn]
    rfl

theorem readLines_eq_error_iff (number : Nat) (ls : List (List Char)) :
    readLines number ls = .error e ↔ ∃ before line after, ls = before ++ line :: after ∧
      (∀ l ∈ before, ¬ Malformed l) ∧ Malformed line ∧
      e = .malformedRow (before.length + number) (String.ofList (line.rdropWhile (· == '\r'))) := by
  induction ls generalizing number with
  | nil =>
    refine iff_of_false nofun ?_
    rintro ⟨before, line, after, hl, -⟩
    cases before <;> cases hl
  | cons l ls ih =>
    rcases readLine_cases number l with ⟨hn, row, hr⟩ | ⟨hm, hr⟩
    · have hls : readLines number (l :: ls) = .error e ↔ readLines (number + 1) ls = .error e := by
        rw [readLines_cons_of_ok hr]
        cases readLines (number + 1) ls <;> simp [Except.map]
      rw [hls, ih]
      constructor
      · rintro ⟨before, line, after, rfl, hb, hm, rfl⟩
        refine ⟨l :: before, line, after, rfl, List.forall_mem_cons.2 ⟨hn, hb⟩, hm, ?_⟩
        rw [List.length_cons, Nat.add_right_comm, Nat.add_assoc]
      · rintro ⟨_ | ⟨l', before⟩, line, after, hl, hb, hm, rfl⟩
        · obtain ⟨rfl, -⟩ := List.cons.inj hl
          exact (hn hm).elim
        · obtain ⟨rfl, rfl⟩ := List.cons.inj hl
          refine ⟨before, line, after, rfl, (List.forall_mem_cons.1 hb).2, hm, ?_⟩
          rw [List.length_cons, Nat.add_right_comm, Nat.add_assoc]
    · rw [readLines_cons_of_error hr]
      constructor
      · intro he
        obtain rfl := Except.error.inj he
        exact ⟨[], l, ls, rfl, List.forall_mem_nil _, hm, by rw [List.length_nil, Nat.zero_add]⟩
      · rintro ⟨_ | ⟨l', before⟩, line, after, hl, hb, -, rfl⟩
        · obtain ⟨rfl, -⟩ := List.cons.inj hl
          rw [List.length_nil, Nat.zero_add]
        · obtain ⟨rfl, -⟩ := List.cons.inj hl
          exact (hb l List.mem_cons_self hm).elim

theorem not_malformed_of_readLines {number : Nat} {ls : List (List Char)}
    (h : readLines number ls = .ok pairs) : ∀ line ∈ ls, ¬ Malformed line := by
  induction ls generalizing number pairs with
  | nil => exact List.forall_mem_nil _
  | cons l ls ih =>
    rcases readLine_cases number l with ⟨hn, row, hr⟩ | ⟨-, hr⟩
    · rw [readLines_cons_of_ok hr] at h
      cases hls : readLines (number + 1) ls with
      | error e => rw [hls] at h; cases h
      | ok pairs => exact List.forall_mem_cons.2 ⟨hn, ih hls⟩
    · rw [readLines_cons_of_error hr] at h
      cases h

theorem readLines_withReturns (number : Nat) (cs : List Char) :
    readLines number ((withReturns cs).splitOn '\n') = readLines number (cs.splitOn '\n') := by
  induction cs using lines_induction generalizing number with
  | last line h => rw [withReturns_of_not_mem h]
  | next line cs h ih =>
    have hr : '\n' ∉ line ++ ['\r'] := by simpa using h
    rw [withReturns_append h, List.splitOn_append_cons_self_of_not_mem hr,
      List.splitOn_append_cons_self_of_not_mem h, readLines, readLines, readLine_append_return, ih]

/-- Every text is read as the rows that it spells. -/
theorem readAsSpelled (text : String) : ReadAsSpelled text := by
  constructor
  case written =>
    intro pairs h
    rw [parse_eq]
    exact readLines_of_written h 1
  case refused_iff =>
    rw [parse_eq]
    constructor
    · rintro ⟨e, he⟩
      obtain ⟨before, line, after, hl, -, hm, -⟩ := (readLines_eq_error_iff 1 _).1 he
      exact ⟨line, hl ▸ List.mem_append_right before List.mem_cons_self, hm⟩
    · rintro ⟨line, hl, hm⟩
      cases hr : readLines 1 (text.toList.splitOn '\n') with
      | error e => exact ⟨e, rfl⟩
      | ok pairs => exact (not_malformed_of_readLines hr line hl hm).elim
  case refused =>
    intro e
    rw [parse_eq]
    exact readLines_eq_error_iff 1 _
  case returns =>
    rw [parse_eq, parse_eq, String.toList_ofList]
    exact readLines_withReturns 1 text.toList

example : parse " AHU ,unit,\r\n\t\r\nVAV,box \r" = .ok [("AHU", "unit"), ("VAV", "box")] := by
  decide

example : parse "AHU,unit\n\nVAV\r\nroom" = .error (.malformedRow 3 "VAV") := by decide

end LabelGrammar.Table
