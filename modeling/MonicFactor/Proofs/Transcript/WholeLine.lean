import MonicFactor.Proofs.Transcript.LastOccurrence
import MonicFactor.Proofs.Transcript.NormalForm

/-! Whole lines of a text: what stands between two line ends, or between a line end and an end of
the text. A text that is cut at the start of a line is split into lines on either side. -/

namespace MonicFactor

/-- A line may start behind this text. -/
def EndsLine (before : List Char) : Prop := before = [] ∨ before.getLast? = some '\n'

/-- A line with what is in front of it and what is behind its line end, if it has one. A carriage
return in front of the newline is part of the line end. -/
structure IsLineOf (text before line after : List Char) : Prop where
  starts : EndsLine before
  oneLine : '\n' ∉ line
  ends : (text = before ++ line ∧ after = []) ∨
    ∃ e : LineEnd, text = before ++ (line ++ (e.text ++ after)) ∧
      (e = .newline → line.getLast? ≠ some '\r')

theorem getLast?_append_newline (line : List Char) {before : List Char} (h : before ≠ []) :
    (line ++ '\n' :: before).getLast? = before.getLast? := by
  rw [List.getLast?_append, List.getLast?_cons_of_ne_nil h, List.getLast?_eq_some_getLast h,
    Option.some_or]

theorem endsLine_append_newline (line : List Char) {before : List Char} (h : EndsLine before) :
    EndsLine (line ++ '\n' :: before) := by
  right
  rcases h with rfl | h
  · simp
  · have hne : before ≠ [] := by
      rintro rfl
      simp at h
    rw [getLast?_append_newline line hne, h]

theorem EndsLine.of_append_newline {line before : List Char}
    (h : EndsLine (line ++ '\n' :: before)) : EndsLine before := by
  rcases h with h | h
  · simp at h
  · by_cases hne : before = []
    · exact .inl hne
    · right
      rw [← getLast?_append_newline line hne, h]

theorem EndsLine.eq_nil {before : List Char} (h : EndsLine before) (hn : '\n' ∉ before) :
    before = [] := by
  rcases h with h | h
  · exact h
  · exact absurd (List.mem_of_getLast? h) hn

theorem Line.split_append {before : List Char} (h : EndsLine before) (rest : List Char) :
    split (before ++ rest) = split before ++ split rest := by
  induction before using lines_induction with
  | last line hl =>
    rw [h.eq_nil hl]
    rfl
  | ended line before hl ih =>
    have hrest : (line ++ '\n' :: before) ++ rest = line ++ '\n' :: (before ++ rest) := by simp
    rw [hrest, split_ended hl, split_ended hl, ih h.of_append_newline, List.cons_append]

theorem not_mem_afterLast (c : Char) (cs : List Char) : c ∉ afterLast c cs := by
  intro h
  rw [afterLast, List.mem_reverse] at h
  have hb := List.all_eq_true.mp List.all_takeWhile c h
  simp at hb

theorem exists_append_afterLast (text : List Char) :
    ∃ before, EndsLine before ∧ before ++ afterLast '\n' text = text := by
  refine ⟨(text.reverse.dropWhile (· != '\n')).reverse, ?_, ?_⟩
  · have hh := List.head?_dropWhile_not (· != '\n') text.reverse
    rw [EndsLine, List.getLast?_reverse]
    cases hd : text.reverse.dropWhile (· != '\n') with
    | nil => exact .inl rfl
    | cons c cs =>
      rw [hd] at hh
      right
      simpa using hh
  · rw [afterLast, ← List.reverse_append, List.takeWhile_append_dropWhile, List.reverse_reverse]

/-- A newline takes the carriage return in front of it along as its line end. -/
theorem exists_lineEnd (line rest : List Char) :
    ∃ e : LineEnd, line ++ '\n' :: rest = withoutReturn line ++ (e.text ++ rest) ∧
      (e = .newline → (withoutReturn line).getLast? ≠ some '\r') := by
  by_cases h : line.getLast? = some '\r'
  · obtain ⟨front, rfl⟩ := List.getLast?_eq_some_iff.mp h
    refine ⟨.returnNewline, ?_, fun he => by cases he⟩
    rw [withoutReturn, if_pos h, List.dropLast_concat]
    simp [LineEnd.text]
  · rw [withoutReturn, if_neg h]
    exact ⟨.newline, rfl, fun _ => h⟩

theorem isLineOf_last {line : List Char} (h : '\n' ∉ line) : IsLineOf line [] line [] where
  starts := .inl rfl
  oneLine := h
  ends := .inl ⟨rfl, rfl⟩

theorem isLineOf_ended {line : List Char} (h : '\n' ∉ line) (rest : List Char) :
    IsLineOf (line ++ '\n' :: rest) [] (withoutReturn line) rest where
  starts := .inl rfl
  oneLine := not_mem_withoutReturn h
  ends := .inr (exists_lineEnd line rest)

theorem IsLineOf.append {text before line after : List Char} (h : IsLineOf text before line after)
    (front : List Char) :
    IsLineOf (front ++ '\n' :: text) (front ++ '\n' :: before) line after where
  starts := endsLine_append_newline front h.starts
  oneLine := h.oneLine
  ends := by
    rcases h.ends with ⟨rfl, rfl⟩ | ⟨e, rfl, he⟩
    · exact .inl ⟨by simp, rfl⟩
    · exact .inr ⟨e, by simp, he⟩

end MonicFactor
