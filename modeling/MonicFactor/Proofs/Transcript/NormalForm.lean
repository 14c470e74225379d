import MonicFactor.Proofs.Transcript.Lines
import MonicFactor.Text.Markup

/-! What a trace says on a page: its characters, without the carriage returns that belong to line
ends, and one mark for each divider. -/

namespace MonicFactor

inductive Glyph
  | char (c : Char)
  | divider
deriving DecidableEq, Repr

def IsDivider (line : List Char) : Prop := 10 ≤ line.length ∧ ∀ c ∈ line, c = '='

instance (line : List Char) : Decidable (IsDivider line) := inferInstanceAs (Decidable (_ ∧ _))

def withoutReturn (line : List Char) : List Char :=
  if line.getLast? = some '\r' then line.dropLast else line

/-- The newline of a divider goes with it. -/
def glyphs (ended : Bool) (line : List Char) : List Glyph :=
  if IsDivider line then [.divider]
  else line.map .char ++ if ended then [.char '\n'] else []

/-- All lines but the last one end with a newline, which takes a carriage return before it along. -/
def normalForm (text : List Char) : List Glyph :=
  let lines := text.splitOn '\n'
  lines.dropLast.flatMap (fun line => glyphs true (withoutReturn line)) ++
    glyphs false (lines.getLast?.getD [])

/-- A text is one line, or a line with its newline in front of another text. -/
theorem lines_induction {P : List Char → Prop} (last : ∀ line, '\n' ∉ line → P line)
    (ended : ∀ line rest, '\n' ∉ line → P rest → P (line ++ '\n' :: rest)) (text : List Char) :
    P text := by
  have hh (text : List Char) : ∀ front, '\n' ∉ front → P (front ++ text) := by
    induction text with
    | nil =>
      intro front hf
      rw [List.append_nil]
      exact last front hf
    | cons c text ih =>
      intro front hf
      by_cases hc : c = '\n'
      · rw [hc]
        exact ended front text hf (ih [] List.not_mem_nil)
      · rw [List.append_cons]
        refine ih (front ++ [c]) ?_
        simp [hf, Ne.symm hc]
  exact hh text [] List.not_mem_nil

theorem normalForm_last {line : List Char} (h : '\n' ∉ line) :
    normalForm line = glyphs false line := by
  rw [normalForm, List.splitOn_eq_singleton h]
  rfl

theorem normalForm_ended {line : List Char} (h : '\n' ∉ line) (rest : List Char) :
    normalForm (line ++ '\n' :: rest) = glyphs true (withoutReturn line) ++ normalForm rest := by
  have hne : rest.splitOn '\n' ≠ [] := List.splitOn_ne_nil _ _
  simp only [normalForm, List.splitOn_append_cons_self_of_not_mem h,
    List.dropLast_cons_of_ne_nil hne, List.flatMap_cons, List.append_assoc]
  rw [List.getLast?_cons_of_ne_nil hne]

def Line.glyphs (line : Line) : List Glyph := MonicFactor.glyphs line.ended line.content

theorem isDivider_iff (line : Line) : line.isDivider = true ↔ IsDivider line.content := by
  simp [Line.isDivider, IsDivider]

theorem reverse_dropReturn_reverse (line : List Char) :
    (dropReturn line.reverse).reverse = withoutReturn line := by
  by_cases h : line.getLast? = some '\r'
  · obtain ⟨front, rfl⟩ := List.getLast?_eq_some_iff.mp h
    rw [withoutReturn, if_pos h, List.reverse_concat, dropReturn, List.reverse_reverse,
      List.dropLast_concat]
  · rw [withoutReturn, if_neg h, dropReturn_of_ne (by rwa [List.head?_reverse]),
      List.reverse_reverse]

theorem not_mem_withoutReturn {line : List Char} (h : '\n' ∉ line) : '\n' ∉ withoutReturn line := by
  unfold withoutReturn
  split
  · exact fun hm => h (List.dropLast_subset _ hm)
  · exact h

theorem Line.split_ended {line : List Char} (h : '\n' ∉ line) (rest : List Char) :
    split (line ++ '\n' :: rest) = ⟨withoutReturn line, true⟩ :: split rest := by
  have hs := split_append_end h .newline rest
  rw [reverse_dropReturn_reverse] at hs
  exact hs

theorem normalForm_eq (text : List Char) :
    normalForm text = (Line.split text).flatMap Line.glyphs := by
  induction text using lines_induction with
  | last line h =>
    rw [normalForm_last h]
    by_cases hne : line = []
    · rw [hne]
      rfl
    · rw [Line.split_unended h hne, List.flatMap_singleton]
      rfl
  | ended line rest h ih =>
    rw [normalForm_ended h, ih, Line.split_ended h, List.flatMap_cons, Line.glyphs]

end MonicFactor
