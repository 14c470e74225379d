import MonicFactor.Text.Markup

/-! Pages as lists of lexemes: marks, which are tags and entities, and plain characters. A mark
is found in the text of a page only where it stands among the lexemes. -/

namespace MonicFactor

/-- The tags of a page, and behind them its entities. -/
inductive Mark
  | html
  | endHtml
  | heading
  | endHeading
  | bold
  | endBold
  | lineBreak
  | rule
  | amp
  | lt
  | gt
  | quot
  | nbsp
deriving DecidableEq, Repr

def Mark.isTag : Mark → Bool
  | amp | lt | gt | quot | nbsp => false
  | _ => true

def Mark.name : Mark → List Char
  | html => "html style=\"font-family: Courier New; font-size:12\"".toList
  | endHtml => "/html".toList
  | heading => "h2".toList
  | endHeading => "/h2".toList
  | bold => "b".toList
  | endBold => "/b".toList
  | lineBreak => "br".toList
  | rule => "hr".toList
  | amp => "amp".toList
  | lt => "lt".toList
  | gt => "gt".toList
  | quot => "quot".toList
  | nbsp => "nbsp".toList

def Mark.first (m : Mark) : Char := if m.isTag then '<' else '&'

def Mark.last (m : Mark) : Char := if m.isTag then '>' else ';'

def Mark.text (m : Mark) : List Char := m.first :: (m.name ++ [m.last])

theorem Mark.name_unmarked (m : Mark) : '<' ∉ m.name ∧ '>' ∉ m.name ∧ '&' ∉ m.name := by
  cases m <;> decide

theorem Mark.first_not_mem (m m' : Mark) : m.first ∉ m'.name ++ [m'.last] := by
  have hne : m.first ≠ m'.last := by
    unfold first last
    split <;> split <;> decide
  rw [List.mem_append, List.mem_singleton, not_or]
  refine ⟨?_, hne⟩
  unfold first
  split
  · exact m'.name_unmarked.1
  · exact m'.name_unmarked.2.2

theorem Mark.last_not_mem (m : Mark) : m.last ∉ m.name := by
  unfold last
  split
  · exact m.name_unmarked.2.1
  · rename_i h
    revert h
    cases m <;> decide

theorem Mark.eq_of_name_eq {m m' : Mark} (h : m.name = m'.name) : m = m' := by
  revert h
  cases m <;> cases m' <;> decide

def IsPlain (c : Char) : Prop := c ∉ ['<', '>', '&', '"']

instance (c : Char) : Decidable (IsPlain c) := inferInstanceAs (Decidable (_ ∉ _))

inductive Lexeme
  | mark (m : Mark)
  | plain (c : Char) (h : IsPlain c)
deriving DecidableEq

def Lexeme.text : Lexeme → List Char
  | mark m => m.text
  | plain c _ => [c]

def spell (lexemes : List Lexeme) : List Char := lexemes.flatMap Lexeme.text

@[simp] theorem spell_nil : spell [] = [] := rfl

@[simp] theorem spell_cons (x : Lexeme) (xs : List Lexeme) :
    spell (x :: xs) = x.text ++ spell xs := rfl

@[simp] theorem spell_append (xs ys : List Lexeme) : spell (xs ++ ys) = spell xs ++ spell ys :=
  List.flatMap_append

theorem spell_eq_append_cons {lexemes : List Lexeme} {before after : List Char} {c : Char}
    (h : spell lexemes = before ++ c :: after) :
    ∃ xs x ys u v, lexemes = xs ++ x :: ys ∧ x.text = u ++ c :: v ∧
      before = spell xs ++ u ∧ after = v ++ spell ys := by
  induction lexemes generalizing before with
  | nil => simp at h
  | cons x lexemes ih =>
    rw [spell_cons] at h
    rcases List.append_eq_append_iff.mp h with ⟨rest, hb, hs⟩ | ⟨rest, ht, ha⟩
    · obtain ⟨xs, y, ys, u, v, rfl, hy, rfl, rfl⟩ := ih hs
      exact ⟨x :: xs, y, ys, u, v, rfl, hy, by simp [hb], rfl⟩
    · cases rest with
      | nil =>
        obtain ⟨xs, y, ys, u, v, rfl, hy, hu, rfl⟩ := @ih [] ha.symm
        exact ⟨x :: xs, y, ys, u, v, rfl, hy, by simp [← hu, ht], rfl⟩
      | cons d rest =>
        obtain ⟨rfl, rfl⟩ := List.cons.inj ha
        exact ⟨[], x, lexemes, before, rest, rfl, ht, rfl, rfl⟩

theorem Mark.not_isPlain_first (m : Mark) : ¬IsPlain m.first := by
  cases m <;> decide

theorem Lexeme.eq_mark_of_first {x : Lexeme} {m : Mark} {u v : List Char}
    (h : x.text = u ++ m.first :: v) : u = [] ∧ ∃ m' : Mark, x = .mark m' ∧ m'.first = m.first := by
  cases x with
  | plain c hc =>
    obtain ⟨rfl, he⟩ := List.append_eq_singleton_iff.mp h.symm |>.resolve_right (by simp)
    cases he
    exact absurd hc m.not_isPlain_first
  | mark m' =>
    cases u with
    | nil => exact ⟨rfl, m', rfl, (List.cons.inj h).1⟩
    | cons c u =>
      have hm : m.first ∈ m'.name ++ [m'.last] := by
        rw [(List.cons.inj h).2]
        simp
      exact absurd hm (m.first_not_mem m')

theorem spell_first {lexemes : List Lexeme} {m : Mark} {before after : List Char}
    (h : spell lexemes = before ++ m.first :: after) :
    ∃ m' : Mark, m'.first = m.first ∧ m'.text <+: m.first :: after := by
  obtain ⟨xs, x, ys, u, v, rfl, hx, rfl, rfl⟩ := spell_eq_append_cons h
  obtain ⟨rfl, m', rfl, hf⟩ := Lexeme.eq_mark_of_first hx
  exact ⟨m', hf, spell ys, by rw [show m'.text = _ from hx]; rfl⟩

theorem Mark.gt_not_mem (m : Mark) : '>' ∉ m.first :: m.name := by
  have hne : '>' ≠ m.first := by
    unfold first
    split <;> decide
  rw [List.mem_cons, not_or]
  exact ⟨hne, m.name_unmarked.2.1⟩

theorem Mark.isTag_of_last {m : Mark} (h : m.last = '>') : m.isTag = true := by
  revert h
  cases m <;> decide

theorem spell_gt {lexemes : List Lexeme} {before after : List Char}
    (h : spell lexemes = before ++ '>' :: after) :
    ∃ m : Mark, m.isTag = true ∧ m.text <:+ before ++ ['>'] := by
  obtain ⟨xs, x, ys, u, v, rfl, hx, rfl, rfl⟩ := spell_eq_append_cons h
  cases x with
  | plain c hc =>
    have hm : '>' ∈ [c] := by
      rw [show [c] = _ from hx]
      simp
    rw [← List.mem_singleton.mp hm] at hc
    exact absurd hc (by decide)
  | mark m =>
    rcases List.eq_nil_or_concat v with rfl | ⟨v, d, rfl⟩
    · have hl : m.first :: m.name = u ∧ [m.last] = ['>'] := List.append_inj' hx rfl
      refine ⟨m, Mark.isTag_of_last (List.cons.inj hl.2).1, spell xs, ?_⟩
      rw [show m.text = _ from hx, List.append_assoc]
    · have hl : m.first :: m.name = u ++ '>' :: v ∧ [m.last] = [d] :=
        List.append_inj' (by simpa [Lexeme.text, Mark.text] using hx) rfl
      have hm : '>' ∈ m.first :: m.name := by
        rw [hl.1]
        simp
      exact absurd hm m.gt_not_mem

theorem Lexeme.eq_html_of_quote {x : Lexeme} (h : '"' ∈ x.text) : x = .mark .html := by
  cases x with
  | plain c hc =>
    rw [← List.mem_singleton.mp h] at hc
    exact absurd hc (by decide)
  | mark m =>
    have hm : m = .html := by
      revert h
      simp only [text]
      cases m <;> decide
    rw [hm]

/-- At how many places of a text a pattern stands. -/
def occurrences (pattern : List Char) : List Char → Nat
  | [] => if pattern.isPrefixOf [] then 1 else 0
  | c :: cs => (if pattern.isPrefixOf (c :: cs) then 1 else 0) + occurrences pattern cs

theorem occurrences_pos {pattern text : List Char} (h : pattern <+: text) (before : List Char) :
    0 < occurrences pattern (before ++ text) := by
  have hp := List.isPrefixOf_iff_prefix.mpr h
  induction before with
  | nil =>
    cases text with
    | nil => rw [List.nil_append, occurrences, if_pos hp]; exact Nat.one_pos
    | cons c cs => rw [List.nil_append, occurrences, if_pos hp]; exact Nat.add_pos_left Nat.one_pos _
  | cons c before ih =>
    simp only [List.cons_append, occurrences]
    omega

theorem occurrences_le_of_isPrefix {pattern longer : List Char} (h : pattern <+: longer)
    (text : List Char) : occurrences longer text ≤ occurrences pattern text := by
  have hle : ∀ text : List Char, (if longer.isPrefixOf text then 1 else 0) ≤
      if pattern.isPrefixOf text then 1 else 0 := by
    intro text
    by_cases hl : longer.isPrefixOf text = true
    · have hp := List.isPrefixOf_iff_prefix.mpr (h.trans (List.isPrefixOf_iff_prefix.mp hl))
      exact Nat.le_of_eq (by rw [if_pos hl, if_pos hp])
    · rw [if_neg hl]
      exact Nat.zero_le _
  induction text with
  | nil => exact hle []
  | cons c cs ih => exact Nat.add_le_add (hle (c :: cs)) ih

theorem occurrences_append_of_not_mem {c : Char} {cs before : List Char} (h : c ∉ before)
    (after : List Char) :
    occurrences (c :: cs) (before ++ after) = occurrences (c :: cs) after := by
  induction before with
  | nil => rfl
  | cons d before ih =>
    simp only [List.mem_cons, not_or] at h
    simp [occurrences, h.1, ih h.2]

/-- Of two texts that each close with the one place of a character, none begins the other. -/
theorem isPrefixOf_closed {last : Char} {name name' rest : List Char} (h : last ∉ name)
    (h' : last ∉ name') :
    (name ++ [last]).isPrefixOf (name' ++ [last] ++ rest) = true ↔ name = name' := by
  induction name generalizing name' with
  | nil =>
    cases name' with
    | nil => simp
    | cons d name' =>
      simp only [List.mem_cons, not_or] at h'
      simp [h'.1]
  | cons c name ih =>
    simp only [List.mem_cons, not_or] at h
    cases name' with
    | nil => simp [Ne.symm h.1]
    | cons d name' =>
      simp only [List.mem_cons, not_or] at h'
      have hh := ih h.2 h'.2
      simp only [List.cons_append, List.isPrefixOf_cons_cons, Bool.and_eq_true, beq_iff_eq, hh,
        List.cons.injEq]

theorem Mark.isPrefixOf_text (m m' : Mark) (rest : List Char) :
    m.text.isPrefixOf (m'.text ++ rest) = true ↔ m = m' := by
  constructor
  · intro h
    have hf : m.first = m'.first := by
      simp only [text, List.cons_append, List.isPrefixOf_cons_cons, Bool.and_eq_true, beq_iff_eq] at h
      exact h.1
    have hl : m.last = m'.last := by
      revert hf
      cases m <;> cases m' <;> decide
    have hm' := m'.last_not_mem
    simp only [text, List.cons_append, List.isPrefixOf_cons_cons, Bool.and_eq_true] at h
    rw [← hl] at h hm'
    exact eq_of_name_eq ((isPrefixOf_closed m.last_not_mem hm').mp h.2)
  · rintro rfl
    simp

theorem occurrences_spell (m : Mark) (lexemes : List Lexeme) :
    occurrences m.text (spell lexemes) = lexemes.count (.mark m) := by
  -- a mark starts with a character that is nowhere else in a lexeme
  induction lexemes with
  | nil => rfl
  | cons x lexemes ih =>
    rw [List.count_cons, spell_cons, ← ih]
    cases x with
    | plain c h =>
      have hc : m.first ∉ [c] := by
        intro hm
        exact m.not_isPlain_first (List.mem_singleton.mp hm ▸ h)
      have hskip : occurrences m.text ([c] ++ spell lexemes) = occurrences m.text (spell lexemes) :=
        occurrences_append_of_not_mem hc _
      simpa [Lexeme.text] using hskip
    | mark m' =>
      have hp := m.isPrefixOf_text m' (spell lexemes)
      have hrest : occurrences m.text (m'.name ++ [m'.last] ++ spell lexemes) =
          occurrences m.text (spell lexemes) :=
        occurrences_append_of_not_mem (m.first_not_mem m') _
      have hcons : (Lexeme.mark m').text ++ spell lexemes =
          m'.first :: (m'.name ++ [m'.last] ++ spell lexemes) := rfl
      have hif : (if m.text.isPrefixOf (m'.text ++ spell lexemes) = true then 1 else 0) =
          if (Lexeme.mark m' == Lexeme.mark m) = true then 1 else 0 := by
        by_cases hm : m = m'
        · subst hm
          simp
        · rw [if_neg (fun hh => hm (hp.mp hh)), if_neg (by simpa using Ne.symm hm)]
      rw [hcons, occurrences, hrest, Nat.add_comm]
      exact congrArg _ hif

end MonicFactor
