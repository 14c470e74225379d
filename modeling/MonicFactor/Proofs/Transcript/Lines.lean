import MonicFactor.Transcript.Decoded

/-! The line splitter reads back lines that were joined by either line end. -/

namespace MonicFactor

inductive LineEnd
  | newline
  | returnNewline
deriving DecidableEq, Repr

def LineEnd.text : LineEnd → List Char
  | .newline => ['\n']
  | .returnNewline => ['\r', '\n']

theorem Line.splitFrom_newline (current rest : List Char) :
    splitFrom current ('\n' :: rest) =
      ⟨(dropReturn current).reverse, true⟩ :: splitFrom [] rest := by
  rw [splitFrom]

theorem Line.splitFrom_cons {c : Char} (h : c ≠ '\n') (current rest : List Char) :
    splitFrom current (c :: rest) = splitFrom (c :: current) rest := by
  rw [splitFrom]
  exact h

theorem Line.splitFrom_append {line : List Char} (h : '\n' ∉ line) (current rest : List Char) :
    splitFrom current (line ++ rest) = splitFrom (line.reverse ++ current) rest := by
  induction line generalizing current with
  | nil => rfl
  | cons c line ih =>
    rw [List.mem_cons, not_or] at h
    obtain ⟨hc, hl⟩ := h
    rw [List.cons_append, splitFrom_cons (fun he => hc he.symm), ih hl]
    simp

/-- The terminator takes a carriage return that the line itself ends in along with it. -/
theorem Line.split_append_end {line : List Char} (h : '\n' ∉ line) (e : LineEnd)
    (rest : List Char) :
    split (line ++ (e.text ++ rest)) =
      match e with
      | .newline => ⟨(dropReturn line.reverse).reverse, true⟩ :: split rest
      | .returnNewline => ⟨line, true⟩ :: split rest := by
  rw [split, splitFrom_append h, List.append_nil]
  cases e with
  | newline => rw [LineEnd.text, List.singleton_append, splitFrom_newline, split]
  | returnNewline =>
    rw [LineEnd.text, List.cons_append, List.singleton_append,
      splitFrom_cons (by decide), splitFrom_newline, dropReturn, List.reverse_reverse, split]

theorem dropReturn_of_ne {line : List Char} (h : line.head? ≠ some '\r') :
    dropReturn line = line := by
  cases line with
  | nil => rfl
  | cons c line =>
    have hc : c ≠ '\r' := fun he => h (by rw [he, List.head?_cons])
    unfold dropReturn
    split
    · rename_i he
      exact absurd (List.cons.inj he).1 hc
    · rfl

theorem Line.split_append_of_ne {line : List Char} (h : '\n' ∉ line)
    (hr : line.getLast? ≠ some '\r') (e : LineEnd) (rest : List Char) :
    split (line ++ (e.text ++ rest)) = ⟨line, true⟩ :: split rest := by
  rw [split_append_end h]
  cases e with
  | newline =>
    have hd := dropReturn_of_ne (List.head?_reverse ▸ hr)
    simp only [hd, List.reverse_reverse]
  | returnNewline => rfl

theorem Line.split_unended {line : List Char} (h : '\n' ∉ line) (hne : line ≠ []) :
    split line = [⟨line, false⟩] := by
  have hs := splitFrom_append h [] []
  rw [List.append_nil, List.append_nil] at hs
  rw [split, hs]
  cases hl : line.reverse with
  | nil => exact absurd (List.reverse_eq_nil_iff.mp hl) hne
  | cons c current => rw [splitFrom, ← hl, List.reverse_reverse]

def shownLines (text : List Char) : List (List Char) :=
  ((Line.split text).filter fun line => !line.isBlank).map Line.content

theorem mem_of_mem_dropReturn {c : Char} {line : List Char} (h : c ∈ dropReturn line) :
    c ∈ line := by
  unfold dropReturn at h
  split at h
  · exact List.mem_cons_of_mem _ h
  · exact h

theorem shownLines_blank {line : List Char} (hb : ∀ c ∈ line, isBlank c = true)
    (hn : '\n' ∉ line) (e : LineEnd) (rest : List Char) :
    shownLines (line ++ (e.text ++ rest)) = shownLines rest := by
  rw [shownLines, Line.split_append_end hn]
  cases e with
  | newline =>
    have hd : ((dropReturn line.reverse).reverse.all isBlank) = true := by
      rw [List.all_eq_true]
      intro c hc
      exact hb c (List.mem_reverse.mp (mem_of_mem_dropReturn (List.mem_reverse.mp hc)))
    simp [shownLines, Line.isBlank, hd]
  | returnNewline =>
    have hl : line.all isBlank = true := List.all_eq_true.mpr hb
    simp [shownLines, Line.isBlank, hl]

theorem isBlank_eq_false_of_exists {line : List Char} (h : ∃ c ∈ line, isBlank c = false)
    (ended : Bool) : (Line.mk line ended).isBlank = false := by
  obtain ⟨c, hc, hb⟩ := h
  rw [Line.isBlank, List.all_eq_false]
  exact ⟨c, hc, by simp [hb]⟩

theorem shownLines_append {line : List Char} (hs : ∃ c ∈ line, isBlank c = false)
    (hn : '\n' ∉ line) (hr : line.getLast? ≠ some '\r') (e : LineEnd) (rest : List Char) :
    shownLines (line ++ (e.text ++ rest)) = line :: shownLines rest := by
  have hb := isBlank_eq_false_of_exists hs true
  rw [shownLines, Line.split_append_of_ne hn hr, List.filter_cons_of_pos (by rw [hb]; rfl),
    List.map_cons, shownLines]

theorem shownLines_unended {line : List Char} (hs : ∃ c ∈ line, isBlank c = false)
    (hn : '\n' ∉ line) : shownLines line = [line] := by
  have hb := isBlank_eq_false_of_exists hs false
  have hne : line ≠ [] := by
    rintro rfl
    obtain ⟨c, hc, -⟩ := hs
    exact absurd hc List.not_mem_nil
  rw [shownLines, Line.split_unended hn hne, List.filter_cons_of_pos (by rw [hb]; rfl)]
  rfl

end MonicFactor
