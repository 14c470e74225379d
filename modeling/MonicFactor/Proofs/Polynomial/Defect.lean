import MonicFactor.Proofs.Polynomial.Cells
import MonicFactor.Proofs.Polynomial.Scanning
import MonicFactor.Proofs.Text.Letter

/-! Every error of format points at a character of the expression that has the defect. The mode of
a scan recalls enough of what was read before the character at which the error is raised. -/

namespace MonicFactor

section Symbols

theorem Cell.starts_no_exponent (cell : Cell) (hd : ∀ value, cell.symbol ≠ .digit value)
    (hm : cell.symbol ≠ .minus) (hp : cell.symbol ≠ .dot) :
    cell.char.isDigit = false ∧ cell.char ≠ '-' ∧ cell.char ≠ '.' := by
  refine ⟨?_, fun hc => hm (symbol_of_char hc), fun hc => hp (symbol_of_char hc)⟩
  rw [← Bool.not_eq_true]
  exact fun hc => hd _ (symbol_of_isDigit hc)

theorem Symbol.Describes.not_isLetter {symbol : Symbol} {c : Char} (h : symbol.Describes c)
    (hx : symbol ≠ .x) (hl : symbol ≠ .letter) : isLetter c = false := by
  cases symbol with
  | x => exact absurd rfl hx
  | letter => exact absurd rfl hl
  | digit value => exact isLetter_of_isDigit h.1
  | other => exact h.2.2
  | plus | minus | star | caret | dot =>
    rw [show c = _ from h]
    decide +kernel

end Symbols

def FormatError.column : FormatError → Nat
  | .unexpectedCharacter _ column | .unsupportedVariable _ column | .repeatedVariable column
  | .missingExponent column | .nonIntegerExponent column | .nonIntegerCoefficient column
  | .exponentWithoutVariable column | .missingVariable column | .danglingSign column
  | .outOfRange column => column

/-- A character has the defect that an error tells of, by what is shown before and after it. -/
def FormatError.Marks (before : List Char) (c : Char) (after : List Char) : FormatError → Prop
  | .unexpectedCharacter char _ => c = char ∧ isLetter c = false ∧ c ≠ '+' ∧ c ≠ '-'
  | .unsupportedVariable char _ => c.toLower = char ∧ isLetter char = true ∧ char ≠ 'x'
  | .repeatedVariable _ =>
    c.toLower = 'x' ∧ ∃ d ∈ before.getLast?, d = 'x' ∨ d.isDigit = true
  | .missingExponent _ =>
    c = '^' ∧ before.getLast? = some 'x' ∧
      ∀ d ∈ after.head?, d.isDigit = false ∧ d ≠ '-' ∧ d ≠ '.'
  | .nonIntegerExponent _ =>
    before.getLast? = some '^' ∧
      (c = '-' ∨ c = '.' ∨ c.isDigit = true ∧ (after.dropWhile Char.isDigit).head? = some '.')
  | .nonIntegerCoefficient _ =>
    c = '.' ∧ ∀ d ∈ before.getLast?, d = '+' ∨ d = '-' ∨ d.isDigit = true
  | .exponentWithoutVariable _ => c = '^' ∧ ∃ d ∈ before.getLast?, d.isDigit = true
  | .missingVariable _ =>
    c = '*' ∧ (∃ d ∈ before.getLast?, d.isDigit = true) ∧ ∀ d ∈ after.head?, isLetter d = false
  | .danglingSign _ => c = '-' ∧ ∀ d ∈ after.head?, d = '+' ∨ d = '-'
  | .outOfRange _ =>
    c.isDigit = true ∧ (∀ d ∈ before.getLast?, d.isDigit = false) ∧
      maxMagnitude < Nat.ofDigitChars 10 (c :: after.takeWhile Char.isDigit) 0

def FormatError.PointsInto (cells : List Cell) (e : FormatError) : Prop :=
  ∃ front c back, cells = front ++ ⟨e.column, c⟩ :: back ∧
    e.Marks (front.map Cell.char) c (back.map Cell.char)

section Recollection

def lastChar (cells : List Cell) : Option Char := (cells.map Cell.char).getLast?

@[simp] theorem lastChar_concat (cells : List Cell) (cell : Cell) :
    lastChar (cells ++ [cell]) = some cell.char := by
  simp [lastChar]

/-- The cells end in a run of digits: what stands before it, where it starts, what it is worth. -/
def EndsInNumber (read front : List Cell) (start value : Nat) : Prop :=
  ∃ c digits, read = front ++ ⟨start, c⟩ :: digits ∧
    (∀ d ∈ c :: digits.map Cell.char, d.isDigit = true) ∧
    Nat.ofDigitChars 10 (c :: digits.map Cell.char) 0 = value

theorem endsInNumber_single (read : List Cell) {cell : Cell} {digit : Nat}
    (h : cell.symbol = .digit digit) : EndsInNumber (read ++ [cell]) read cell.column digit := by
  obtain ⟨hd, hv⟩ := cell.describes h
  refine ⟨cell.char, [], rfl, by simpa using hd, ?_⟩
  rw [List.map_nil, ofDigitChars_cons_digitValue, Nat.mul_zero, Nat.zero_add, hv]
  rfl

theorem EndsInNumber.concat {read front : List Cell} {start value digit : Nat} {cell : Cell}
    (h : EndsInNumber read front start value) (hd : cell.symbol = .digit digit) :
    EndsInNumber (read ++ [cell]) front start (10 * value + digit) := by
  obtain ⟨c, digits, rfl, hall, rfl⟩ := h
  obtain ⟨hc, rfl⟩ := cell.describes hd
  refine ⟨c, digits ++ [cell], by simp, ?_, ?_⟩
  · intro d hm
    rw [List.map_append, ← List.cons_append, List.mem_append] at hm
    rcases hm with hm | hm
    · exact hall d hm
    · rw [List.mem_singleton.mp hm]
      exact hc
  · rw [List.map_append, ← List.cons_append, Nat.ofDigitChars_append]
    rfl

theorem EndsInNumber.exists_lastChar {read front : List Cell} {start value : Nat}
    (h : EndsInNumber read front start value) : ∃ d ∈ lastChar read, d.isDigit = true := by
  obtain ⟨c, digits, rfl, hall, -⟩ := h
  have hne : c :: digits.map Cell.char ≠ [] := List.cons_ne_nil _ _
  refine ⟨(c :: digits.map Cell.char).getLast hne, ?_, hall _ (List.getLast_mem hne)⟩
  rw [lastChar, List.map_append, List.map_cons, List.getLast?_append,
    List.getLast?_eq_some_getLast hne, Option.some_or]
  rfl

/-- What the mode knows of the cells that were read. -/
def Mode.Recalls (read : List Cell) : Mode → Prop
  | .idle none => ∀ d ∈ lastChar read, d = '+'
  | .idle (some column) => ∃ front, read = front ++ [⟨column, '-'⟩]
  | .coefficient _ start value =>
    ∃ front, (∀ d ∈ lastChar front, d = '+' ∨ d = '-') ∧ EndsInNumber read front start value
  | .star _ column =>
    ∃ front, read = front ++ [⟨column, '*'⟩] ∧ ∃ d ∈ lastChar front, d.isDigit = true
  | .base _ => lastChar read = some 'x'
  | .caret _ column => ∃ front, read = front ++ [⟨column, '^'⟩] ∧ lastChar front = some 'x'
  | .exponent _ start value =>
    ∃ front, lastChar front = some '^' ∧ EndsInNumber read front start value

theorem Mode.Recalls.sign {read : List Cell} {minus : Option Nat}
    (h : (Mode.idle minus).Recalls read) : ∀ d ∈ lastChar read, d = '+' ∨ d = '-' := by
  intro d hd
  cases minus with
  | none => exact .inl (h d hd)
  | some column =>
    obtain ⟨front, rfl⟩ := h
    rw [lastChar_concat] at hd
    exact .inr (Option.some.inj hd).symm

/-- A step ends in an error that points into what was read, or knows of it as much as before. -/
def Recollects (read : List Cell) (cell : Cell) : Except FormatError (Option Term × Mode) → Prop
  | .error e => ∀ rest, e.PointsInto (read ++ cell :: rest)
  | .ok (_, next) => next.Recalls (read ++ [cell])

theorem recollects_refusal {read : List Cell} {cell : Cell} (hlow : cell.char.toLower = cell.char)
    (hp : cell.symbol ≠ .plus) (hm : cell.symbol ≠ .minus)
    (hx : cell.symbol = .x → ∃ d ∈ lastChar read, d = 'x' ∨ d.isDigit = true) :
    Recollects read cell (.error cell.refusal) := by
  intro rest
  refine ⟨read, cell.char, rest, ?_⟩
  have hd := cell.describes_symbol
  unfold Cell.refusal
  split
  · rename_i hs
    rw [hs] at hd
    exact ⟨rfl, by rw [hlow]; exact hd, hx hs⟩
  · rename_i hs
    rw [hs] at hd
    exact ⟨rfl, hlow, hd.2.2, hd.1⟩
  · rename_i hnx hnl
    exact ⟨rfl, rfl, hd.not_isLetter hnx hnl, mt cell.symbol_eq_plus_iff.mpr hp,
      mt cell.symbol_eq_minus_iff.mpr hm⟩

theorem recollects_close {read : List Cell} {cell : Cell} (hlow : cell.char.toLower = cell.char)
    (hx : ∃ d ∈ lastChar read, d = 'x' ∨ d.isDigit = true) (term : Term) :
    Recollects read cell (cell.close term) := by
  unfold Cell.close
  split
  · rename_i hs
    intro d hd
    rw [lastChar_concat, show cell.char = '+' from cell.describes hs] at hd
    exact (Option.some.inj hd).symm
  · rename_i hs
    have hc : cell.char = '-' := cell.describes hs
    exact ⟨read, by rw [← hc]⟩
  · rename_i hp hm
    exact recollects_refusal hlow hp hm fun _ => hx

theorem recollects_extend {read front : List Cell} {cell : Cell} {start value digit : Nat}
    {next : Nat → Mode} (hf : ∀ d ∈ lastChar front, d.isDigit = false)
    (hn : EndsInNumber read front start value) (hd : cell.symbol = .digit digit)
    (hnext : ∀ n, EndsInNumber (read ++ [cell]) front start n → (next n).Recalls (read ++ [cell])) :
    Recollects read cell ((extend start value digit).map fun n => (none, next n)) := by
  have hnumber := hn.concat hd
  unfold extend
  split
  · exact hnext _ hnumber
  · rename_i hbig
    intro rest
    obtain ⟨c, digits, he, hall, hv⟩ := hnumber
    refine ⟨front, c, digits ++ rest, ?_, hall c List.mem_cons_self, hf, ?_⟩
    · rw [List.append_cons, he, List.append_assoc, List.cons_append]
      rfl
    · -- the whole run is worth at least as much as the part of it that was read
      rw [List.map_append, List.takeWhile_append_of_pos fun d hm => hall d (.tail _ hm),
        ← List.cons_append, Nat.ofDigitChars_append, hv]
      have := le_ofDigitChars ((rest.map Cell.char).takeWhile Char.isDigit) (10 * value + digit)
      omega

section Steps

variable {read : List Cell} {cell : Cell}

theorem lastChar_of_x (h : cell.symbol = .x) : lastChar (read ++ [cell]) = some 'x' := by
  have hc : cell.char = 'x' := cell.describes h
  rw [lastChar_concat, hc]

theorem recollects_danglingSign {column : Nat} (h : (Mode.idle (some column)).Recalls read)
    (hc : cell.char = '+' ∨ cell.char = '-') :
    Recollects read cell (.error (.danglingSign column)) := by
  obtain ⟨front, rfl⟩ := h
  exact fun rest => ⟨front, '-', cell :: rest, List.append_assoc _ _ _, rfl, by simpa using hc⟩

theorem recollects_idle {minus : Option Nat} (h : (Mode.idle minus).Recalls read)
    (hlow : cell.char.toLower = cell.char) : Recollects read cell ((Mode.idle minus).step cell) := by
  cases hsym : cell.symbol with
  | plus =>
    have hc : cell.char = '+' := cell.describes hsym
    cases minus with
    | none =>
      simp only [Mode.step.eq_def, hsym]
      intro d hd
      rw [lastChar_concat, hc] at hd
      exact (Option.some.inj hd).symm
    | some column =>
      simp only [Mode.step.eq_def, hsym]
      exact recollects_danglingSign h (.inl hc)
  | minus =>
    have hc : cell.char = '-' := cell.describes hsym
    cases minus with
    | none =>
      simp only [Mode.step.eq_def, hsym]
      exact ⟨read, by rw [← hc]⟩
    | some column =>
      simp only [Mode.step.eq_def, hsym]
      exact recollects_danglingSign h (.inr hc)
  | digit digit =>
    simp only [Mode.step.eq_def, hsym]
    exact ⟨read, h.sign, endsInNumber_single read hsym⟩
  | x =>
    simp only [Mode.step.eq_def, hsym]
    exact lastChar_of_x hsym
  | dot =>
    simp only [Mode.step.eq_def, hsym]
    refine fun rest => ⟨read, cell.char, rest, rfl, cell.describes hsym, fun d hd => ?_⟩
    rcases h.sign d hd with hs | hs
    · exact .inl hs
    · exact .inr (.inl hs)
  | star | caret | letter | other =>
    simp only [Mode.step.eq_def, hsym]
    exact recollects_refusal hlow (by simp [hsym]) (by simp [hsym]) (by simp [hsym])

theorem not_isDigit_of_sign {d : Char} (h : d = '+' ∨ d = '-') : d.isDigit = false := by
  rcases h with rfl | rfl <;> rfl

theorem recollects_coefficient {negative : Bool} {start value : Nat}
    (h : (Mode.coefficient negative start value).Recalls read)
    (hlow : cell.char.toLower = cell.char) :
    Recollects read cell ((Mode.coefficient negative start value).step cell) := by
  obtain ⟨front, hf, hn⟩ := h
  obtain ⟨d, hd, hdigit⟩ := hn.exists_lastChar
  cases hsym : cell.symbol with
  | digit digit =>
    simp only [Mode.step.eq_def, hsym]
    exact recollects_extend (fun d hd => not_isDigit_of_sign (hf d hd)) hn hsym
      fun n hn => ⟨front, hf, hn⟩
  | star =>
    have hc : cell.char = '*' := cell.describes hsym
    simp only [Mode.step.eq_def, hsym]
    exact ⟨read, by rw [← hc], d, hd, hdigit⟩
  | x =>
    simp only [Mode.step.eq_def, hsym]
    exact lastChar_of_x hsym
  | dot =>
    simp only [Mode.step.eq_def, hsym]
    refine fun rest => ⟨read, cell.char, rest, rfl, cell.describes hsym, fun d' hd' => ?_⟩
    cases Option.some.inj (hd.symm.trans hd')
    exact .inr (.inr hdigit)
  | caret =>
    simp only [Mode.step.eq_def, hsym]
    exact fun rest => ⟨read, cell.char, rest, rfl, cell.describes hsym, d, hd, hdigit⟩
  | plus | minus | letter | other =>
    simp only [Mode.step.eq_def, hsym]
    exact recollects_close hlow ⟨d, hd, .inr hdigit⟩ _

theorem recollects_star {coeff : Int} {column : Nat} (h : (Mode.star coeff column).Recalls read)
    (hlow : cell.char.toLower = cell.char) :
    Recollects read cell ((Mode.star coeff column).step cell) := by
  obtain ⟨front, rfl, hd⟩ := h
  cases hsym : cell.symbol with
  | x =>
    simp only [Mode.step.eq_def, hsym]
    exact lastChar_of_x hsym
  | letter =>
    simp only [Mode.step.eq_def, hsym]
    exact recollects_refusal hlow (by simp [hsym]) (by simp [hsym]) (by simp [hsym])
  | plus | minus | star | caret | dot | digit digit | other =>
    have hl : isLetter cell.char = false :=
      (cell.describes hsym).not_isLetter (by simp) (by simp)
    simp only [Mode.step.eq_def, hsym]
    exact fun rest => ⟨front, '*', cell :: rest, List.append_assoc _ _ _, rfl, hd, by simp [hl]⟩

theorem recollects_base {coeff : Int} (h : (Mode.base coeff).Recalls read)
    (hlow : cell.char.toLower = cell.char) : Recollects read cell ((Mode.base coeff).step cell) := by
  cases hsym : cell.symbol with
  | caret =>
    have hc : cell.char = '^' := cell.describes hsym
    simp only [Mode.step.eq_def, hsym]
    exact ⟨read, by rw [← hc], h⟩
  | _ =>
    simp only [Mode.step.eq_def, hsym]
    exact recollects_close hlow ⟨'x', h, .inl rfl⟩ _

theorem recollects_caret {coeff : Int} {column : Nat} (h : (Mode.caret coeff column).Recalls read) :
    Recollects read cell ((Mode.caret coeff column).step cell) := by
  obtain ⟨front, rfl, hx⟩ := h
  have hlast : lastChar (front ++ [⟨column, '^'⟩]) = some '^' := lastChar_concat _ _
  cases hsym : cell.symbol with
  | digit digit =>
    simp only [Mode.step.eq_def, hsym]
    exact ⟨_, hlast, endsInNumber_single _ hsym⟩
  | minus =>
    simp only [Mode.step.eq_def, hsym]
    exact fun rest => ⟨_, cell.char, rest, rfl, hlast, .inl (cell.describes hsym)⟩
  | dot =>
    simp only [Mode.step.eq_def, hsym]
    exact fun rest => ⟨_, cell.char, rest, rfl, hlast, .inr (.inl (cell.describes hsym))⟩
  | plus | star | caret | x | letter | other =>
    have hne := cell.starts_no_exponent (by simp [hsym]) (by simp [hsym]) (by simp [hsym])
    simp only [Mode.step.eq_def, hsym]
    exact fun rest => ⟨front, '^', cell :: rest, List.append_assoc _ _ _, rfl, hx, by simpa using hne⟩

theorem recollects_exponent {coeff : Int} {start value : Nat}
    (h : (Mode.exponent coeff start value).Recalls read) (hlow : cell.char.toLower = cell.char) :
    Recollects read cell ((Mode.exponent coeff start value).step cell) := by
  obtain ⟨front, hf, hn⟩ := h
  obtain ⟨d, hd, hdigit⟩ := hn.exists_lastChar
  cases hsym : cell.symbol with
  | digit digit =>
    simp only [Mode.step.eq_def, hsym]
    refine recollects_extend (fun d hd => ?_) hn hsym fun n hn => ⟨front, hf, hn⟩
    cases Option.some.inj (hf.symm.trans hd)
    rfl
  | dot =>
    have hc : cell.char = '.' := cell.describes hsym
    simp only [Mode.step.eq_def, hsym]
    intro rest
    obtain ⟨c, digits, rfl, hall, -⟩ := hn
    refine ⟨front, c, digits ++ cell :: rest, ?_, hf, .inr (.inr ⟨hall c List.mem_cons_self, ?_⟩)⟩
    · rw [List.append_assoc]
      rfl
    · rw [List.map_append, List.dropWhile_append_of_pos fun d hd => hall d (.tail _ hd),
        List.map_cons, hc]
      rfl
  | plus | minus | star | caret | x | letter | other =>
    simp only [Mode.step.eq_def, hsym]
    exact recollects_close hlow ⟨d, hd, .inr hdigit⟩ _

theorem Mode.Recalls.step {mode : Mode} (h : mode.Recalls read)
    (hlow : cell.char.toLower = cell.char) : Recollects read cell (mode.step cell) := by
  cases mode with
  | idle minus => exact recollects_idle h hlow
  | coefficient negative start value => exact recollects_coefficient h hlow
  | star coeff column => exact recollects_star h hlow
  | base coeff => exact recollects_base h hlow
  | caret coeff column => exact recollects_caret h
  | exponent coeff start value => exact recollects_exponent h hlow

end Steps

theorem Mode.Recalls.finish {mode : Mode} {read : List Cell} {e : FormatError}
    (h : mode.Recalls read) (he : mode.finish = .error e) : e.PointsInto read := by
  cases mode with
  | idle minus =>
    cases minus with
    | none => cases he
    | some column =>
      cases he
      obtain ⟨front, rfl⟩ := h
      exact ⟨front, '-', [], rfl, rfl, by simp⟩
  | star coeff column =>
    cases he
    obtain ⟨front, rfl, hd⟩ := h
    exact ⟨front, '*', [], rfl, rfl, hd, by simp⟩
  | caret coeff column =>
    cases he
    obtain ⟨front, rfl, hx⟩ := h
    exact ⟨front, '^', [], rfl, rfl, hx, by simp⟩
  | coefficient negative start value | base coeff | exponent coeff start value => cases he

theorem Scan.recalls_run {scan next : Scan} {read cells : List Cell}
    (h : scan.mode.Recalls read) (hlow : ∀ cell ∈ cells, cell.char.toLower = cell.char)
    (hn : scan.run cells = .ok next) : next.mode.Recalls (read ++ cells) := by
  induction cells generalizing scan read with
  | nil =>
    cases hn
    rwa [List.append_nil]
  | cons cell cells ih =>
    rw [run_cons] at hn
    cases hs : scan.step cell with
    | error e =>
      rw [hs] at hn
      cases hn
    | ok mid =>
      rw [hs] at hn
      obtain ⟨last, hm⟩ := step_eq_ok hs
      have hstep := h.step (hlow cell List.mem_cons_self)
      rw [hm] at hstep
      have hh := ih hstep (fun c hc => hlow c (.tail _ hc)) hn
      rwa [List.append_assoc] at hh

theorem pointsInto_of_readCells {cells : List Cell} {e : FormatError}
    (hlow : ∀ cell ∈ cells, cell.char.toLower = cell.char) (h : readCells cells = .error e) :
    e.PointsInto cells := by
  have hnil : (Mode.idle none).Recalls [] := fun d hd => by cases hd
  rw [readCells, Scan.read] at h
  cases hr : Scan.run ⟨[], .idle none⟩ cells with
  | error e' =>
    rw [hr] at h
    cases h
    obtain ⟨before, cell, after, mid, rfl, hb, hm⟩ := Scan.run_eq_error hr
    have hstep := (Scan.recalls_run hnil (fun c hc => hlow c (by simp [hc])) hb).step
      (hlow cell (by simp))
    rw [hm] at hstep
    exact hstep after
  | ok scan =>
    rw [hr] at h
    exact (Scan.recalls_run hnil hlow hr).finish (Scan.finish_eq_error h)

end Recollection

theorem FormatError.Marks.of_toLower {before after : List Char} {c : Char} {e : FormatError}
    (h : e.Marks before c.toLower after) : e.Marks before c after := by
  cases e with
  | unsupportedVariable char column | repeatedVariable column =>
    rw [Marks, toLower_toLower] at h
    exact h
  | unexpectedCharacter char column =>
    rwa [toLower_of_not_isLetter h.2.1] at h
  | missingExponent column | nonIntegerCoefficient column | exponentWithoutVariable column
  | missingVariable column | danglingSign column =>
    have hl : isLetter c.toLower = false := by
      rw [h.1]
      decide +kernel
    rwa [toLower_of_not_isLetter hl] at h
  | outOfRange column => rwa [toLower_of_not_isLetter (isLetter_of_isDigit h.1)] at h
  | nonIntegerExponent column =>
    have hl : isLetter c.toLower = false := by
      rcases h.2 with hc | hc | ⟨hd, -⟩
      · rw [hc]
        decide +kernel
      · rw [hc]
        decide +kernel
      · exact isLetter_of_isDigit hd
    rwa [toLower_of_not_isLetter hl] at h

theorem mem_cells_toLower {column : Nat} {cs : List Char} {cell : Cell}
    (h : cell ∈ cells column cs) : cell.char.toLower = cell.char := by
  obtain ⟨front, back, he⟩ := List.append_of_mem h
  obtain ⟨before, c, after, -, -, -, rfl, -⟩ := cells_eq_append_cons he
  exact toLower_toLower c

/-- Every error of format points at a character of the expression which is not blank, and which
has the defect that the error tells of. -/
theorem readTerms_error_marks (expression : String) (e : FormatError)
    (h : readTerms expression = .error e) :
    1 ≤ e.column ∧ e.column ≤ expression.length ∧
    ∃ before c after, expression.toList = before ++ c :: after ∧ e.column = before.length + 1 ∧
      isBlank c = false ∧ e.Marks (shown before) c (shown after) := by
  obtain ⟨front, c', back, hcells, hmarks⟩ :=
    pointsInto_of_readCells (fun _ hc => mem_cells_toLower hc) h
  obtain ⟨before, c, after, he, hb, rfl, hcell, rfl⟩ := cells_eq_append_cons hcells
  obtain ⟨hcolumn, rfl⟩ := Cell.mk.inj hcell
  rw [map_char_cells, map_char_cells] at hmarks
  have hlen : expression.length = before.length + (after.length + 1) := by
    rw [← String.length_toList, he, List.length_append, List.length_cons]
  exact ⟨by omega, by omega, before, c, after, he, by omega, hb, hmarks.of_toLower⟩

/-- The blanks inside an exponent and before its dot do not hide where it starts. -/
theorem readTerms_error_marks_fraction :
    readTerms "x ^ 1 2 .5" = .error (.nonIntegerExponent 5) ∧
      ∃ before c after, "x ^ 1 2 .5".toList = before ++ c :: after ∧ 5 = before.length + 1 ∧
        isBlank c = false ∧
        (FormatError.nonIntegerExponent 5).Marks (shown before) c (shown after) := by
  have he : readTerms "x ^ 1 2 .5" = .error (.nonIntegerExponent 5) := rfl
  exact ⟨he, (readTerms_error_marks _ _ he).2.2⟩

end MonicFactor
