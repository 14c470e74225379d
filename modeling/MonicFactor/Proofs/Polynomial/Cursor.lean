import MonicFactor.Polynomial.Monic
import MonicFactor.Proofs.Polynomial.Scanning

/-! Whole numbers read at a position of an expression, in word arithmetic. A run of digits is read
exactly, however long it is, and the scan reads the same of it. -/

namespace MonicFactor

/-- The cells of an expression, and how many of them have been read. -/
structure Cursor where
  cells : List Cell
  pos : Nat
deriving DecidableEq, Repr

def Cursor.peek (c : Cursor) : Option Cell := c.cells[c.pos]?

def Cursor.advance (c : Cursor) : Cursor := { c with pos := c.pos + 1 }

def Cursor.rest (c : Cursor) : List Cell := c.cells.drop c.pos

section Word

/-- A result of word arithmetic, if it fits the word. -/
def toWord? (n : Int) : Option Int := if FitsWord n then some n else none

/-- One more digit at the end of a number: the product is checked first, and then the sum. -/
def pushDigit? (value : Int) (digit : Nat) : Option Int :=
  (toWord? (value * 10)).bind fun n => toWord? (n + digit)

theorem toWord?_natCast (n : Nat) :
    toWord? n = if n ≤ maxMagnitude then some (n : Int) else none := by
  have hfits : FitsWord n ↔ n ≤ maxMagnitude := by
    unfold FitsWord maxMagnitude
    omega
  simp only [toWord?, hfits]

/-- Where the product leaves the word the sum would have left it too. -/
theorem pushDigit?_natCast (value digit : Nat) :
    pushDigit? value digit =
      if 10 * value + digit ≤ maxMagnitude then some ↑(10 * value + digit) else none := by
  have hproduct : (value : Int) * 10 = ↑(10 * value) := by omega
  have hsum : (↑(10 * value) : Int) + digit = ↑(10 * value + digit) := by omega
  rw [pushDigit?, hproduct, toWord?_natCast]
  by_cases hp : 10 * value ≤ maxMagnitude
  · rw [if_pos hp, Option.bind_some, hsum, toWord?_natCast]
  · rw [if_neg hp, Option.bind_none, if_neg (by omega)]

end Word

/-- Reads on in a number that starts at a column, behind digits worth `value`. -/
def Cursor.digits (start : Nat) (value : Int) (c : Cursor) : Except FormatError (Int × Cursor) :=
  match _h : c.peek with
  | none => .ok (value, c)
  | some cell =>
    if cell.char.isDigit then
      match pushDigit? value (digitValue cell.char) with
      | some value => c.advance.digits start value
      | none => .error (.outOfRange start)
    else .ok (value, c)
termination_by c.cells.length - c.pos
decreasing_by
  have := (List.getElem?_eq_some_iff.mp _h).1
  simp only [advance]
  omega

/-- The number at the cursor, if one starts there. -/
def Cursor.integer (c : Cursor) : Except FormatError (Option Int × Cursor) :=
  match c.peek with
  | none => .ok (none, c)
  | some cell =>
    if cell.char.isDigit then
      (c.digits cell.column 0).map fun result => (some result.1, result.2)
    else .ok (none, c)

/-- All digits from the cursor on, up to the first character that is none. -/
def Cursor.numeral (c : Cursor) : List Cell := c.rest.takeWhile fun cell => cell.char.isDigit

/-- The cursor behind the digits. -/
def Cursor.behindNumeral (c : Cursor) : Cursor := { c with pos := c.pos + c.numeral.length }

section Position

variable {c : Cursor} {cell : Cell}

theorem Cursor.peek_eq_head? (c : Cursor) : c.peek = c.rest.head? := List.head?_drop.symm

theorem Cursor.rest_of_peek (h : c.peek = some cell) : c.rest = cell :: c.advance.rest := by
  obtain ⟨hlt, rfl⟩ := List.getElem?_eq_some_iff.mp h
  exact List.drop_eq_getElem_cons hlt

theorem Cursor.rest_eq_nil (h : c.peek = none) : c.rest = [] := by
  rwa [peek_eq_head?, List.head?_eq_none_iff] at h

/-- No digit stands at the cursor. -/
def Cursor.AtNoDigit (c : Cursor) : Prop := ∀ cell, c.peek = some cell → cell.char.isDigit = false

theorem Cursor.atNoDigit_or (c : Cursor) :
    c.AtNoDigit ∨ ∃ cell, c.peek = some cell ∧ cell.char.isDigit = true := by
  by_cases h : ∃ cell, c.peek = some cell ∧ cell.char.isDigit = true
  · exact .inr h
  · exact .inl fun cell hp => Bool.eq_false_iff.mpr fun hd => h ⟨cell, hp, hd⟩

theorem Cursor.numeral_of_digit (h : c.peek = some cell) (hd : cell.char.isDigit = true) :
    c.numeral = cell :: c.advance.numeral := by
  rw [numeral, rest_of_peek h, List.takeWhile_cons, if_pos hd]
  rfl

theorem Cursor.AtNoDigit.numeral_eq_nil (h : c.AtNoDigit) : c.numeral = [] := by
  rw [numeral]
  cases hp : c.peek with
  | none => rw [rest_eq_nil hp, List.takeWhile_nil]
  | some cell => rw [rest_of_peek hp, List.takeWhile_cons_of_neg (by simp [h cell hp])]

theorem Cursor.isDigit_of_mem_numeral (h : cell ∈ c.numeral) : cell.char.isDigit = true :=
  List.all_eq_true.mp List.all_takeWhile cell h

theorem Cursor.digits_of_digit (h : c.peek = some cell) (hd : cell.char.isDigit = true)
    (start : Nat) (value : Int) :
    c.digits start value =
      match pushDigit? value (digitValue cell.char) with
      | some value => c.advance.digits start value
      | none => .error (.outOfRange start) := by
  rw [digits]
  split
  · rw [h] at *
    contradiction
  · rename_i hs
    obtain rfl := Option.some.inj (h.symm.trans hs)
    rw [if_pos hd]

theorem Cursor.AtNoDigit.digits_eq (h : c.AtNoDigit) (start : Nat) (value : Int) :
    c.digits start value = .ok (value, c) := by
  rw [digits]
  split
  · rfl
  · rename_i hs
    rw [if_neg (by simp [h _ hs])]

end Position

section Exactness

theorem Cursor.behindNumeral_of_digit {c : Cursor} {cell : Cell} (h : c.peek = some cell)
    (hd : cell.char.isDigit = true) : c.behindNumeral = c.advance.behindNumeral := by
  have hlength : c.pos + (c.advance.numeral.length + 1) = c.pos + 1 + c.advance.numeral.length := by
    omega
  rw [behindNumeral, numeral_of_digit h hd, List.length_cons, hlength]
  rfl

theorem Cursor.AtNoDigit.behindNumeral_eq {c : Cursor} (h : c.AtNoDigit) : c.behindNumeral = c := by
  rw [behindNumeral, h.numeral_eq_nil]
  rfl

/-- However many zeros lead a number, and wherever in it the word is left, the loop ends behind the
last digit if and only if the whole run is in range. -/
theorem Cursor.digits_eq (start : Nat) {value : Nat} (hv : value ≤ maxMagnitude) (c : Cursor) :
    c.digits start value =
      (checkRange start (Nat.ofDigitChars 10 (c.numeral.map Cell.char) value)).map
        fun value => ((value : Int), c.behindNumeral) := by
  -- on the digits that are left; the accumulator is worth those that were read
  induction hn : c.numeral generalizing c value with
  | nil =>
    rcases c.atNoDigit_or with h | ⟨cell, hp, hd⟩
    · rw [h.digits_eq, h.behindNumeral_eq, List.map_nil, Nat.ofDigitChars_nil, checkRange_of_le hv]
      rfl
    · rw [numeral_of_digit hp hd] at hn
      cases hn
  | cons cell run ih =>
    rcases c.atNoDigit_or with h | ⟨first, hp, hd⟩
    · rw [h.numeral_eq_nil] at hn
      cases hn
    · rw [numeral_of_digit hp hd] at hn
      obtain ⟨rfl, hrun⟩ := List.cons.inj hn
      rw [digits_of_digit hp hd, pushDigit?_natCast, List.map_cons, checkRange_cons, extend,
        behindNumeral_of_digit hp hd]
      by_cases hb : 10 * value + digitValue first.char ≤ maxMagnitude
      · rw [if_pos hb, if_pos hb]
        exact ih hb c.advance hrun
      · rw [if_neg hb, if_neg hb]
        rfl

theorem Cursor.integer_of_digit {c : Cursor} {first : Cell} (h : c.peek = some first)
    (hd : first.char.isDigit = true) :
    c.integer = (checkRange first.column (numeralValue c.numeral)).map
      fun value => (some ↑value, c.behindNumeral) := by
  have hdigits := digits_eq first.column (Nat.zero_le maxMagnitude) c
  rw [Int.natCast_zero] at hdigits
  simp only [integer, h, if_pos hd, hdigits, numeralValue]
  cases checkRange first.column _ <;> rfl

theorem Cursor.AtNoDigit.integer_eq {c : Cursor} (h : c.AtNoDigit) : c.integer = .ok (none, c) := by
  rw [integer]
  cases hp : c.peek with
  | none => rfl
  | some cell => simp only [h cell hp, Bool.false_eq_true, if_false]

end Exactness

/-- A run of digits is read exactly if its value is in range, and is refused at its first digit if
it is not: by the loop over positions, and by the scan where a coefficient or an exponent may start.
Where no digit stands there is no number, and the cursor stays. -/
theorem Cursor.integer_exact (c : Cursor) :
    (∀ first, c.peek = some first → first.char.isDigit = true →
      let read := checkRange first.column (numeralValue c.numeral)
      c.integer = read.map (fun value => (some ↑value, c.behindNumeral)) ∧
      (∀ terms minus, Scan.run ⟨terms, .idle minus⟩ c.numeral =
        read.map fun value => ⟨terms, .coefficient minus.isSome first.column value⟩) ∧
      ∀ terms coeff caret, Scan.run ⟨terms, .caret coeff caret⟩ c.numeral =
        read.map fun value => ⟨terms, .exponent coeff first.column value⟩) ∧
    (c.AtNoDigit → c.integer = .ok (none, c)) := by
  refine ⟨fun first h hd => ⟨integer_of_digit h hd, ?_, ?_⟩, AtNoDigit.integer_eq⟩
  all_goals
    have hdigits : ∀ digit ∈ first :: c.advance.numeral, digit.char.isDigit = true :=
      numeral_of_digit h hd ▸ fun _ => isDigit_of_mem_numeral
    have hsymbol := Cell.symbol_of_isDigit hd
    rw [numeral_of_digit h hd]
  · intro terms minus
    refine Scan.run_numeralCells (readsDigits_coefficient _ _) hdigits ?_ terms
    cases minus <;> simp only [Mode.step.eq_def, hsymbol]
  · intro terms coeff caret
    refine Scan.run_numeralCells (readsDigits_exponent _ _) hdigits ?_ terms
    simp only [Mode.step.eq_def, hsymbol]

/-- Zeros and a blank stand in front of the greatest number of the word, and of the next one. -/
theorem Cursor.integer_exact_at_limits :
    let greatest := MonicFactor.cells 1 "x^0 09223372036854775807".toList
    let above := MonicFactor.cells 1 "x^0 09223372036854775808".toList
    integer ⟨greatest, 2⟩ = .ok (some 9223372036854775807, ⟨greatest, 23⟩) ∧
      integer ⟨above, 2⟩ = .error (.outOfRange 3) ∧
      integer ⟨above, 0⟩ = .ok (none, ⟨above, 0⟩) := by
  intro greatest above
  have hgreatest := ((integer_exact ⟨greatest, 2⟩).1 ⟨3, '0'⟩ rfl rfl).1
  have habove := ((integer_exact ⟨above, 2⟩).1 ⟨3, '0'⟩ rfl rfl).1
  refine ⟨hgreatest.trans rfl, habove.trans rfl, (integer_exact ⟨above, 0⟩).2 ?_⟩
  rintro cell hp
  cases hp
  rfl

end MonicFactor
