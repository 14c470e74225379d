import MonicFactor.Proofs.Polynomial.Column
import MonicFactor.Proofs.Polynomial.Stem

/-! How a scan goes through the text of a derivation: behind each part of the text the scan could
finish with the terms of the part. -/

namespace MonicFactor

def Symbol.Describes (c : Char) : Symbol → Prop
  | .plus => c = '+'
  | .minus => c = '-'
  | .star => c = '*'
  | .caret => c = '^'
  | .dot => c = '.'
  | .x => c = 'x'
  | .digit value => c.isDigit = true ∧ digitValue c = value
  | .letter => c ≠ 'x' ∧ c.isDigit = false ∧ isLetter c = true
  | .other => c ∉ ['+', '-', '*', '^', '.', 'x'] ∧ c.isDigit = false ∧ isLetter c = false

theorem Cell.describes_symbol (cell : Cell) : cell.symbol.Describes cell.char := by
  unfold symbol
  split
  case h_7 =>
    by_cases hd : cell.char.isDigit = true
    · simp [hd, Symbol.Describes]
    · by_cases hl : isLetter cell.char = true
      · simp_all [Symbol.Describes]
      · simp_all [Symbol.Describes]
  all_goals assumption

theorem Cell.describes {cell : Cell} {symbol : Symbol} (h : cell.symbol = symbol) :
    symbol.Describes cell.char := h ▸ cell.describes_symbol

theorem Cell.symbol_of_char {cell : Cell} {c : Char} (h : cell.char = c) :
    cell.symbol = (Cell.mk 0 c).symbol := by
  subst h
  rfl

theorem Cell.symbol_eq_plus_iff (cell : Cell) : cell.symbol = .plus ↔ cell.char = '+' :=
  ⟨fun h => cell.describes h, fun h => symbol_of_char h⟩

theorem Cell.symbol_eq_minus_iff (cell : Cell) : cell.symbol = .minus ↔ cell.char = '-' :=
  ⟨fun h => cell.describes h, fun h => symbol_of_char h⟩

theorem Cell.symbol_of_isDigit {cell : Cell} (h : cell.char.isDigit = true) :
    cell.symbol = .digit (digitValue cell.char) := by
  have hne : ∀ c : Char, c.isDigit = false → cell.char ≠ c := by
    rintro c hc rfl
    simp [hc] at h
  unfold symbol
  split
  case h_7 => simp [h]
  all_goals exact absurd ‹cell.char = _› (hne _ (by decide))

/-- A mode that reads the further digits of the number that starts at a column. -/
def ReadsDigits (start : Nat) (mode : Nat → Mode) : Prop :=
  ∀ value digit cell, cell.symbol = .digit digit →
    (mode value).step cell = (extend start value digit).map fun value => (none, mode value)

theorem readsDigits_coefficient (negative : Bool) (start : Nat) :
    ReadsDigits start (.coefficient negative start) := by
  intro value digit cell h
  simp only [Mode.step.eq_def, h]

theorem readsDigits_exponent (coeff : Int) (start : Nat) :
    ReadsDigits start (.exponent coeff start) := by
  intro value digit cell h
  simp only [Mode.step.eq_def, h]

/-- A number that is too large is refused at the column where it starts. -/
def checkRange (start value : Nat) : Except FormatError Nat :=
  if value ≤ maxMagnitude then .ok value else .error (.outOfRange start)

theorem checkRange_of_le {start value : Nat} (h : value ≤ maxMagnitude) :
    checkRange start value = .ok value := if_pos h

/-- A run that starts with a digit behind which it is too large is too large. -/
theorem checkRange_cons (start value : Nat) (c : Char) (ds : List Char) :
    checkRange start (Nat.ofDigitChars 10 (c :: ds) value) =
      extend start value (digitValue c) >>= fun value =>
        checkRange start (Nat.ofDigitChars 10 ds value) := by
  have hle := le_ofDigitChars ds (10 * value + digitValue c)
  rw [ofDigitChars_cons_digitValue, extend]
  by_cases hb : 10 * value + digitValue c ≤ maxMagnitude
  · rw [if_pos hb]
    rfl
  · rw [if_neg hb, checkRange, if_neg fun hh => hb (Nat.le_trans hle hh)]
    rfl

/-- However many zeros lead a number, and wherever in it the limit is passed, a run of digits is
read if and only if its value is not too large. -/
theorem Scan.run_digits {start : Nat} {mode : Nat → Mode} (h : ReadsDigits start mode)
    (terms : List Term) (ds : List Cell) (hd : ∀ cell ∈ ds, cell.char.isDigit = true)
    (value : Nat) (hv : value ≤ maxMagnitude) :
    Scan.run ⟨terms, mode value⟩ ds =
      (checkRange start (Nat.ofDigitChars 10 (ds.map Cell.char) value)).map
        fun value => ⟨terms, mode value⟩ := by
  induction ds generalizing value with
  | nil =>
    rw [List.map_nil, Nat.ofDigitChars_nil, checkRange_of_le hv]
    rfl
  | cons cell ds ih =>
    have hs := h value _ cell (Cell.symbol_of_isDigit (hd cell (by simp)))
    rw [List.map_cons, checkRange_cons, run_cons, step, hs, extend]
    by_cases hb : 10 * value + digitValue cell.char ≤ maxMagnitude
    · rw [if_pos hb]
      exact ih (fun c hc => hd c (by simp [hc])) _ hb
    · rw [if_neg hb]
      rfl

/-- What a run of digits is worth. -/
def numeralValue (run : List Cell) : Nat := Nat.ofDigitChars 10 (run.map Cell.char) 0

theorem digitValue_le_maxMagnitude {c : Char} (h : c.isDigit = true) :
    digitValue c ≤ maxMagnitude := by
  rw [← Numeral.value_single c h]
  exact (Numeral.single c h).le_maxMagnitude

/-- A number is read to its end from the mode in front of it, which its first digit leaves. -/
theorem Scan.run_numeralCells {start : Nat} {first : Mode} {mode : Nat → Mode}
    (hr : ReadsDigits start mode) {cell : Cell} {run : List Cell}
    (hd : ∀ digit ∈ cell :: run, digit.char.isDigit = true)
    (hfirst : first.step cell = .ok (none, mode (digitValue cell.char))) (terms : List Term) :
    Scan.run ⟨terms, first⟩ (cell :: run) =
      (checkRange start (numeralValue (cell :: run))).map fun value => ⟨terms, mode value⟩ := by
  obtain ⟨hcell, hrun⟩ := List.forall_mem_cons.mp hd
  have hdigits := run_digits hr terms run hrun _ (digitValue_le_maxMagnitude hcell)
  have hstep : Scan.run ⟨terms, first⟩ (cell :: run) =
      Scan.run ⟨terms, mode (digitValue cell.char)⟩ run := by
    rw [run_cons, step, hfirst]
    rfl
  rw [hstep, hdigits, numeralValue, List.map_cons, ofDigitChars_cons_digitValue, Nat.mul_zero,
    Nat.zero_add]

theorem Mode.step_plus (mode : Mode) {cell : Cell} (h : cell.symbol = .plus) :
    mode.step cell = mode.finish.map fun last => (last, .idle none) := by
  cases mode with
  | idle minus => cases minus <;> simp only [step.eq_def, h] <;> rfl
  | _ =>
    simp only [step.eq_def, h, Cell.close]
    rfl

theorem Mode.step_minus {mode : Mode} {last : Option Term} (hf : mode.finish = .ok last)
    {cell : Cell} (h : cell.symbol = .minus) :
    mode.step cell = .ok (last, .idle (some cell.column)) := by
  cases mode with
  | idle minus => cases minus <;> simp_all [step.eq_def, finish]
  | _ => simp_all [step.eq_def, finish, Cell.close]

theorem Scan.finish_eq_ok {scan : Scan} {terms : List Term} (h : scan.finish = .ok terms) :
    ∃ last, scan.mode.finish = .ok last ∧ terms.reverse = last.toList ++ scan.terms := by
  unfold finish at h
  cases hm : scan.mode.finish with
  | error e => simp [hm, Except.map] at h
  | ok last =>
    simp only [hm, Except.map, Except.ok.injEq] at h
    exact ⟨last, rfl, by simp [← h]⟩

theorem Scan.step_plus {scan : Scan} {terms : List Term} (hf : scan.finish = .ok terms)
    {cell : Cell} (h : cell.symbol = .plus) :
    scan.step cell = .ok ⟨terms.reverse, .idle none⟩ := by
  obtain ⟨last, hm, ht⟩ := finish_eq_ok hf
  simp [step, scan.mode.step_plus h, hm, ht, Except.map]

theorem Scan.step_minus {scan : Scan} {terms : List Term} (hf : scan.finish = .ok terms)
    {cell : Cell} (h : cell.symbol = .minus) :
    scan.step cell = .ok ⟨terms.reverse, .idle (some cell.column)⟩ := by
  obtain ⟨last, hm, ht⟩ := finish_eq_ok hf
  simp [step, Mode.step_minus hm h, ht, Except.map]

/-- Behind the text the scan could finish, with the given terms. -/
def Scan.Reads (scan : Scan) (cs : List Char) (terms : List Term) : Prop :=
  scan.read (uncolumned cs) = .ok terms

theorem Scan.run_uncolumned_append {scan next : Scan} {before : List Char}
    (h : scan.run (uncolumned before) = .ok next) (after : List Char) :
    scan.run (uncolumned (before ++ after)) = next.run (uncolumned after) := by
  rw [uncolumned_append, run_append, h]
  rfl

theorem Scan.Reads.of_run {scan next : Scan} {before after : List Char} {terms : List Term}
    (h : scan.run (uncolumned before) = .ok next) (hn : next.Reads after terms) :
    scan.Reads (before ++ after) terms := by
  rw [Reads, uncolumned_append, read_append, h]
  exact hn

theorem Scan.Reads.append {scan : Scan} {before after : List Char} {terms more : List Term}
    (h : scan.Reads before terms)
    (hn : ∀ next : Scan, next.finish = .ok terms → next.Reads after more) :
    scan.Reads (before ++ after) more := by
  obtain ⟨next, hr, hf⟩ := read_eq_ok_iff.mp h
  exact .of_run hr (hn next hf)

theorem Scan.reads_nil {scan : Scan} {terms : List Term} (h : scan.finish = .ok terms) :
    scan.Reads [] terms := h

theorem Scan.run_pluses (terms : List Term) (n : Nat) :
    Scan.run ⟨terms, .idle none⟩ (uncolumned (List.replicate n '+')) = .ok ⟨terms, .idle none⟩ := by
  induction n with
  | zero => rfl
  | succ n ih => exact ih

theorem Scan.run_plus {scan : Scan} {terms : List Term} (h : scan.finish = .ok terms) :
    scan.run (uncolumned ['+']) = .ok ⟨terms.reverse, .idle none⟩ := by
  rw [show uncolumned ['+'] = [⟨0, '+'⟩] from rfl, run_cons, step_plus h rfl]
  rfl

theorem Scan.reads_pluses {scan : Scan} {terms : List Term} (h : scan.finish = .ok terms)
    (n : Nat) : scan.Reads (List.replicate n '+') terms := by
  cases n with
  | zero => exact reads_nil h
  | succ n =>
    refine .of_run (run_plus h) (read_eq_ok_iff.mpr ⟨_, run_pluses _ n, ?_⟩)
    simp [finish, Mode.finish, Except.map]

def signMode (negative : Bool) : Mode := .idle (if negative then some 0 else none)

theorem Scan.run_sign (terms : List Term) (negative : Bool) :
    Scan.run ⟨terms, .idle none⟩ (uncolumned (signText negative)) =
      .ok ⟨terms, signMode negative⟩ := by
  cases negative <;> rfl

theorem Scan.run_separator {scan : Scan} {terms : List Term} (h : scan.finish = .ok terms)
    (separator : Separator) :
    scan.run (uncolumned separator.text) = .ok ⟨terms.reverse, signMode separator.negative⟩ := by
  cases separator with
  | minus =>
    rw [show uncolumned Separator.minus.text = [⟨0, '-'⟩] from rfl, run_cons, step_minus h rfl]
    rfl
  | pluses more negative =>
    rw [show (Separator.pluses more negative).text =
      ['+'] ++ (List.replicate more '+' ++ signText negative) from rfl]
    rw [run_uncolumned_append (run_plus h), run_uncolumned_append (run_pluses _ _), run_sign]
    rfl

theorem Scan.run_numeral {first : Mode} {mode : Nat → Mode} (hr : ReadsDigits 0 mode)
    (hfirst : ∀ c digit, (Cell.mk 0 c).symbol = .digit digit →
      first.step ⟨0, c⟩ = .ok (none, mode digit))
    (terms : List Term) (n : Numeral) :
    Scan.run ⟨terms, first⟩ (uncolumned n.digits) = .ok ⟨terms, mode n.value⟩ := by
  obtain ⟨c, ds, he⟩ := List.exists_cons_of_ne_nil n.digits_ne_nil
  have hd : ∀ cell ∈ uncolumned n.digits, cell.char.isDigit = true := by
    intro cell hc
    obtain ⟨d, hm, rfl⟩ := List.mem_map.mp hc
    exact n.isDigit d hm
  have hvalue : numeralValue (uncolumned n.digits) = n.value := by
    rw [numeralValue, map_char_uncolumned, Numeral.value]
  have hcells : uncolumned n.digits = ⟨0, c⟩ :: uncolumned ds := by
    rw [he]
    rfl
  rw [hcells] at hd hvalue ⊢
  have hs := hfirst c _ (Cell.symbol_of_isDigit (hd _ List.mem_cons_self))
  have hle : n.value ≤ maxMagnitude := n.le_maxMagnitude
  rw [run_numeralCells hr hd hs, hvalue, checkRange_of_le hle]
  rfl

theorem signMode_step_digit (negative : Bool) (c : Char) (digit : Nat)
    (h : (Cell.mk 0 c).symbol = .digit digit) :
    (signMode negative).step ⟨0, c⟩ = .ok (none, .coefficient negative 0 digit) := by
  cases negative <;> simp [signMode, Mode.step.eq_def, h]

theorem Scan.run_coefficient (terms : List Term) (negative : Bool) (n : Numeral) :
    Scan.run ⟨terms, signMode negative⟩ (uncolumned n.digits) =
      .ok ⟨terms, .coefficient negative 0 n.value⟩ :=
  run_numeral (readsDigits_coefficient negative 0) (signMode_step_digit negative) terms n

theorem Scan.run_exponent (terms : List Term) (coeff : Int) (n : Numeral) :
    Scan.run ⟨terms, .caret coeff 0⟩ (uncolumned n.digits) =
      .ok ⟨terms, .exponent coeff 0 n.value⟩ :=
  run_numeral (readsDigits_exponent coeff 0)
    (fun c digit h => by simp only [Mode.step.eq_def, h]) terms n

theorem signed_eq (negative : Bool) (value : Nat) :
    signed negative value = (if negative then -1 else 1) * (value : Int) := by
  cases negative <;> simp [signed]

theorem Scan.run_base (terms : List Term) (negative : Bool)
    (coefficient : Option (Numeral × Bool)) :
    Scan.run ⟨terms, signMode negative⟩ (uncolumned (coefficientText coefficient ++ ['x'])) =
      .ok ⟨terms, .base (signed negative (coefficient.elim 1 fun c => c.1.value))⟩ := by
  cases coefficient with
  | none => cases negative <;> rfl
  | some c =>
    obtain ⟨n, star⟩ := c
    rw [coefficientText, List.append_assoc, run_uncolumned_append (run_coefficient _ _ n)]
    cases star <;> rfl

theorem Scan.reads_exponent (terms : List Term) (coeff : Int) (exponent : Option Numeral) :
    Scan.Reads ⟨terms, .base coeff⟩ (exponentText exponent)
      (terms.reverse ++ [⟨coeff, exponent.elim 1 Numeral.value⟩]) := by
  cases exponent with
  | none => exact reads_nil (by simp [finish, Mode.finish, Except.map])
  | some n =>
    have hs : Scan.run ⟨terms, .base coeff⟩ (uncolumned ['^']) = .ok ⟨terms, .caret coeff 0⟩ := rfl
    refine .of_run hs (read_eq_ok_iff.mpr ⟨_, run_exponent _ _ n, ?_⟩)
    simp [finish, Mode.finish, Except.map]

theorem Scan.reads_monomial (terms : List Term) (negative : Bool) (m : Monomial) :
    Scan.Reads ⟨terms, signMode negative⟩ m.text (terms.reverse ++ [m.term negative]) := by
  cases m with
  | constant n =>
    refine read_eq_ok_iff.mpr ⟨_, run_coefficient terms negative n, ?_⟩
    simp [finish, Mode.finish, Except.map, Monomial.term, signed_eq]
  | power coefficient exponent =>
    have hh := reads_exponent terms
      (signed negative (coefficient.elim 1 fun c => c.1.value)) exponent
    simpa [Monomial.text, Monomial.term, signed_eq] using
      Reads.of_run (run_base terms negative coefficient) hh

theorem Scan.reads_link {scan : Scan} {terms : List Term} (h : scan.finish = .ok terms)
    (link : Separator × Monomial) : scan.Reads (linkText link) (terms ++ [linkTerm link]) := by
  have hh := reads_monomial terms.reverse link.1.negative link.2
  rw [List.reverse_reverse] at hh
  exact .of_run (run_separator h link.1) hh

theorem Scan.reads_links {scan : Scan} {terms : List Term} (h : scan.finish = .ok terms)
    (links : List (Separator × Monomial)) :
    scan.Reads (links.flatMap linkText) (terms ++ links.map linkTerm) := by
  -- a scan can end in front of every link, so the links are read one after another
  induction links generalizing scan terms with
  | nil => simpa using reads_nil h
  | cons link links ih =>
    have hh := (reads_link h link).append fun _ hn => ih hn
    simpa using hh

theorem Scan.reads_sum (s : SignedSum) : Scan.Reads ⟨[], .idle none⟩ s.text s.terms := by
  have hh := Reads.of_run (run_sign [] s.negative) (reads_monomial [] s.negative s.first)
  exact hh.append fun _ hn => reads_links hn s.rest

theorem Scan.reads_derivation (d : Derivation) : Scan.Reads ⟨[], .idle none⟩ d.text d.terms := by
  rw [Derivation.text, List.append_assoc]
  refine .of_run (run_pluses [] d.leading) ?_
  refine @Reads.append _ _ _ d.terms _ ?_ fun _ hn => reads_pluses hn d.trailing
  rw [Derivation.terms]
  cases d.sum with
  | none => exact reads_nil rfl
  | some s => exact reads_sum s

end MonicFactor
