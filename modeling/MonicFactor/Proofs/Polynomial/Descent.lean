import MonicFactor.Proofs.Polynomial.Cursor
import MonicFactor.Proofs.Polynomial.Joined

/-! A term read by descent: a cursor looks at one character at a time and moves on, in word
arithmetic. What the descent takes for granted it checks, and it breaks off where a check fails.
No check fails, and the descent refuses and accepts what the scan does. -/

namespace MonicFactor

/-- What a descent takes for granted. -/
inductive Breach
  /-- A term is asked for where nothing is left. -/
  | nothingLeft
  /-- No number is read where a digit was seen. -/
  | numberMissing
  | exponentOutOfRange (value : Int)
  | productOutOfRange (sign value : Int)
  | indexOutOfRange (index length : Nat)
  /-- Characters are left after as many turns as there were characters. -/
  | turnsUsedUp
deriving DecidableEq, Repr

inductive Stop
  | refused (error : PolynomialError)
  | broken (breach : Breach)
deriving DecidableEq, Repr

def liftFormat {α : Type} (result : Except FormatError α) : Except Stop α :=
  result.mapError fun e => .refused (.format e)

def refuse {α : Type} (e : FormatError) : Except Stop α := .error (.refused (.format e))

def signedProduct (sign value : Int) : Except Stop Int :=
  match toWord? (sign * value) with
  | some n => .ok n
  | none => .error (.broken (.productOutOfRange sign value))

/-- An exponent as an unsigned 64-bit number. -/
def toExponent (value : Int) : Except Stop Nat :=
  if 0 ≤ value ∧ value < 0x10000000000000000 then .ok value.toNat
  else .error (.broken (.exponentOutOfRange value))

namespace Cursor

/-- The column of the given symbol, if it stands at the cursor. -/
def columnOf? (c : Cursor) (symbol : Symbol) : Option Nat :=
  c.peek.bind fun cell => if cell.symbol = symbol then some cell.column else none

/-- The exponent behind a caret. -/
def power (caret : Nat) (c : Cursor) : Except Stop (Nat × Cursor) :=
  match c.peek with
  | none => refuse (.missingExponent caret)
  | some first =>
    match first.symbol with
    | .digit _ => do
      let (value, c) ← liftFormat c.integer
      match value with
      | none => .error (.broken .numberMissing)
      | some value =>
        match c.columnOf? .dot with
        | some _ => refuse (.nonIntegerExponent first.column)
        | none => (toExponent value).map fun exponent => (exponent, c)
    | .minus | .dot => refuse (.nonIntegerExponent first.column)
    | _ => refuse (.missingExponent caret)

/-- The exponent behind `x`, which is one unless a caret follows. -/
def exponent (c : Cursor) : Except Stop (Nat × Cursor) :=
  match c.columnOf? .caret with
  | some caret => c.advance.power caret
  | none => .ok (1, c)

/-- The column of a star, which is passed if it stands behind a coefficient. -/
def passStar (coefficient : Option Int) (c : Cursor) : Option Nat × Cursor :=
  match coefficient, c.columnOf? .star with
  | some _, some column => (some column, c.advance)
  | _, _ => (none, c)

/-- A term that does not go on with `x` is its coefficient, unless a star stands behind that. -/
def constant (sign : Int) (coefficient : Option Int) (star : Option Nat) (c : Cursor) :
    Except Stop (Term × Cursor) :=
  match star, coefficient, c.peek with
  | some column, _, _ => refuse (.missingVariable column)
  | none, some value, _ => (signedProduct sign value).map fun n => (⟨n, 0⟩, c)
  | none, none, some cell => refuse (.unexpectedCharacter cell.char cell.column)
  | none, none, none => .error (.broken .nothingLeft)

/-- A term behind `x`. -/
def variableTerm (sign : Int) (coefficient : Option Int) (c : Cursor) :
    Except Stop (Term × Cursor) := do
  let (exponent, c) ← c.exponent
  (signedProduct sign (coefficient.getD 1)).map fun n => (⟨n, exponent⟩, c)

/-- A term behind its coefficient and star. -/
def monomial (sign : Int) (coefficient : Option Int) (star : Option Nat) (c : Cursor) :
    Except Stop (Term × Cursor) :=
  match c.peek with
  | none => c.constant sign coefficient star
  | some cell =>
    match cell.symbol with
    | .x => c.advance.variableTerm sign coefficient
    | .caret =>
      if star.isNone ∧ coefficient.isSome then refuse (.exponentWithoutVariable cell.column)
      else c.constant sign coefficient star
    | .letter => refuse (.unsupportedVariable cell.char cell.column)
    | _ => c.constant sign coefficient star

/-- A term behind its coefficient. -/
def starred (sign : Int) (coefficient : Option Int) (c : Cursor) : Except Stop (Term × Cursor) :=
  match c.columnOf? .dot with
  | some column => refuse (.nonIntegerCoefficient column)
  | none =>
    let (star, c) := c.passStar coefficient
    c.monomial sign coefficient star

def term (sign : Int) (c : Cursor) : Except Stop (Term × Cursor) := do
  let (coefficient, c) ← liftFormat c.integer
  c.starred sign coefficient

/-- Behind a term the text ends or a sign stands. -/
def separator (c : Cursor) : Except FormatError Unit :=
  match c.peek with
  | none => .ok ()
  | some cell =>
    match cell.symbol with
    | .plus | .minus => .ok ()
    | _ => .error cell.refusal

end Cursor

section Moves

/-- The cursor moves on in one text, and not past its end. -/
structure Cursor.Reaches (c next : Cursor) : Prop where
  cells_eq : next.cells = c.cells
  pos_le : c.pos ≤ next.pos
  pos_le_length : c.pos ≤ c.cells.length → next.pos ≤ c.cells.length

theorem Cursor.Reaches.refl (c : Cursor) : c.Reaches c := ⟨rfl, Nat.le_refl _, id⟩

theorem Cursor.Reaches.trans {c mid next : Cursor} (h : c.Reaches mid) (hn : mid.Reaches next) :
    c.Reaches next where
  cells_eq := hn.cells_eq.trans h.cells_eq
  pos_le := Nat.le_trans h.pos_le hn.pos_le
  pos_le_length hc := by
    have hmid := hn.pos_le_length
    rw [h.cells_eq] at hmid
    exact hmid (h.pos_le_length hc)

theorem Cursor.pos_lt_length {c : Cursor} {cell : Cell} (h : c.peek = some cell) :
    c.pos < c.cells.length := (List.getElem?_eq_some_iff.mp h).1

theorem Cursor.reaches_advance {c : Cursor} {cell : Cell} (h : c.peek = some cell) :
    c.Reaches c.advance := ⟨rfl, Nat.le_succ _, fun _ => pos_lt_length h⟩

theorem Cursor.rest_behindNumeral (c : Cursor) : c.rest = c.numeral ++ c.behindNumeral.rest := by
  have hdrop : c.behindNumeral.rest = c.rest.drop c.numeral.length := List.drop_drop.symm
  rw [hdrop]
  exact (List.prefix_iff_eq_append.mp (List.takeWhile_prefix _)).symm

theorem Cursor.reaches_behindNumeral (c : Cursor) : c.Reaches c.behindNumeral where
  cells_eq := rfl
  pos_le := Nat.le_add_right _ _
  pos_le_length hc := by
    have hlength := congrArg List.length c.rest_behindNumeral
    rw [List.length_append, rest, List.length_drop] at hlength
    change c.pos + c.numeral.length ≤ c.cells.length
    omega

theorem Cursor.atNoDigit_behindNumeral (c : Cursor) : c.behindNumeral.AtNoDigit := by
  have happend : c.numeral ++ c.behindNumeral.rest =
      c.numeral ++ c.rest.dropWhile fun cell => cell.char.isDigit :=
    c.rest_behindNumeral.symm.trans List.takeWhile_append_dropWhile.symm
  have hhead := List.head?_dropWhile_not (fun cell : Cell => cell.char.isDigit) c.rest
  rw [← List.append_cancel_left happend, ← peek_eq_head?] at hhead
  intro cell hp
  rw [hp] at hhead
  exact hhead

end Moves

section Tracking

/-- A part of the descent against the scan that stands in a mode at the same place. Both refuse with
one error, or the part gets to a cursor further on, where the scan stands in a mode that fits the
result. So a part that is tracked is never broken. -/
inductive Cursor.Tracks {α : Type} (c : Cursor) (mode : Mode) (Fits : α → Cursor → Mode → Prop) :
    Except Stop (α × Cursor) → Prop
  | refused {e : FormatError} (h : ∀ terms, Scan.read ⟨terms, mode⟩ c.rest = .error e) :
    Tracks c mode Fits (refuse e)
  | reads {a : α} {next : Cursor} {mode' : Mode} (hr : c.Reaches next)
    (h : ∀ terms, Scan.read ⟨terms, mode⟩ c.rest = Scan.read ⟨terms, mode'⟩ next.rest)
    (ha : Fits a next mode') : Tracks c mode Fits (.ok (a, next))

variable {α β : Type} {c : Cursor} {mode mode' : Mode} {cell : Cell}
  {Fits : α → Cursor → Mode → Prop} {Fits' : β → Cursor → Mode → Prop}

theorem Cursor.Tracks.here {a : α} (h : Fits a c mode) : c.Tracks mode Fits (.ok (a, c)) :=
  .reads (.refl c) (fun _ => rfl) h

theorem Cursor.Tracks.bind {result : Except Stop (α × Cursor)}
    {f : α × Cursor → Except Stop (β × Cursor)} (h : c.Tracks mode Fits result)
    (hf : ∀ a next mode', c.Reaches next → Fits a next mode' →
      next.Tracks mode' Fits' (f (a, next))) :
    c.Tracks mode Fits' (result >>= f) := by
  cases h with
  | refused h => exact .refused h
  | @reads a next mode' hr h ha =>
    have hnext := hf a next mode' hr ha
    change c.Tracks mode Fits' (f (a, next))
    generalize f (a, next) = behind at hnext
    cases hnext with
    | refused hn => exact .refused fun terms => (h terms).trans (hn terms)
    | reads hr' hn hb => exact .reads (hr.trans hr') (fun terms => (h terms).trans (hn terms)) hb

theorem Scan.read_step (hp : c.peek = some cell) (hs : mode.step cell = .ok (none, mode'))
    (terms : List Term) :
    Scan.read ⟨terms, mode⟩ c.rest = Scan.read ⟨terms, mode'⟩ c.advance.rest := by
  rw [Cursor.rest_of_peek hp, read_cons, step, hs]
  rfl

theorem Cursor.Tracks.advance (hp : c.peek = some cell) (hs : mode.step cell = .ok (none, mode'))
    {result : Except Stop (α × Cursor)} (h : c.advance.Tracks mode' Fits result) :
    c.Tracks mode Fits result := by
  have hread := Scan.read_step hp hs
  cases h with
  | refused h => exact .refused fun terms => (hread terms).trans (h terms)
  | reads hr h ha =>
    exact .reads ((reaches_advance hp).trans hr) (fun terms => (hread terms).trans (h terms)) ha

theorem Cursor.Tracks.refused_step {e : FormatError} (hp : c.peek = some cell)
    (hs : mode.step cell = .error e) : c.Tracks mode Fits (refuse e) := by
  refine .refused fun terms => ?_
  rw [rest_of_peek hp, Scan.read_cons, Scan.step, hs]
  rfl

theorem Cursor.Tracks.refused_finish {e : FormatError} (hp : c.peek = none)
    (hs : mode.finish = .error e) : c.Tracks mode Fits (refuse e) := by
  refine .refused fun terms => ?_
  rw [rest_eq_nil hp]
  change Scan.finish ⟨terms, mode⟩ = .error e
  rw [Scan.finish, hs]
  rfl

end Tracking

section Parts

variable {c : Cursor} {mode : Mode} {cell : Cell} {n : Nat}

theorem Cursor.columnOf?_eq_none_iff {symbol : Symbol} :
    c.columnOf? symbol = none ↔ ∀ cell, c.peek = some cell → cell.symbol ≠ symbol := by
  rw [columnOf?]
  cases c.peek <;> simp

theorem Cursor.columnOf?_eq_some {symbol : Symbol} {column : Nat}
    (h : c.columnOf? symbol = some column) :
    ∃ cell, c.peek = some cell ∧ cell.symbol = symbol ∧ cell.column = column := by
  obtain ⟨cell, hp, hc⟩ := Option.bind_eq_some_iff.mp h
  rw [Option.ite_none_right_eq_some, Option.some.injEq] at hc
  exact ⟨cell, hp, hc⟩

theorem Cell.isDigit_of_symbol {digit : Nat} (h : cell.symbol = .digit digit) :
    cell.char.isDigit = true := (cell.describes h).1

theorem Cursor.AtNoDigit.symbol_ne (h : c.AtNoDigit) (hp : c.peek = some cell) (digit : Nat) :
    cell.symbol ≠ .digit digit := by
  intro hs
  have hd := h cell hp
  rw [Cell.isDigit_of_symbol hs] at hd
  cases hd

/-- A sign never takes a number in range out of the word. -/
theorem signedProduct_of_le (hn : n ≤ maxMagnitude) (negative : Bool) :
    signedProduct (if negative then -1 else 1) n = .ok (signed negative n) := by
  have hfits : FitsWord (signed negative n) := by
    unfold maxMagnitude at hn
    cases negative <;> simp only [FitsWord, signed] <;> omega
  rw [signedProduct, ← signed_eq, toWord?, if_pos hfits]

theorem toExponent_of_le (hn : n ≤ maxMagnitude) : toExponent n = .ok n := by
  have hrange : 0 ≤ (n : Int) ∧ (n : Int) < 0x10000000000000000 := by
    unfold maxMagnitude at hn
    omega
  rw [toExponent, if_pos hrange, Int.toNat_natCast]

/-- The number behind the cursor, and the mode of the scan behind it. -/
def Cursor.GivesNumber (c : Cursor) (mode : Nat → Mode) (value : Option Int) (next : Cursor)
    (mode' : Mode) : Prop :=
  ∃ n : Nat, n ≤ maxMagnitude ∧ value = some ↑n ∧ next = c.behindNumeral ∧ mode' = mode n

theorem Cursor.tracks_integer {start : Nat} {next : Nat → Mode} (hp : c.peek = some cell)
    (hd : cell.char.isDigit = true) (hstart : start = cell.column)
    (hr : ReadsDigits start next)
    (hfirst : mode.step cell = .ok (none, next (digitValue cell.char))) :
    c.Tracks mode (c.GivesNumber next) (liftFormat c.integer) := by
  have hdigits : ∀ digit ∈ cell :: c.advance.numeral, digit.char.isDigit = true :=
    numeral_of_digit hp hd ▸ fun _ => isDigit_of_mem_numeral
  have hrun := Scan.run_numeralCells hr hdigits hfirst
  have hread (terms : List Term) : Scan.read ⟨terms, mode⟩ c.rest =
      (checkRange start (numeralValue c.numeral)).map (fun value => Scan.mk terms (next value))
        >>= fun scan => scan.read c.behindNumeral.rest := by
    rw [← numeral_of_digit hp hd] at hrun
    rw [c.rest_behindNumeral, Scan.read_append, hrun]
  rw [integer_of_digit hp hd, ← hstart]
  unfold checkRange at hread ⊢
  by_cases hle : numeralValue c.numeral ≤ maxMagnitude
  · simp only [if_pos hle] at hread ⊢
    exact .reads c.reaches_behindNumeral hread ⟨_, hle, rfl, rfl, rfl⟩
  · simp only [if_neg hle] at hread ⊢
    exact .refused hread

/-- The scan is behind the whole term, as far as the cursor can see. -/
def Mode.Completes (mode : Mode) (term : Term) (c : Cursor) : Prop :=
  match c.peek with
  | none => mode.finish = .ok (some term)
  | some cell => mode.step cell = cell.close term

theorem Mode.completes_exponent {coeff : Int} {start : Nat} (h : c.AtNoDigit)
    (hdot : c.columnOf? .dot = none) : (exponent coeff start n).Completes ⟨coeff, n⟩ c := by
  rw [Completes]
  cases hp : c.peek with
  | none => rfl
  | some cell =>
    have hdigit := h.symbol_ne hp
    have hne := Cursor.columnOf?_eq_none_iff.mp hdot cell hp
    cases hs : cell.symbol with
    | digit digit => exact absurd hs (hdigit digit)
    | dot => exact absurd hs hne
    | _ => simp only [step.eq_def, hs]

theorem Cursor.tracks_power (coeff : Int) (caret : Nat) :
    c.Tracks (.caret coeff caret) (fun exponent next mode => mode.Completes ⟨coeff, exponent⟩ next)
      (c.power caret) := by
  unfold power
  cases hp : c.peek with
  | none => exact .refused_finish hp rfl
  | some first =>
    dsimp only
    cases hs : first.symbol with
    | digit digit =>
      have hd := Cell.isDigit_of_symbol hs
      have hfirst : (Mode.caret coeff caret).step first =
          .ok (none, .exponent coeff first.column (digitValue first.char)) := by
        simp only [Mode.step.eq_def, Cell.symbol_of_isDigit hd]
      have hdigits := readsDigits_exponent coeff first.column
      refine Tracks.bind (tracks_integer hp hd rfl hdigits hfirst) ?_
      rintro _ next _ - ⟨n, hn, rfl, rfl, rfl⟩
      cases hdot : c.behindNumeral.columnOf? .dot with
      | none =>
        simp only [toExponent_of_le hn]
        exact .here (Mode.completes_exponent c.atNoDigit_behindNumeral hdot)
      | some column =>
        obtain ⟨dot, hpd, hsd, -⟩ := columnOf?_eq_some hdot
        refine .refused_step hpd ?_
        simp only [Mode.step.eq_def, hsd]
    | _ =>
      refine .refused_step hp ?_
      simp only [Mode.step.eq_def, hs]

theorem Cursor.tracks_exponent (coeff : Int) :
    c.Tracks (.base coeff) (fun exponent next mode => mode.Completes ⟨coeff, exponent⟩ next)
      c.exponent := by
  rw [exponent]
  cases hcaret : c.columnOf? .caret with
  | none =>
    refine .here ?_
    rw [Mode.Completes]
    cases hp : c.peek with
    | none => rfl
    | some cell =>
      have hne := columnOf?_eq_none_iff.mp hcaret cell hp
      cases hs : cell.symbol with
      | caret => exact absurd hs hne
      | _ => simp only [Mode.step.eq_def, hs]
  | some caret =>
    obtain ⟨cell, hp, hs, rfl⟩ := columnOf?_eq_some hcaret
    exact .advance hp (by simp only [Mode.step.eq_def, hs]) (tracks_power coeff cell.column)

/-- The term ends behind a position. -/
def Cursor.EndsTerm (start : Nat) (term : Term) (next : Cursor) (mode : Mode) : Prop :=
  start < next.pos ∧ mode.Completes term next

/-- Through `x` and what follows it. -/
theorem Cursor.tracks_variableTerm {start : Nat} (hstart : start ≤ c.pos)
    (hp : c.peek = some cell) {negative : Bool} (hn : n ≤ maxMagnitude)
    (hs : mode.step cell = .ok (none, .base (signed negative n))) {coefficient : Option Int}
    (hc : coefficient.getD 1 = n) :
    c.Tracks mode (EndsTerm start)
      (c.advance.variableTerm (if negative then -1 else 1) coefficient) := by
  refine .advance hp hs ((tracks_exponent _).bind fun exponent next mode hr hm => ?_)
  simp only [hc, signedProduct_of_le hn]
  exact .here ⟨Nat.lt_of_lt_of_le (Nat.lt_succ_of_le hstart) hr.pos_le, hm⟩

theorem Cursor.tracks_constant {start : Nat} (hstart : start < c.pos) {negative : Bool}
    (hn : n ≤ maxMagnitude) (hm : mode.Completes ⟨signed negative n, 0⟩ c) :
    c.Tracks mode (EndsTerm start) (c.constant (if negative then -1 else 1) (some n) none) := by
  rw [constant, signedProduct_of_le hn]
  exact .here ⟨hstart, hm⟩

theorem Cursor.constant_bare (hp : c.peek = some cell) (sign : Int) :
    c.constant sign none none = refuse (.unexpectedCharacter cell.char cell.column) := by
  simp only [constant, hp]

/-- Behind a coefficient without a star. -/
theorem Cursor.tracks_monomial_coefficient {start : Nat} (hstart : start < c.pos) (negative : Bool)
    (column : Nat) (hn : n ≤ maxMagnitude) (hdigit : c.AtNoDigit)
    (hdot : c.columnOf? .dot = none) (hstar : c.columnOf? .star = none) :
    c.Tracks (.coefficient negative column n) (EndsTerm start)
      (c.monomial (if negative then -1 else 1) (some n) none) := by
  unfold monomial
  cases hp : c.peek with
  | none => exact tracks_constant hstart hn (by simp only [Mode.Completes, hp, Mode.finish])
  | some cell =>
    dsimp only
    cases hs : cell.symbol with
    | digit digit => exact absurd hs (hdigit.symbol_ne hp digit)
    | dot => exact absurd hs (columnOf?_eq_none_iff.mp hdot cell hp)
    | star => exact absurd hs (columnOf?_eq_none_iff.mp hstar cell hp)
    | x =>
      refine tracks_variableTerm (Nat.le_of_lt hstart) hp hn ?_ rfl
      simp only [Mode.step.eq_def, hs]
    | caret =>
      refine .refused_step hp ?_
      simp only [Mode.step.eq_def, hs]
    | letter =>
      refine .refused_step hp ?_
      simp only [Mode.step.eq_def, hs, Cell.close, Cell.refusal]
    | plus | minus | other =>
      refine tracks_constant hstart hn ?_
      simp only [Mode.Completes, hp, Mode.step.eq_def, hs]

/-- Behind a coefficient and a star. -/
theorem Cursor.tracks_monomial_star {start : Nat} (hstart : start < c.pos) (negative : Bool)
    (column : Nat) (hn : n ≤ maxMagnitude) :
    c.Tracks (.star (signed negative n) column) (EndsTerm start)
      (c.monomial (if negative then -1 else 1) (some n) (some column)) := by
  unfold monomial
  cases hp : c.peek with
  | none => exact .refused_finish hp rfl
  | some cell =>
    dsimp only
    cases hs : cell.symbol with
    | x =>
      refine tracks_variableTerm (Nat.le_of_lt hstart) hp hn ?_ rfl
      simp only [Mode.step.eq_def, hs]
    | letter =>
      refine .refused_step hp ?_
      simp only [Mode.step.eq_def, hs, Cell.refusal]
    | _ =>
      refine .refused_step hp ?_
      simp only [Mode.step.eq_def, hs]

/-- Without a coefficient, where something is left that is no sign. -/
theorem Cursor.tracks_monomial_bare {minus : Option Nat} (hp : c.peek = some cell)
    (hplus : cell.symbol ≠ .plus) (hminus : cell.symbol ≠ .minus) (hdigit : c.AtNoDigit)
    (hdot : c.columnOf? .dot = none) :
    c.Tracks (.idle minus) (EndsTerm c.pos)
      (c.monomial (if minus.isSome then -1 else 1) none none) := by
  rw [monomial, constant_bare hp, hp]
  dsimp only
  cases hs : cell.symbol with
  | plus => exact absurd hs hplus
  | minus => exact absurd hs hminus
  | digit digit => exact absurd hs (hdigit.symbol_ne hp digit)
  | dot => exact absurd hs (columnOf?_eq_none_iff.mp hdot cell hp)
  | x =>
    have hone : (1 : Nat) ≤ maxMagnitude := by decide
    refine tracks_variableTerm (Nat.le_refl _) hp hone ?_ rfl
    cases minus <;> simp only [Mode.step.eq_def, hs, Option.isSome]
  | star | caret | letter | other =>
    refine .refused_step hp ?_
    cases minus <;> simp only [Mode.step.eq_def, hs, Cell.refusal]

theorem Cursor.tracks_starred_coefficient {start : Nat} (hstart : start < c.pos) (negative : Bool)
    (column : Nat) (hn : n ≤ maxMagnitude) (hdigit : c.AtNoDigit) :
    c.Tracks (.coefficient negative column n) (EndsTerm start)
      (c.starred (if negative then -1 else 1) (some n)) := by
  unfold starred
  cases hdot : c.columnOf? .dot with
  | some dot =>
    obtain ⟨cell, hp, hs, rfl⟩ := columnOf?_eq_some hdot
    refine .refused_step hp ?_
    simp only [Mode.step.eq_def, hs]
  | none =>
    unfold passStar
    cases hstar : c.columnOf? .star with
    | none => exact tracks_monomial_coefficient hstart negative column hn hdigit hdot hstar
    | some star =>
      obtain ⟨cell, hp, hs, rfl⟩ := columnOf?_eq_some hstar
      have hadvance : start < c.advance.pos := Nat.lt_succ_of_lt hstart
      refine .advance hp ?_ (tracks_monomial_star hadvance negative cell.column hn)
      simp only [Mode.step.eq_def, hs]

theorem Cursor.tracks_starred_bare {minus : Option Nat} (hp : c.peek = some cell)
    (hplus : cell.symbol ≠ .plus) (hminus : cell.symbol ≠ .minus) (hdigit : c.AtNoDigit) :
    c.Tracks (.idle minus) (EndsTerm c.pos) (c.starred (if minus.isSome then -1 else 1) none) := by
  unfold starred
  cases hdot : c.columnOf? .dot with
  | some dot =>
    obtain ⟨first, hfirst, hs, rfl⟩ := columnOf?_eq_some hdot
    refine .refused_step hfirst ?_
    cases minus <;> simp only [Mode.step.eq_def, hs]
  | none => exact tracks_monomial_bare hp hplus hminus hdigit hdot

/-- A term is tracked from the mode in front of it, in which at most a minus waits. -/
theorem Cursor.tracks_term {minus : Option Nat} (hp : c.peek = some cell)
    (hplus : cell.symbol ≠ .plus) (hminus : cell.symbol ≠ .minus) :
    c.Tracks (.idle minus) (EndsTerm c.pos) (c.term (if minus.isSome then -1 else 1)) := by
  unfold term
  rcases c.atNoDigit_or with hnone | ⟨first, hfirst, hd⟩
  · rw [hnone.integer_eq]
    exact tracks_starred_bare hp hplus hminus hnone
  · have hstep : (Mode.idle minus).step first =
        .ok (none, .coefficient minus.isSome first.column (digitValue first.char)) := by
      cases minus <;> simp only [Mode.step.eq_def, Cell.symbol_of_isDigit hd]
    refine Tracks.bind (tracks_integer hfirst hd rfl (readsDigits_coefficient _ _) hstep) ?_
    rintro _ next _ - ⟨n, hn, rfl, rfl, rfl⟩
    have hbehind : c.pos < c.behindNumeral.pos := by
      rw [behindNumeral, numeral_of_digit hfirst hd]
      exact Nat.lt_add_of_pos_right (Nat.succ_pos _)
    exact tracks_starred_coefficient hbehind _ _ hn c.atNoDigit_behindNumeral

/-- Behind a whole term the scan goes on as from the separator, with the term among those it has. -/
theorem Mode.Completes.read_eq {term : Term} (h : mode.Completes term c) (terms : List Term) :
    Scan.read ⟨terms, mode⟩ c.rest =
      c.separator >>= fun _ => Scan.read ⟨term :: terms, .idle none⟩ c.rest := by
  unfold Completes at h
  unfold Cursor.separator
  cases hp : c.peek with
  | none =>
    rw [hp] at h
    rw [Cursor.rest_eq_nil hp]
    change Scan.finish ⟨terms, mode⟩ = .ok (term :: terms).reverse
    rw [Scan.finish, h]
    rfl
  | some cell =>
    rw [hp] at h
    rw [Cursor.rest_of_peek hp, Scan.read_cons, Scan.read_cons, Scan.step, Scan.step, h, Cell.close]
    dsimp only
    cases hs : cell.symbol with
    | plus | minus =>
      simp only [step.eq_def, hs]
      rfl
    | _ => rfl

end Parts

end MonicFactor
