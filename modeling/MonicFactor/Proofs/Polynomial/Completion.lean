import MonicFactor.Proofs.Polynomial.Cells
import MonicFactor.Proofs.Polynomial.Column

/-! Which expressions are the beginning of one that can be read. A scan that has met no error can
always be completed, and an error that it has met is there whatever follows. -/

namespace MonicFactor

section Waiting

/-- The column of a minus, a star or a caret behind which something has to follow yet. -/
def Mode.waitsAt : Mode → Option Nat
  | .idle minus => minus
  | .star _ column | .caret _ column => some column
  | .coefficient .. | .base _ | .exponent .. => none

/-- The column of the minus, the star or the caret, if an error says that it was left alone. -/
def FormatError.leftAt : FormatError → Option Nat
  | .danglingSign column | .missingVariable column | .missingExponent column => some column
  | _ => none

theorem FormatError.leftAt_eq_some_iff {e : FormatError} {column : Nat} :
    e.leftAt = some column ↔
      e = .missingExponent column ∨ e = .missingVariable column ∨ e = .danglingSign column := by
  cases e <;> simp [leftAt]

theorem Mode.finish_eq_error {mode : Mode} {e : FormatError} (h : mode.finish = .error e) :
    mode.waitsAt.isSome = true ∧ e.leftAt = mode.waitsAt := by
  cases mode with
  | idle minus =>
    cases minus with
    | none => cases h
    | some column =>
      cases h
      exact ⟨rfl, rfl⟩
  | star coeff column | caret coeff column =>
    cases h
    exact ⟨rfl, rfl⟩
  | coefficient negative start value | base coeff | exponent coeff start value => cases h

theorem Cell.leftAt_refusal (cell : Cell) : cell.refusal.leftAt = none := by
  unfold refusal
  split <;> rfl

/-- What an error says to be left alone was waiting in front of the character it is raised at, and
behind a character only that one can be waiting. -/
def Mode.Leaves (mode : Mode) (cell : Cell) : Except FormatError (Option Term × Mode) → Prop
  | .error e => e.leftAt = none ∨ e.leftAt = mode.waitsAt
  | .ok (_, next) => next.waitsAt = none ∨ next.waitsAt = some cell.column

theorem Mode.leaves_extend (mode : Mode) (cell : Cell) (start value digit : Nat)
    {next : Nat → Mode} (hn : ∀ n, (next n).waitsAt = none) :
    mode.Leaves cell ((extend start value digit).map fun n => (none, next n)) := by
  unfold extend
  split
  · exact .inl (hn _)
  · exact .inl rfl

theorem Mode.leaves_close (mode : Mode) (cell : Cell) (term : Term) :
    mode.Leaves cell (cell.close term) := by
  unfold Cell.close
  split
  · exact .inl rfl
  · exact .inr rfl
  · exact .inl cell.leftAt_refusal

theorem Mode.leaves_step (mode : Mode) (cell : Cell) : mode.Leaves cell (mode.step cell) := by
  rw [step.eq_def]
  generalize cell.symbol = symbol
  cases mode with
  | idle minus =>
    cases minus with
    | none =>
      cases symbol with
      | minus => exact .inr rfl
      | plus | digit digit | x | dot => exact .inl rfl
      | star | caret | letter | other => exact .inl cell.leftAt_refusal
    | some column =>
      cases symbol with
      | plus | minus => exact .inr rfl
      | digit digit | x | dot => exact .inl rfl
      | star | caret | letter | other => exact .inl cell.leftAt_refusal
  | coefficient negative start value =>
    cases symbol with
    | digit digit => exact leaves_extend _ cell start value digit fun _ => rfl
    | star => exact .inr rfl
    | x | dot | caret => exact .inl rfl
    | plus | minus | letter | other => exact leaves_close _ cell _
  | star coeff column =>
    cases symbol with
    | x => exact .inl rfl
    | letter => exact .inl cell.leftAt_refusal
    | _ => exact .inr rfl
  | base coeff =>
    cases symbol with
    | caret => exact .inr rfl
    | _ => exact leaves_close _ cell _
  | caret coeff column =>
    cases symbol with
    | digit digit | minus | dot => exact .inl rfl
    | _ => exact .inr rfl
  | exponent coeff start value =>
    cases symbol with
    | digit digit => exact leaves_extend _ cell start value digit fun _ => rfl
    | dot => exact .inl rfl
    | _ => exact leaves_close _ cell _

theorem Scan.run_eq_ok_waits {scan next : Scan} {cells : List Cell} {column : Nat}
    (h : scan.run cells = .ok next) (hs : scan.mode.waitsAt = none)
    (hw : next.mode.waitsAt = some column) :
    ∃ before cell, cells = before ++ [cell] ∧ cell.column = column := by
  -- from the end, since only the character that was read last can be waiting
  induction cells using List.reverseRecOn with
  | nil =>
    cases h
    rw [hs] at hw
    cases hw
  | append_singleton before cell _ =>
    rw [run_concat] at h
    cases hb : scan.run before with
    | error e =>
      rw [hb] at h
      cases h
    | ok mid =>
      rw [hb] at h
      refine ⟨before, cell, rfl, ?_⟩
      obtain ⟨last, hm⟩ := step_eq_ok h
      have hl := mid.mode.leaves_step cell
      rw [hm] at hl
      rcases hl with hn | hn
      · rw [hn] at hw
        cases hw
      · exact Option.some.inj (hn.symm.trans hw)

end Waiting

/-- What follows an expression can make it one that is read. -/
def Completable (expression : String) : Prop :=
  ∃ rest terms, readTerms (expression ++ rest) = .ok terms

theorem readTerms_append (expression rest : String) :
    readTerms (expression ++ rest) =
      Scan.run ⟨[], .idle none⟩ (cells 1 expression.toList) >>= fun scan =>
        scan.read (cells (1 + expression.toList.length) rest.toList) := by
  rw [readTerms_eq_readCells, readCells, String.toList_append, cells_append, Scan.read_append]

theorem Scan.exists_completion (scan : Scan) (column : Nat) :
    ∃ (rest : String) (terms : List Term), scan.read (cells column rest.toList) = .ok terms := by
  obtain ⟨terms, mode⟩ := scan
  -- one character is enough, or none
  cases mode with
  | idle minus =>
    cases minus with
    | none => exact ⟨"", _, rfl⟩
    | some sign => exact ⟨"x", _, rfl⟩
  | star coeff star => exact ⟨"x", _, rfl⟩
  | caret coeff caret => exact ⟨"1", _, rfl⟩
  | coefficient negative start value | base coeff | exponent coeff start value =>
    exact ⟨"", _, rfl⟩

theorem completable_of_run {expression : String} {scan : Scan}
    (h : Scan.run ⟨[], .idle none⟩ (cells 1 expression.toList) = .ok scan) :
    Completable expression := by
  obtain ⟨rest, terms, hr⟩ := scan.exists_completion (1 + expression.toList.length)
  exact ⟨rest, terms, by rw [readTerms_append, h]; exact hr⟩

theorem readTerms_append_of_run_error {expression : String} {e : FormatError}
    (h : Scan.run ⟨[], .idle none⟩ (cells 1 expression.toList) = .error e) (rest : String) :
    readTerms (expression ++ rest) = .error e := by
  rw [readTerms_append, h]
  rfl

theorem not_completable_of_run_error {expression : String} {e : FormatError}
    (h : Scan.run ⟨[], .idle none⟩ (cells 1 expression.toList) = .error e) :
    ¬Completable expression := by
  rintro ⟨rest, terms, hr⟩
  rw [readTerms_append_of_run_error h] at hr
  cases hr

theorem leftAt_of_finish {expression : String} {scan : Scan} {e : FormatError}
    (h : Scan.run ⟨[], .idle none⟩ (cells 1 expression.toList) = .ok scan)
    (hf : scan.finish = .error e) :
    ∃ column, IsLastColumn expression column ∧ e.leftAt = some column := by
  obtain ⟨hw, hl⟩ := Mode.finish_eq_error (Scan.finish_eq_error hf)
  obtain ⟨column, hcolumn⟩ := Option.isSome_iff_exists.mp hw
  exact ⟨column, isLastColumn_iff.mpr (Scan.run_eq_ok_waits h rfl hcolumn), hl.trans hcolumn⟩

theorem leftAt_of_run_error {expression : String} {e : FormatError} {column : Nat}
    (h : Scan.run ⟨[], .idle none⟩ (cells 1 expression.toList) = .error e)
    (hl : e.leftAt = some column) : ¬IsLastColumn expression column := by
  rw [isLastColumn_iff]
  rintro ⟨before', last, he, hlast⟩
  obtain ⟨before, cell, after, mid, hcells, hr, hm⟩ := Scan.run_eq_error h
  have hw : mid.mode.waitsAt = some column := by
    have hleft := mid.mode.leaves_step cell
    rw [hm] at hleft
    rcases hleft with hn | hn
    · rw [hn] at hl
      cases hl
    · exact hn.symm.trans hl
  obtain ⟨front, waiting, rfl, hwaiting⟩ := Scan.run_eq_ok_waits hr rfl hw
  -- what waits stands in front of the character that the error is raised at, and columns rise
  have hrising := cells_rising 1 expression.toList
  rw [hcells, List.pairwise_append] at hrising
  have hmem : last ∈ cell :: after := by
    have hg := congrArg List.getLast? (hcells.symm.trans he)
    rw [List.getLast?_append, Option.or_of_isSome (by simp), List.getLast?_concat] at hg
    exact List.mem_of_getLast? hg
  have hlt := hrising.2.2 waiting (by simp) last hmem
  omega

/-- Every expression either can be completed or has one error whatever follows it. One that has an
error can be completed exactly if a caret, a star or a minus at its end waits for what must follow. -/
theorem completable_or_error (expression : String) :
    (Completable expression ↔
      ¬∃ e, ∀ rest, readTerms (expression ++ rest) = .error e) ∧
    ∀ e, readTerms expression = .error e →
      (Completable expression ↔ ∃ column, IsLastColumn expression column ∧
        (e = .missingExponent column ∨ e = .missingVariable column ∨ e = .danglingSign column)) := by
  simp only [← FormatError.leftAt_eq_some_iff]
  cases h : Scan.run ⟨[], .idle none⟩ (cells 1 expression.toList) with
  | ok scan =>
    have hc := completable_of_run h
    refine ⟨iff_of_true hc ?_, fun e he => iff_of_true hc ?_⟩
    · rintro ⟨e, he⟩
      obtain ⟨rest, terms, hr⟩ := hc
      cases hr.symm.trans (he rest)
    · rw [readTerms_eq_readCells, readCells, Scan.read, h] at he
      exact leftAt_of_finish h he
  | error e =>
    have hc := not_completable_of_run_error h
    refine ⟨iff_of_false hc ?_, fun e' he => iff_of_false hc ?_⟩
    · exact not_not_intro ⟨e, readTerms_append_of_run_error h⟩
    · rw [readTerms_eq_readCells, readCells, Scan.read, h] at he
      cases he
      rintro ⟨column, hl, he⟩
      exact leftAt_of_run_error h he hl

/-- A minus at the end, behind which a term may follow, and two of them, of which the first one is
left alone. -/
theorem completable_or_error_of_minus :
    readTerms "x - " = .error (.danglingSign 3) ∧ Completable "x - " ∧
      readTerms "x--1" = .error (.danglingSign 2) ∧ ¬Completable "x--1" := by
  have hend : readTerms "x - " = .error (.danglingSign 3) := rfl
  have htwo : readTerms "x--1" = .error (.danglingSign 2) := rfl
  refine ⟨hend, ?_, htwo, ?_⟩
  · rw [(completable_or_error "x - ").2 _ hend]
    have hb : ∀ d ∈ [' '], isBlank d = true := List.all_eq_true.mp (by decide)
    exact ⟨3, ⟨['x', ' '], '-', [' '], by decide, by decide, hb, rfl⟩, .inr (.inr rfl)⟩
  · rw [(completable_or_error "x--1").2 _ htwo]
    rintro ⟨column, hl, he | he | he⟩ <;> cases he
    obtain ⟨before, cell, hcells, hcolumn⟩ := isLastColumn_iff.mp hl
    have hlast := congrArg List.getLast? hcells
    rw [List.getLast?_concat] at hlast
    rw [← Option.some.inj hlast] at hcolumn
    cases hcolumn

end MonicFactor
