import MonicFactor.Proofs.Polynomial.Completion
import MonicFactor.Proofs.Polynomial.Scanning
import MonicFactor.Proofs.Text.Letter

/-! Two expressions joined by a sign are read one after the other. A plus keeps them apart, and a
minus goes to the first term of the second one, which has to start at once. -/

namespace MonicFactor

section Scanning

theorem cells_shift (column k : Nat) (cs : List Char) :
    cells (column + k) cs = (cells column cs).map (Cell.relabel (· + k)) := by
  induction cs generalizing column with
  | nil => rfl
  | cons c cs ih =>
    have hh := ih (column + 1)
    rw [Nat.add_right_comm] at hh
    by_cases hb : isBlank c = true <;> simp [cells, hb, hh, Cell.relabel]

/-- A scan that starts behind other terms. -/
def Scan.behind (earlier : List Term) (scan : Scan) : Scan := ⟨scan.terms ++ earlier, scan.mode⟩

theorem Scan.step_behind (earlier : List Term) (scan : Scan) (cell : Cell) :
    (scan.behind earlier).step cell = (scan.step cell).map (behind earlier) := by
  simp only [step, behind]
  cases scan.mode.step cell with
  | error e => rfl
  | ok next => exact congrArg (fun terms => Except.ok (Scan.mk terms next.2)) (by simp)

theorem Scan.read_behind (earlier : List Term) (scan : Scan) (cells : List Cell) :
    (scan.behind earlier).read cells = (scan.read cells).map (earlier.reverse ++ ·) := by
  induction cells generalizing scan with
  | nil =>
    change (scan.behind earlier).finish = scan.finish.map _
    simp only [finish, behind]
    cases scan.mode.finish with
    | error e => rfl
    | ok last => exact congrArg Except.ok (by simp)
  | cons cell cells ih =>
    rw [read_cons, read_cons, step_behind]
    cases scan.step cell with
    | error e => rfl
    | ok next => exact ih next

theorem Scan.step_plus_eq (scan : Scan) {cell : Cell} (h : cell.symbol = .plus) :
    scan.step cell = scan.finish.map fun terms => ⟨terms.reverse, .idle none⟩ := by
  cases hf : scan.finish with
  | error e =>
    rw [step, scan.mode.step_plus h, finish_eq_error hf]
    rfl
  | ok terms => exact step_plus hf h

theorem read_behind_shift (terms : List Term) (k : Nat) (expression : String) :
    Scan.read ⟨terms.reverse, .idle none⟩ (cells (1 + k) expression.toList) =
      ((readTerms expression).mapError (FormatError.relabel (· + k))).map (terms ++ ·) := by
  have hb := Scan.read_behind terms.reverse ⟨[], .idle none⟩ (cells (1 + k) expression.toList)
  rw [List.reverse_reverse] at hb
  refine hb.trans (congrArg (Except.map _) ?_)
  change readCells (cells (1 + k) expression.toList) = _
  rw [cells_shift, readCells_relabel, ← readTerms_eq_readCells]
  cases readTerms expression <;> rfl

end Scanning

section Negation

def Term.negate (term : Term) : Term := ⟨-term.coefficient, term.exponent⟩

def negateFirst : List Term → List Term
  | [] => []
  | term :: terms => term.negate :: terms

def Mode.negate : Mode → Mode
  | .idle minus => .idle minus
  | .coefficient negative start value => .coefficient (!negative) start value
  | .star coeff column => .star (-coeff) column
  | .base coeff => .base (-coeff)
  | .caret coeff column => .caret (-coeff) column
  | .exponent coeff start value => .exponent (-coeff) start value

/-- Some of the term has been read. -/
def Mode.Started : Mode → Prop
  | .idle _ => False
  | _ => True

/-- Two steps that go on with terms of opposite signs, or complete them, or have one error. -/
def Mirrored : Except FormatError (Option Term × Mode) → Except FormatError (Option Term × Mode) →
    Prop
  | .error e, .error e' => e' = e
  | .ok (none, next), .ok (none, next') => next.Started ∧ next' = next.negate
  | .ok (some term, next), .ok (some term', next') => term' = term.negate ∧ next' = next
  | _, _ => False

theorem signed_not (negative : Bool) (value : Nat) :
    signed (!negative) value = -signed negative value := by
  cases negative <;> simp [signed]

theorem mirrored_close (cell : Cell) (term : Term) :
    Mirrored (cell.close term) (cell.close term.negate) := by
  unfold Cell.close
  split
  · exact ⟨rfl, rfl⟩
  · exact ⟨rfl, rfl⟩
  · exact rfl

theorem mirrored_extend (start value digit : Nat) {next next' : Nat → Mode}
    (h : ∀ n, (next n).Started ∧ next' n = (next n).negate) :
    Mirrored ((extend start value digit).map fun n => (none, next n))
      ((extend start value digit).map fun n => (none, next' n)) := by
  unfold extend
  split
  · exact h _
  · exact rfl

theorem Mode.mirrored_step {mode : Mode} (h : mode.Started) (cell : Cell) :
    Mirrored (mode.step cell) (mode.negate.step cell) := by
  rw [step.eq_def, step.eq_def]
  generalize cell.symbol = symbol
  cases mode with
  | idle minus => exact h.elim
  | coefficient negative start value =>
    have hneg := signed_not negative value
    cases symbol with
    | digit digit => exact mirrored_extend start value digit fun _ => ⟨trivial, rfl⟩
    | star | x => exact ⟨trivial, by simp only [hneg, negate]⟩
    | dot | caret => exact rfl
    | plus | minus | letter | other =>
      simp only [negate, hneg]
      exact mirrored_close cell ⟨signed negative value, 0⟩
  | star coeff column =>
    cases symbol with
    | x => exact ⟨trivial, rfl⟩
    | _ => exact rfl
  | base coeff =>
    cases symbol with
    | caret => exact ⟨trivial, rfl⟩
    | _ => exact mirrored_close cell ⟨coeff, 1⟩
  | caret coeff column =>
    cases symbol with
    | digit digit => exact ⟨trivial, rfl⟩
    | _ => exact rfl
  | exponent coeff start value =>
    cases symbol with
    | digit digit => exact mirrored_extend start value digit fun _ => ⟨trivial, rfl⟩
    | dot => exact rfl
    | _ => exact mirrored_close cell ⟨coeff, value⟩

theorem Mode.mirrored_first {cell : Cell} (hp : cell.symbol ≠ .plus) (hm : cell.symbol ≠ .minus)
    (column : Nat) : Mirrored ((idle none).step cell) ((idle (some column)).step cell) := by
  rw [step.eq_def, step.eq_def]
  generalize cell.symbol = symbol at hp hm
  cases symbol with
  | plus => exact absurd rfl hp
  | minus => exact absurd rfl hm
  | digit digit | x => exact ⟨trivial, rfl⟩
  | _ => exact rfl

theorem Scan.finish_negate {mode : Mode} (h : mode.Started) :
    Scan.finish ⟨[], mode.negate⟩ = (Scan.finish ⟨[], mode⟩).map negateFirst := by
  cases mode with
  | idle minus => exact h.elim
  | coefficient negative start value =>
    change Except.ok [Term.mk (signed (!negative) value) 0] = Except.ok [Term.mk _ 0]
    rw [signed_not]
  | star coeff column | base coeff | caret coeff column | exponent coeff start value => rfl

theorem Scan.read_mirrored {mode mode' : Mode} {cell : Cell}
    (h : Mirrored (mode.step cell) (mode'.step cell)) {cells : List Cell}
    (hcells : ∀ next : Mode, next.Started →
      Scan.read ⟨[], next.negate⟩ cells = (Scan.read ⟨[], next⟩ cells).map negateFirst) :
    Scan.read ⟨[], mode'⟩ (cell :: cells) =
      (Scan.read ⟨[], mode⟩ (cell :: cells)).map negateFirst := by
  rw [read_cons, read_cons, step, step]
  cases hr : mode.step cell with
  | error e =>
    cases hr' : mode'.step cell with
    | error e' =>
      rw [hr, hr'] at h
      exact congrArg Except.error h
    | ok next' =>
      rw [hr, hr'] at h
      exact h.elim
  | ok next =>
    obtain ⟨last, next⟩ := next
    cases hr' : mode'.step cell with
    | error e' =>
      rw [hr, hr'] at h
      cases last <;> exact h.elim
    | ok next' =>
      obtain ⟨last', next'⟩ := next'
      rw [hr, hr'] at h
      cases last with
      | none =>
        cases last' with
        | none =>
          obtain ⟨hs, rfl⟩ := h
          exact hcells next hs
        | some term' => exact h.elim
      | some term =>
        cases last' with
        | none => exact h.elim
        | some term' =>
          obtain ⟨rfl, rfl⟩ := h
          -- the first term is complete, and the rest is read behind it
          have hneg := read_behind [term.negate] ⟨[], next'⟩ cells
          have hterm := read_behind [term] ⟨[], next'⟩ cells
          refine hneg.trans ?_
          change _ = (Scan.read (behind [term] ⟨[], next'⟩) cells).map negateFirst
          rw [hterm]
          cases Scan.read ⟨[], next'⟩ cells <;> rfl

theorem Scan.read_negate {mode : Mode} (h : mode.Started) (cells : List Cell) :
    Scan.read ⟨[], mode.negate⟩ cells = (Scan.read ⟨[], mode⟩ cells).map negateFirst := by
  induction cells generalizing mode with
  | nil => exact finish_negate h
  | cons cell cells ih => exact read_mirrored (mode.mirrored_step h cell) fun _ hn => ih hn

end Negation

/-- The first character that is not blank is neither of the signs. -/
def StartsTerm (expression : String) : Prop :=
  ∃ c ∈ expression.toList.find? (fun c => !isBlank c), c ≠ '+' ∧ c ≠ '-'

theorem toLower_eq_iff {c sign : Char} (hl : isLetter sign = false) (hs : sign.toLower = sign) :
    c.toLower = sign ↔ c = sign := by
  constructor
  · rintro rfl
    exact (toLower_of_not_isLetter hl).symm
  · rintro rfl
    exact hs

theorem startsTerm_iff {expression : String} (column : Nat) :
    StartsTerm expression ↔ ∃ cell rest, cells column expression.toList = cell :: rest ∧
      cell.symbol ≠ .plus ∧ cell.symbol ≠ .minus := by
  have hhead : (cells column expression.toList).head?.map Cell.char =
      (expression.toList.find? fun c => !isBlank c).map Char.toLower := by
    rw [← List.head?_map, map_char_cells, shown, List.head?_map, List.head?_filter]
  have hplus (c : Char) : c.toLower = '+' ↔ c = '+' :=
    toLower_eq_iff (by decide +kernel) (by decide)
  have hminus (c : Char) : c.toLower = '-' ↔ c = '-' :=
    toLower_eq_iff (by decide +kernel) (by decide)
  cases hc : cells column expression.toList with
  | nil =>
    rw [hc] at hhead
    simp only [StartsTerm, Option.map_eq_none_iff.mp hhead.symm]
    simp
  | cons cell rest =>
    rw [hc] at hhead
    obtain ⟨c, hf, hcell⟩ := Option.map_eq_some_iff.mp hhead.symm
    have hsp : cell.symbol = .plus ↔ c = '+' := by rw [cell.symbol_eq_plus_iff, ← hcell, hplus]
    have hsm : cell.symbol = .minus ↔ c = '-' := by rw [cell.symbol_eq_minus_iff, ← hcell, hminus]
    simp [StartsTerm, hf, hsp, hsm]

theorem readTerms_join (s t : String) {sign : String} {c : Char} (hsign : sign.toList = [c])
    (hb : isBlank c = false) (hl : c.toLower = c) :
    readTerms (s ++ sign ++ t) = Scan.run ⟨[], .idle none⟩ (cells 1 s.toList) >>= fun scan =>
      scan.read (⟨s.length + 1, c⟩ :: cells (1 + (s.length + 1)) t.toList) := by
  have hcells : cells (1 + s.length) (sign ++ t).toList =
      ⟨s.length + 1, c⟩ :: cells (1 + (s.length + 1)) t.toList := by
    rw [String.toList_append, hsign, List.singleton_append, cells, if_neg (by simp [hb]), hl,
      Nat.add_comm 1 s.length, Nat.add_comm 1 (s.length + 1)]
  rw [String.append_assoc, readTerms_append, String.length_toList, hcells]

theorem readTerms_plus (s t : String) :
    readTerms (s ++ "+" ++ t) = (do
      let before ← readTerms s
      let after ← (readTerms t).mapError (FormatError.relabel (· + (s.length + 1)))
      pure (before ++ after)) := by
  have hplus : "+".toList = ['+'] := rfl
  rw [readTerms_join s t hplus (by decide) (by decide), readTerms_eq_readCells, readCells,
    Scan.read]
  cases Scan.run ⟨[], .idle none⟩ (cells 1 s.toList) with
  | error e => rfl
  | ok scan =>
    change scan.read _ = scan.finish >>= _
    rw [Scan.read_cons, scan.step_plus_eq (Cell.symbol_of_char rfl)]
    cases scan.finish with
    | error e => rfl
    | ok before =>
      refine (read_behind_shift before (s.length + 1) t).trans ?_
      cases (readTerms t).mapError _ <;> rfl

theorem readTerms_minus {s : String} {before : List Term} (h : readTerms s = .ok before)
    (t : String) :
    readTerms (s ++ "-" ++ t) = Scan.read ⟨before.reverse, .idle (some (s.length + 1))⟩
      (cells (1 + (s.length + 1)) t.toList) := by
  have hminus : "-".toList = ['-'] := rfl
  obtain ⟨scan, hr, hf⟩ := Scan.read_eq_ok_iff.mp h
  rw [readTerms_join s t hminus (by decide) (by decide), hr]
  change scan.read _ = _
  rw [Scan.read_cons, Scan.step_minus hf (Cell.symbol_of_char rfl)]
  rfl

theorem readTerms_minus_term {s t : String} {before : List Term} (h : readTerms s = .ok before)
    (ht : StartsTerm t) :
    readTerms (s ++ "-" ++ t) = (do
      let after ← (readTerms t).mapError (FormatError.relabel (· + (s.length + 1)))
      pure (before ++ negateFirst after)) := by
  obtain ⟨cell, rest, hcells, hp, hm⟩ := (startsTerm_iff (1 + (s.length + 1))).mp ht
  have hbehind := Scan.read_behind before.reverse ⟨[], .idle (some (s.length + 1))⟩ (cell :: rest)
  have hnegate := Scan.read_mirrored (Mode.mirrored_first hp hm (s.length + 1))
    fun next hn => Scan.read_negate hn rest
  have hshift := read_behind_shift [] (s.length + 1) t
  rw [hcells] at hshift
  rw [readTerms_minus h, hcells]
  refine hbehind.trans ?_
  rw [hnegate, List.reverse_reverse, show Scan.read ⟨[], .idle none⟩ (cell :: rest) = _ from hshift]
  cases (readTerms t).mapError _ <;> rfl

theorem readTerms_minus_other {s t : String} {before : List Term} (h : readTerms s = .ok before)
    (ht : ¬StartsTerm t) : readTerms (s ++ "-" ++ t) = .error (.danglingSign (s.length + 1)) := by
  rw [startsTerm_iff (1 + (s.length + 1))] at ht
  rw [readTerms_minus h]
  cases hcells : cells (1 + (s.length + 1)) t.toList with
  | nil => rfl
  | cons cell rest =>
    have hsign : cell.symbol = .plus ∨ cell.symbol = .minus := by
      by_contra hn
      rw [not_or] at hn
      exact ht ⟨cell, rest, hcells, hn⟩
    rw [Scan.read_cons, Scan.step]
    rcases hsign with hs | hs <;> simp only [Mode.step.eq_def, hs] <;> rfl

/-- Behind a plus an expression is read as it is alone, only at other columns. Behind a minus its
first term has the other sign, if the expression starts with a term; else the minus is left alone. -/
theorem readTerms_joined (s t : String) :
    readTerms (s ++ "+" ++ t) = (do
      let before ← readTerms s
      let after ← (readTerms t).mapError (FormatError.relabel (· + (s.length + 1)))
      pure (before ++ after)) ∧
    ∀ before, readTerms s = .ok before →
      (StartsTerm t → readTerms (s ++ "-" ++ t) = (do
        let after ← (readTerms t).mapError (FormatError.relabel (· + (s.length + 1)))
        pure (before ++ negateFirst after))) ∧
      (¬StartsTerm t → readTerms (s ++ "-" ++ t) = .error (.danglingSign (s.length + 1))) :=
  ⟨readTerms_plus s t, fun _ h => ⟨readTerms_minus_term h, readTerms_minus_other h⟩⟩

theorem readTerms_joined_two_x :
    readTerms "2X" = .ok [⟨2, 1⟩] ∧ StartsTerm " 3-x" ∧
      readTerms ("2X" ++ "-" ++ " 3-x") = .ok [⟨2, 1⟩, ⟨-3, 0⟩, ⟨-1, 1⟩] ∧
      ¬StartsTerm " + 1" ∧ readTerms ("2X" ++ "-" ++ " + 1") = .error (.danglingSign 3) := by
  have h : readTerms "2X" = .ok [⟨2, 1⟩] := rfl
  have hterm : StartsTerm " 3-x" := ⟨'3', by decide, by decide, by decide⟩
  have hother : ¬StartsTerm " + 1" := by
    rintro ⟨c, hc, hp, -⟩
    exact hp (Option.some.inj hc).symm
  refine ⟨h, hterm, ?_, hother, ?_⟩
  · rw [((readTerms_joined "2X" " 3-x").2 _ h).1 hterm]
    rfl
  · exact ((readTerms_joined "2X" " + 1").2 _ h).2 hother

end MonicFactor
