import MonicFactor.Polynomial.Scan

/-! Columns go along with the characters and steer nothing: under other columns an expression
has the same terms, or the same error at the other column. -/

namespace MonicFactor

def Cell.relabel (f : Nat → Nat) (cell : Cell) : Cell := ⟨f cell.column, cell.char⟩

def FormatError.relabel (f : Nat → Nat) : FormatError → FormatError
  | .unexpectedCharacter char column => .unexpectedCharacter char (f column)
  | .unsupportedVariable char column => .unsupportedVariable char (f column)
  | .repeatedVariable column => .repeatedVariable (f column)
  | .missingExponent column => .missingExponent (f column)
  | .nonIntegerExponent column => .nonIntegerExponent (f column)
  | .nonIntegerCoefficient column => .nonIntegerCoefficient (f column)
  | .exponentWithoutVariable column => .exponentWithoutVariable (f column)
  | .missingVariable column => .missingVariable (f column)
  | .danglingSign column => .danglingSign (f column)
  | .outOfRange column => .outOfRange (f column)

def Mode.relabel (f : Nat → Nat) : Mode → Mode
  | .idle minus => .idle (minus.map f)
  | .coefficient negative start value => .coefficient negative (f start) value
  | .star coeff column => .star coeff (f column)
  | .base coeff => .base coeff
  | .caret coeff column => .caret coeff (f column)
  | .exponent coeff start value => .exponent coeff (f start) value

def Scan.relabel (f : Nat → Nat) (scan : Scan) : Scan := ⟨scan.terms, scan.mode.relabel f⟩

/-- The columns of a result are those of the mode behind a success, and that of an error. -/
def relabelResult {α : Type} (f : Nat → Nat) (g : α → α) (result : Except FormatError α) :
    Except FormatError α :=
  (result.map g).mapError (FormatError.relabel f)

@[simp] theorem relabelResult_ok {α : Type} (f : Nat → Nat) (g : α → α) (a : α) :
    relabelResult f g (.ok a) = .ok (g a) := rfl

@[simp] theorem relabelResult_error {α : Type} (f : Nat → Nat) (g : α → α) (e : FormatError) :
    relabelResult f g (.error e) = .error (e.relabel f) := rfl

@[simp] theorem Cell.symbol_relabel (f : Nat → Nat) (cell : Cell) :
    (cell.relabel f).symbol = cell.symbol := rfl

theorem Cell.refusal_relabel (f : Nat → Nat) (cell : Cell) :
    (cell.relabel f).refusal = cell.refusal.relabel f := by
  simp only [refusal, symbol_relabel]
  split <;> rfl

theorem extend_relabel (f : Nat → Nat) (start value digit : Nat) :
    extend (f start) value digit = relabelResult f id (extend start value digit) := by
  unfold extend
  split <;> rfl

theorem Cell.close_relabel (f : Nat → Nat) (cell : Cell) (term : Term) :
    (cell.relabel f).close term =
      relabelResult f (fun next => (next.1, next.2.relabel f)) (cell.close term) := by
  simp only [close, symbol_relabel, refusal_relabel]
  split <;> rfl

theorem extend_map_relabel {α : Type} (f : Nat → Nat) (start value digit : Nat) (g : α → α)
    (next next' : Nat → α) (h : ∀ n, next' n = g (next n)) :
    (extend (f start) value digit).map next' =
      relabelResult f g ((extend start value digit).map next) := by
  rw [extend_relabel]
  cases extend start value digit with
  | error e => rfl
  | ok n => exact congrArg Except.ok (h n)

theorem Mode.step_relabel (f : Nat → Nat) (mode : Mode) (cell : Cell) :
    (mode.relabel f).step (cell.relabel f) =
      relabelResult f (fun next => (next.1, next.2.relabel f)) (mode.step cell) := by
  simp only [step.eq_def, Cell.symbol_relabel, Cell.refusal_relabel, Cell.close_relabel]
  generalize cell.symbol = symbol
  cases mode with
  | idle minus => cases minus <;> cases symbol <;> rfl
  | coefficient negative start value =>
    cases symbol with
    | digit digit => exact extend_map_relabel f start value digit _ _ _ fun _ => rfl
    | _ => rfl
  | exponent coeff start value =>
    cases symbol with
    | digit digit => exact extend_map_relabel f start value digit _ _ _ fun _ => rfl
    | _ => rfl
  | _ => cases symbol <;> rfl

theorem Mode.finish_relabel (f : Nat → Nat) (mode : Mode) :
    (mode.relabel f).finish = relabelResult f id mode.finish := by
  cases mode with
  | idle minus => cases minus <;> rfl
  | _ => rfl

theorem Scan.step_relabel (f : Nat → Nat) (scan : Scan) (cell : Cell) :
    (scan.relabel f).step (cell.relabel f) = relabelResult f (relabel f) (scan.step cell) := by
  simp only [step, relabel, Mode.step_relabel]
  cases scan.mode.step cell <;> rfl

theorem Scan.finish_relabel (f : Nat → Nat) (scan : Scan) :
    (scan.relabel f).finish = relabelResult f id scan.finish := by
  simp only [finish, relabel, Mode.finish_relabel]
  cases scan.mode.finish <;> rfl

def Scan.run (scan : Scan) (cells : List Cell) : Except FormatError Scan :=
  cells.foldlM step scan

@[simp] theorem Scan.run_nil (scan : Scan) : scan.run [] = .ok scan := rfl

theorem Scan.run_cons (scan : Scan) (cell : Cell) (cells : List Cell) :
    scan.run (cell :: cells) = scan.step cell >>= fun next => next.run cells := rfl

theorem Scan.run_append (scan : Scan) (before after : List Cell) :
    scan.run (before ++ after) = scan.run before >>= fun next => next.run after :=
  List.foldlM_append

/-- The terms that a scan comes to at the end of the cells. -/
def Scan.read (scan : Scan) (cells : List Cell) : Except FormatError (List Term) :=
  scan.run cells >>= finish

theorem Scan.read_cons (scan : Scan) (cell : Cell) (cells : List Cell) :
    scan.read (cell :: cells) = scan.step cell >>= fun next => next.read cells := by
  rw [read, run_cons]
  cases scan.step cell <;> rfl

theorem Scan.read_append (scan : Scan) (before after : List Cell) :
    scan.read (before ++ after) = scan.run before >>= fun next => next.read after := by
  rw [read, run_append]
  cases scan.run before <;> rfl

theorem Scan.read_eq_ok_iff {scan : Scan} {cells : List Cell} {terms : List Term} :
    scan.read cells = .ok terms ↔ ∃ next, scan.run cells = .ok next ∧ next.finish = .ok terms := by
  rw [read]
  cases scan.run cells <;> simp [bind, Except.bind]

theorem Scan.run_eq_error {scan : Scan} {cells : List Cell} {e : FormatError}
    (h : scan.run cells = .error e) :
    ∃ before cell after mid, cells = before ++ cell :: after ∧ scan.run before = .ok mid ∧
      mid.mode.step cell = .error e := by
  induction cells generalizing scan with
  | nil => cases h
  | cons cell cells ih =>
    rw [run_cons] at h
    cases hs : scan.step cell with
    | error e' =>
      rw [hs] at h
      have he : e' = e := Except.error.inj h
      refine ⟨[], cell, cells, scan, rfl, rfl, ?_⟩
      cases hm : scan.mode.step cell with
      | error e'' =>
        rw [step, hm] at hs
        exact congrArg _ ((Except.error.inj hs).trans he)
      | ok next =>
        rw [step, hm] at hs
        cases hs
    | ok next =>
      rw [hs] at h
      obtain ⟨before, cell', after, mid, rfl, hr, hm⟩ := ih h
      refine ⟨cell :: before, cell', after, mid, rfl, ?_, hm⟩
      rw [run_cons, hs]
      exact hr

theorem Scan.run_concat (scan : Scan) (before : List Cell) (cell : Cell) :
    scan.run (before ++ [cell]) = scan.run before >>= fun mid => mid.step cell := by
  rw [run_append]
  congr 1
  funext mid
  rw [run_cons]
  cases mid.step cell <;> rfl

theorem Scan.step_eq_ok {scan next : Scan} {cell : Cell} (h : scan.step cell = .ok next) :
    ∃ last, scan.mode.step cell = .ok (last, next.mode) := by
  rw [step] at h
  cases hm : scan.mode.step cell with
  | error e =>
    rw [hm] at h
    cases h
  | ok result =>
    rw [hm] at h
    cases h
    exact ⟨_, rfl⟩

theorem Scan.finish_eq_error {scan : Scan} {e : FormatError} (h : scan.finish = .error e) :
    scan.mode.finish = .error e := by
  unfold finish at h
  cases hm : scan.mode.finish with
  | error e' =>
    rw [hm] at h
    exact congrArg _ (Except.error.inj h)
  | ok last =>
    rw [hm] at h
    cases h

theorem Scan.run_relabel (f : Nat → Nat) (scan : Scan) (cells : List Cell) :
    (scan.relabel f).run (cells.map (Cell.relabel f)) =
      relabelResult f (relabel f) (scan.run cells) := by
  induction cells generalizing scan with
  | nil => rfl
  | cons cell cells ih =>
    rw [List.map_cons, run_cons, run_cons, step_relabel]
    cases scan.step cell with
    | error e => rfl
    | ok next => exact ih next

theorem Scan.read_relabel (f : Nat → Nat) (scan : Scan) (cells : List Cell) :
    (scan.relabel f).read (cells.map (Cell.relabel f)) = relabelResult f id (scan.read cells) := by
  rw [read, read, run_relabel]
  cases scan.run cells with
  | error e => rfl
  | ok next => exact next.finish_relabel f

def readCells (cells : List Cell) : Except FormatError (List Term) :=
  Scan.read ⟨[], .idle none⟩ cells

theorem readTerms_eq_readCells (expression : String) :
    readTerms expression = readCells (cells 1 expression.toList) := rfl

theorem readCells_relabel (f : Nat → Nat) (cells : List Cell) :
    readCells (cells.map (Cell.relabel f)) = relabelResult f id (readCells cells) :=
  Scan.read_relabel f ⟨[], .idle none⟩ cells

/-- The characters of a text that matter, capitals of ASCII lowered. -/
def shown (cs : List Char) : List Char := (cs.filter fun c => !isBlank c).map Char.toLower

/-- What an expression says apart from its blanks and the case of ASCII letters. -/
def significant (expression : String) : List Char := shown expression.toList

theorem map_char_cells (column : Nat) (cs : List Char) :
    (cells column cs).map Cell.char = shown cs := by
  induction cs generalizing column with
  | nil => rfl
  | cons c cs ih => by_cases h : isBlank c = true <;> simp [cells, shown, h, ih]

theorem length_significant (expression : String) :
    (cells 1 expression.toList).length = (significant expression).length := by
  rw [significant, ← map_char_cells 1, List.length_map]

def uncolumned (cs : List Char) : List Cell := cs.map (Cell.mk 0)

theorem uncolumned_append (before after : List Char) :
    uncolumned (before ++ after) = uncolumned before ++ uncolumned after := List.map_append

@[simp] theorem map_char_uncolumned (cs : List Char) : (uncolumned cs).map Cell.char = cs := by
  simp [uncolumned, Function.comp_def]

theorem relabel_zero_eq_uncolumned (cells : List Cell) :
    cells.map (Cell.relabel fun _ => 0) = uncolumned (cells.map Cell.char) := by
  simp [uncolumned, Cell.relabel, Function.comp_def]

theorem readTerms_eq_ok_iff_uncolumned (expression : String) (terms : List Term) :
    readTerms expression = .ok terms ↔
      readCells (uncolumned (significant expression)) = .ok terms := by
  rw [significant, ← map_char_cells 1, ← relabel_zero_eq_uncolumned, readCells_relabel,
    readTerms_eq_readCells]
  cases readCells (cells 1 expression.toList) <;> simp

end MonicFactor
