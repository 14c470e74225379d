import MonicFactor.Polynomial.Monic
import MonicFactor.Proofs.Polynomial.Defect

/-! Blanks and the case of ASCII letters are irrelevant: expressions that differ in nothing else
are read alike, and their errors stand at the same character, wherever its column is. -/

namespace MonicFactor

/-- The columns of the characters that matter. -/
def shownColumns (expression : String) : List Nat :=
  ((expression.toList.zipIdx 1).filter fun p => !isBlank p.1).map Prod.snd

/-- One error in two expressions: the same kind, with the same character, at the column of the
same one of the characters that matter. -/
def SameError (expression other : String) (e e' : FormatError) : Prop :=
  ∃ (k : Nat) (column : Nat), (shownColumns expression)[k]? = some e.column ∧
    (shownColumns other)[k]? = some column ∧ e' = e.relabel fun _ => column

section Relabelling

variable (e : FormatError) (f g : Nat → Nat)

@[simp] theorem FormatError.column_relabel : (e.relabel f).column = f e.column := by
  cases e <;> rfl

@[simp] theorem FormatError.relabel_relabel :
    (e.relabel f).relabel g = e.relabel fun column => g (f column) := by
  cases e <;> rfl

theorem FormatError.relabel_congr (h : f e.column = g e.column) : e.relabel f = e.relabel g := by
  cases e <;> simp_all [relabel, column]

theorem FormatError.relabel_self : (e.relabel fun _ => e.column) = e := by
  cases e <;> rfl

end Relabelling

section Numbering

/-- Cells whose columns are their places in order. -/
def numbered (cs : List Char) : List Cell := cs.zipIdx.map fun p => ⟨p.2, p.1⟩

theorem shownColumns_eq (expression : String) :
    shownColumns expression = (cells 1 expression.toList).map Cell.column := by
  have hh (column : Nat) (cs : List Char) :
      ((cs.zipIdx column).filter fun p => !isBlank p.1).map Prod.snd =
        (cells column cs).map Cell.column := by
    induction cs generalizing column with
    | nil => rfl
    | cons c cs ih => by_cases hb : isBlank c = true <;> simp [cells, hb, ih]
  exact hh 1 expression.toList

/-- The column of each character that matters, by its place in order. -/
def columnAt (expression : String) (k : Nat) : Nat := (shownColumns expression).getD k 0

theorem relabel_numbered (cells : List Cell) :
    (numbered (cells.map Cell.char)).map
      (Cell.relabel fun k => (cells.map Cell.column).getD k 0) = cells := by
  refine List.ext_getElem (by simp [numbered]) fun k h h' => ?_
  simp [numbered, Cell.relabel, h']

theorem cells_eq_numbered (expression : String) :
    cells 1 expression.toList =
      (numbered (significant expression)).map (Cell.relabel (columnAt expression)) := by
  have hh := relabel_numbered (cells 1 expression.toList)
  rw [map_char_cells, ← shownColumns_eq] at hh
  exact hh.symm

theorem readTerms_eq_relabelResult (expression : String) :
    readTerms expression = relabelResult (columnAt expression) id
      (readCells (numbered (significant expression))) := by
  rw [readTerms_eq_readCells, cells_eq_numbered, readCells_relabel]

theorem length_shownColumns (expression : String) :
    (shownColumns expression).length = (significant expression).length := by
  rw [shownColumns_eq, List.length_map, length_significant]

theorem toLower_of_mem_numbered {expression : String} {cell : Cell}
    (h : cell ∈ numbered (significant expression)) : cell.char.toLower = cell.char := by
  obtain ⟨p, hp, rfl⟩ := List.mem_map.mp h
  obtain ⟨c, -, hc⟩ := List.mem_map.mp (List.fst_mem_of_mem_zipIdx hp)
  rw [← hc, toLower_toLower]

theorem column_lt_of_readCells {expression : String} {e : FormatError}
    (h : readCells (numbered (significant expression)) = .error e) :
    e.column < (shownColumns expression).length := by
  obtain ⟨front, c, back, hcells, -⟩ := pointsInto_of_readCells (fun _ => toLower_of_mem_numbered) h
  have hmem : ⟨e.column, c⟩ ∈ numbered (significant expression) := by
    rw [hcells]
    simp
  obtain ⟨p, hp, he⟩ := List.mem_map.mp hmem
  have hlt := List.snd_lt_of_mem_zipIdx hp
  rw [length_shownColumns, ← (Cell.mk.inj he).1]
  omega

theorem getElem_shownColumns {expression : String} {k : Nat}
    (h : k < (shownColumns expression).length) :
    (shownColumns expression)[k] = columnAt expression k := by
  rw [columnAt, List.getD_eq_getElem?_getD, List.getElem?_eq_getElem h, Option.getD_some]

theorem getElem?_shownColumns {expression : String} {k : Nat}
    (h : k < (shownColumns expression).length) :
    (shownColumns expression)[k]? = some (columnAt expression k) := by
  rw [List.getElem?_eq_getElem h, getElem_shownColumns h]

theorem columnAt_inj {expression : String} {j k : Nat} (hj : j < (shownColumns expression).length)
    (hk : k < (shownColumns expression).length)
    (h : columnAt expression j = columnAt expression k) : j = k := by
  have hrising : (shownColumns expression).Pairwise (· < ·) := by
    rw [shownColumns_eq, List.pairwise_map]
    exact cells_rising 1 expression.toList
  rw [← getElem_shownColumns hj, ← getElem_shownColumns hk] at h
  rw [List.pairwise_iff_getElem] at hrising
  rcases Nat.lt_trichotomy j k with hlt | rfl | hlt
  · have := hrising j k hj hk hlt
    omega
  · rfl
  · have := hrising k j hk hj hlt
    omega

end Numbering

section Errors

variable {expression other : String}

theorem sameError_relabel {e : FormatError} (h : e.column < (shownColumns expression).length)
    (h' : e.column < (shownColumns other).length) :
    SameError expression other (e.relabel (columnAt expression)) (e.relabel (columnAt other)) := by
  refine ⟨e.column, columnAt other e.column, ?_, getElem?_shownColumns h', ?_⟩
  · rw [FormatError.column_relabel, getElem?_shownColumns h]
  · rw [FormatError.relabel_relabel]
    exact e.relabel_congr _ _ rfl

theorem eq_relabel_of_sameError {e e' : FormatError} (h : e'.column < (shownColumns other).length)
    (hs : SameError expression other e (e'.relabel (columnAt other))) :
    e = e'.relabel (columnAt expression) := by
  obtain ⟨k, column, hk, hk', he⟩ := hs
  have hlt : k < (shownColumns expression).length := (List.getElem?_eq_some_iff.mp hk).1
  have hlt' : k < (shownColumns other).length := (List.getElem?_eq_some_iff.mp hk').1
  have hcolumn : columnAt other e'.column = column := by
    have hc := congrArg FormatError.column he
    rwa [FormatError.column_relabel, FormatError.column_relabel] at hc
  -- columns are those of one character only, so it is the same place in both expressions
  have hplace : e'.column = k := by
    refine columnAt_inj h hlt' (hcolumn.trans ?_)
    exact (Option.some.inj ((getElem?_shownColumns hlt').symm.trans hk')).symm
  have hhere : columnAt expression e'.column = e.column := by
    rw [hplace]
    exact Option.some.inj ((getElem?_shownColumns hlt).symm.trans hk)
  calc e = (e.relabel fun _ => column).relabel fun _ => e.column := by
        rw [FormatError.relabel_relabel, FormatError.relabel_self]
    _ = e'.relabel fun _ => e.column := by rw [← he, FormatError.relabel_relabel]
    _ = e'.relabel (columnAt expression) := e'.relabel_congr _ _ hhere.symm

/-- What two expressions are read to, when an error is the same error. -/
def SameReading (expression other : String) :
    Except PolynomialError Monic → Except PolynomialError Monic → Prop
  | .ok p, .ok p' => p' = p
  | .error (.constraint e), .error (.constraint e') => e' = e
  | .error (.format e), .error (.format e') => SameError expression other e e'
  | _, _ => False

theorem sameReading_of_error {e e' : FormatError} (h : readTerms expression = .error e)
    (h' : readTerms other = .error e') (hs : SameError expression other e e') (bound : Option Nat) :
    SameReading expression other (Monic.read bound expression) (Monic.read bound other) := by
  rw [Monic.read, Monic.read, h, h']
  exact hs

theorem sameReading_of_terms {terms : List Term} (h : readTerms expression = .ok terms)
    (h' : readTerms other = .ok terms) (bound : Option Nat) :
    SameReading expression other (Monic.read bound expression) (Monic.read bound other) := by
  rw [Monic.read, Monic.read, h, h']
  change SameReading expression other ((Monic.ofTerms bound terms).mapError .constraint)
    ((Monic.ofTerms bound terms).mapError .constraint)
  cases Monic.ofTerms bound terms <;> exact rfl

/-- Two expressions that show the same characters have the same terms or the same error, and they
are read to one polynomial or refused for one reason, under every bound. -/
theorem readTerms_respaced (expression other : String)
    (h : significant expression = significant other) :
    (∀ terms, readTerms expression = .ok terms ↔ readTerms other = .ok terms) ∧
    (∀ e, readTerms expression = .error e ↔
      ∃ e', SameError expression other e e' ∧ readTerms other = .error e') ∧
    ∀ bound, SameReading expression other (Monic.read bound expression)
      (Monic.read bound other) := by
  have he := readTerms_eq_relabelResult expression
  have ho := readTerms_eq_relabelResult other
  rw [← h] at ho
  cases hr : readCells (numbered (significant expression)) with
  | ok terms =>
    rw [hr, relabelResult_ok] at he ho
    refine ⟨fun terms => by rw [he, ho], fun e => ?_, sameReading_of_terms he ho⟩
    rw [he, ho]
    constructor
    · intro hh
      cases hh
    · rintro ⟨_, -, hh⟩
      cases hh
  | error e =>
    have hlt : e.column < (shownColumns expression).length := column_lt_of_readCells hr
    have hlt' : e.column < (shownColumns other).length := by
      rwa [length_shownColumns, ← h, ← length_shownColumns]
    have hsame := sameError_relabel hlt hlt'
    rw [hr, relabelResult_error] at he ho
    refine ⟨fun terms => by simp [he, ho], fun e' => ?_, sameReading_of_error he ho hsame⟩
    rw [he, ho]
    constructor
    · intro hh
      cases hh
      exact ⟨_, hsame, rfl⟩
    · rintro ⟨_, hs, hh⟩
      cases hh
      rw [eq_relabel_of_sameError hlt' hs]

theorem readTerms_respaced_fraction :
    significant "1 2.X" = significant "12   .x" ∧
      readTerms "1 2.X" = .error (.nonIntegerCoefficient 4) ∧
      ∃ e, SameError "1 2.X" "12   .x" (.nonIntegerCoefficient 4) e ∧
        readTerms "12   .x" = .error e := by
  have hs : significant "1 2.X" = significant "12   .x" := by decide
  have he : readTerms "1 2.X" = .error (.nonIntegerCoefficient 4) := rfl
  exact ⟨hs, he, ((readTerms_respaced _ _ hs).2.1 _).mp he⟩

end Errors

end MonicFactor
