import MonicFactor.Proofs.Polynomial.Scanning

/-! Every scan without an error has read a part of some derivation, so an expression has terms
exactly if the grammar derives it, and they are the terms of each of its derivations. -/

namespace MonicFactor

/-- What the mode has read of the term behind a sign. -/
def Mode.Spells (negative : Bool) : Mode → List Char → Prop
  | .idle minus, cs => minus.isSome = negative ∧ cs = []
  | .coefficient sign _ value, cs =>
    sign = negative ∧ ∃ n : Numeral, n.digits = cs ∧ n.value = value
  | .star coeff _, cs => ∃ n : Numeral, n.digits ++ ['*'] = cs ∧ signed negative n.value = coeff
  | .base coeff, cs =>
    ∃ c, coefficientText c ++ ['x'] = cs ∧ signed negative (c.elim 1 fun c => c.1.value) = coeff
  | .caret coeff _, cs =>
    ∃ c, coefficientText c ++ ['x', '^'] = cs ∧
      signed negative (c.elim 1 fun c => c.1.value) = coeff
  | .exponent coeff _ value, cs =>
    ∃ c, ∃ n : Numeral, coefficientText c ++ 'x' :: '^' :: n.digits = cs ∧
      signed negative (c.elim 1 fun c => c.1.value) = coeff ∧ n.value = value

/-- The scan has read the text: a stem, and a part of the term behind it. -/
def Scan.Follows (scan : Scan) (cs : List Char) : Prop :=
  ∃ (stem : Stem) (part : List Char), stem.text ++ part = cs ∧
    stem.before.terms = scan.terms.reverse ∧ scan.mode.Spells stem.negative part

theorem Mode.Spells.of_finish {mode : Mode} {negative : Bool} {part : List Char}
    {last : Option Term} (hs : mode.Spells negative part) (hf : mode.finish = .ok last) :
    (last = none ∧ part = [] ∧ negative = false) ∨
      ∃ m : Monomial, m.text = part ∧ last = some (m.term negative) := by
  cases mode with
  | idle minus =>
    cases minus with
    | none =>
      obtain ⟨rfl, rfl⟩ := hs
      exact .inl ⟨(Except.ok.inj hf).symm, rfl, rfl⟩
    | some column => cases hf
  | coefficient sign start value =>
    obtain ⟨rfl, n, rfl, rfl⟩ := hs
    refine .inr ⟨.constant n, rfl, ?_⟩
    rw [← Except.ok.inj hf, signed_eq]
    rfl
  | star coeff column => cases hf
  | base coeff =>
    obtain ⟨c, rfl, rfl⟩ := hs
    refine .inr ⟨.power c none, rfl, ?_⟩
    rw [← Except.ok.inj hf, signed_eq]
    rfl
  | caret coeff column => cases hf
  | exponent coeff start value =>
    obtain ⟨c, n, rfl, rfl, rfl⟩ := hs
    refine .inr ⟨.power c (some n), rfl, ?_⟩
    rw [← Except.ok.inj hf, signed_eq]
    rfl

theorem Numeral.exists_single {c : Char} {digit : Nat}
    (h : c.isDigit = true ∧ digitValue c = digit) :
    ∃ n : Numeral, n.digits = [c] ∧ n.value = digit :=
  ⟨.single c h.1, rfl, (value_single c h.1).trans h.2⟩

theorem Numeral.exists_snoc {α : Type} {n : Numeral} {c : Char} {start digit : Nat}
    {mode : Nat → α} {next : α} (hd : c.isDigit = true ∧ digitValue c = digit)
    (h : (extend start n.value digit).map mode = .ok next) :
    ∃ n' : Numeral, n'.digits = n.digits ++ [c] ∧ mode n'.value = next := by
  obtain ⟨hc, rfl⟩ := hd
  unfold extend at h
  split at h
  · rename_i hle
    exact ⟨n.snoc c hc hle, rfl, by rw [value_snoc]; exact Except.ok.inj h⟩
  · cases h

theorem Cell.close_eq_ok {cell : Cell} {term : Term} {last : Option Term} {next : Mode}
    (h : cell.close term = .ok (last, next)) :
    last = some term ∧ ∃ minus, next = .idle minus ∧ cell.char = signChar minus := by
  unfold close at h
  split at h
  · rename_i hs
    have hc : cell.char = '+' := cell.describes hs
    cases h
    exact ⟨rfl, none, rfl, hc⟩
  · rename_i hs
    have hc : cell.char = '-' := cell.describes hs
    cases h
    exact ⟨rfl, some cell.column, rfl, hc⟩
  · cases h

/-- A step without an error: a sign ends what the mode has read, any other character goes on
with it. -/
def Mode.Advances (mode : Mode) (negative : Bool) (part : List Char) (cell : Cell) : Prop :=
  ∀ last next, mode.step cell = .ok (last, next) →
    (mode.finish = .ok last ∧ ∃ minus, next = .idle minus ∧ cell.char = signChar minus) ∨
      (last = none ∧ next.Spells negative (part ++ [cell.char]))

theorem Mode.advances_idle (minus : Option Nat) (cell : Cell) :
    (Mode.idle minus).Advances minus.isSome [] cell := by
  intro last next h
  cases hsym : cell.symbol with
  | plus =>
    cases minus with
    | none =>
      simp only [step.eq_def, hsym] at h
      cases h
      exact .inl ⟨rfl, none, rfl, cell.describes hsym⟩
    | some column => simp [step.eq_def, hsym] at h
  | minus =>
    cases minus with
    | none =>
      simp only [step.eq_def, hsym] at h
      cases h
      exact .inl ⟨rfl, some cell.column, rfl, cell.describes hsym⟩
    | some column => simp [step.eq_def, hsym] at h
  | digit digit =>
    simp only [step.eq_def, hsym] at h
    cases h
    exact .inr ⟨rfl, rfl, Numeral.exists_single (cell.describes hsym)⟩
  | x =>
    have hc : cell.char = 'x' := cell.describes hsym
    simp only [step.eq_def, hsym] at h
    cases h
    exact .inr ⟨rfl, none, by simp [coefficientText, hc], rfl⟩
  | star | caret | dot | letter | other => simp [step.eq_def, hsym] at h

theorem Mode.advances_coefficient (negative : Bool) (start : Nat) (n : Numeral) (cell : Cell) :
    (Mode.coefficient negative start n.value).Advances negative n.digits cell := by
  intro last next h
  cases hsym : cell.symbol with
  | digit digit =>
    simp only [step.eq_def, hsym] at h
    obtain ⟨n', hd, he⟩ := Numeral.exists_snoc (cell.describes hsym) h
    cases he
    exact .inr ⟨rfl, rfl, n', hd, rfl⟩
  | star =>
    have hc : cell.char = '*' := cell.describes hsym
    simp only [step.eq_def, hsym] at h
    cases h
    exact .inr ⟨rfl, n, by rw [hc], rfl⟩
  | x =>
    have hc : cell.char = 'x' := cell.describes hsym
    simp only [step.eq_def, hsym] at h
    cases h
    exact .inr ⟨rfl, some (n, false), by simp [coefficientText, hc], rfl⟩
  | dot | caret => simp [step.eq_def, hsym] at h
  | plus | minus | letter | other =>
    simp only [step.eq_def, hsym] at h
    obtain ⟨rfl, hm⟩ := Cell.close_eq_ok h
    exact .inl ⟨rfl, hm⟩

theorem Mode.advances_star (negative : Bool) (column : Nat) (n : Numeral) (cell : Cell) :
    (Mode.star (signed negative n.value) column).Advances negative (n.digits ++ ['*']) cell := by
  intro last next h
  cases hsym : cell.symbol with
  | x =>
    have hc : cell.char = 'x' := cell.describes hsym
    simp only [step.eq_def, hsym] at h
    cases h
    exact .inr ⟨rfl, some (n, true), by simp [coefficientText, hc], rfl⟩
  | _ => simp [step.eq_def, hsym] at h

theorem Mode.advances_base (negative : Bool) (c : Option (Numeral × Bool)) (cell : Cell) :
    (Mode.base (signed negative (c.elim 1 fun c => c.1.value))).Advances negative
      (coefficientText c ++ ['x']) cell := by
  intro last next h
  cases hsym : cell.symbol with
  | caret =>
    have hc : cell.char = '^' := cell.describes hsym
    simp only [step.eq_def, hsym] at h
    cases h
    exact .inr ⟨rfl, c, by simp [hc], rfl⟩
  | _ =>
    simp only [step.eq_def, hsym] at h
    obtain ⟨rfl, hm⟩ := Cell.close_eq_ok h
    exact .inl ⟨rfl, hm⟩

theorem Mode.advances_caret (negative : Bool) (column : Nat) (c : Option (Numeral × Bool))
    (cell : Cell) :
    (Mode.caret (signed negative (c.elim 1 fun c => c.1.value)) column).Advances negative
      (coefficientText c ++ ['x', '^']) cell := by
  intro last next h
  cases hsym : cell.symbol with
  | digit digit =>
    simp only [step.eq_def, hsym] at h
    cases h
    obtain ⟨n, hd, hv⟩ := Numeral.exists_single (cell.describes hsym)
    exact .inr ⟨rfl, c, n, by simp [hd], rfl, hv⟩
  | _ => simp [step.eq_def, hsym] at h

theorem Mode.advances_exponent (negative : Bool) (start : Nat) (c : Option (Numeral × Bool))
    (n : Numeral) (cell : Cell) :
    (Mode.exponent (signed negative (c.elim 1 fun c => c.1.value)) start n.value).Advances negative
      (coefficientText c ++ 'x' :: '^' :: n.digits) cell := by
  intro last next h
  cases hsym : cell.symbol with
  | digit digit =>
    simp only [step.eq_def, hsym] at h
    obtain ⟨n', hd, he⟩ := Numeral.exists_snoc (cell.describes hsym) h
    cases he
    exact .inr ⟨rfl, c, n', by simp [hd], rfl, rfl⟩
  | dot => simp [step.eq_def, hsym] at h
  | _ =>
    simp only [step.eq_def, hsym] at h
    obtain ⟨rfl, hm⟩ := Cell.close_eq_ok h
    exact .inl ⟨rfl, hm⟩

theorem Mode.Spells.advances {mode : Mode} {negative : Bool} {part : List Char}
    (h : mode.Spells negative part) (cell : Cell) : mode.Advances negative part cell := by
  cases mode with
  | idle minus =>
    obtain ⟨rfl, rfl⟩ := h
    exact advances_idle minus cell
  | coefficient sign start value =>
    obtain ⟨rfl, n, rfl, rfl⟩ := h
    exact advances_coefficient sign start n cell
  | star coeff column =>
    obtain ⟨n, rfl, rfl⟩ := h
    exact advances_star negative column n cell
  | base coeff =>
    obtain ⟨c, rfl, rfl⟩ := h
    exact advances_base negative c cell
  | caret coeff column =>
    obtain ⟨c, rfl, rfl⟩ := h
    exact advances_caret negative column c cell
  | exponent coeff start value =>
    obtain ⟨c, n, rfl, rfl, rfl⟩ := h
    exact advances_exponent negative start c n cell

theorem Scan.Follows.finish {scan : Scan} {cs : List Char} {terms : List Term}
    (h : scan.Follows cs) (hf : scan.finish = .ok terms) :
    ∃ d : Derivation, d.text = cs ∧ d.terms = terms := by
  obtain ⟨stem, part, rfl, hb, hs⟩ := h
  obtain ⟨last, hm, ht⟩ := finish_eq_ok hf
  have ht' : terms = stem.before.terms ++ last.toList := by
    rw [← List.reverse_reverse terms, ht, hb]
    cases last <;> simp
  rcases hs.of_finish hm with ⟨rfl, rfl, hn⟩ | ⟨m, rfl, rfl⟩
  · exact ⟨stem.before, by simp [Stem.text, signText, hn], by simp [ht']⟩
  · obtain ⟨htext, hterms⟩ := stem.push_spec m
    exact ⟨stem.push m, htext, by simp [hterms, ht']⟩

theorem Scan.Follows.step {scan next : Scan} {cs : List Char} {cell : Cell}
    (h : scan.Follows cs) (hn : scan.step cell = .ok next) : next.Follows (cs ++ [cell.char]) := by
  cases hm : scan.mode.step cell with
  | error e => simp [Scan.step, hm, Except.map] at hn
  | ok result =>
    obtain ⟨last, mode⟩ := result
    have he : next = ⟨last.toList ++ scan.terms, mode⟩ := by
      simpa [Scan.step, hm, Except.map] using hn.symm
    subst he
    obtain ⟨stem, part, hcs, hb, hs⟩ := h
    rcases hs.advances cell _ _ hm with ⟨hf, minus, rfl, hc⟩ | ⟨rfl, hs'⟩
    · have hf' : scan.finish = .ok (last.toList ++ scan.terms).reverse := by
        simp [Scan.finish, hf, Except.map]
      obtain ⟨d, rfl, hd⟩ := Follows.finish ⟨stem, part, hcs, hb, hs⟩ hf'
      obtain ⟨htext, hterms, hneg⟩ := d.sign_spec minus
      exact ⟨d.sign minus, [], by simp [htext, hc], hterms.trans hd, hneg.symm, rfl⟩
    · exact ⟨stem, part ++ [cell.char], by rw [← List.append_assoc, hcs], hb, hs'⟩

theorem Scan.Follows.run {scan next : Scan} {cs : List Char} {cells : List Cell}
    (h : scan.Follows cs) (hn : scan.run cells = .ok next) :
    next.Follows (cs ++ cells.map Cell.char) := by
  -- the scan keeps to what has been read, and each cell adds its character to that
  induction cells generalizing scan cs with
  | nil =>
    cases hn
    simpa using h
  | cons cell cells ih =>
    rw [run_cons] at hn
    cases hs : scan.step cell with
    | error e => simp [hs, bind, Except.bind] at hn
    | ok mid =>
      rw [hs] at hn
      simpa using ih (h.step hs) hn

theorem Scan.follows_nil : Scan.Follows ⟨[], .idle none⟩ [] :=
  ⟨⟨⟨0, none, 0⟩, false, .inr (.inl rfl)⟩, [], rfl, rfl, rfl, rfl⟩

theorem readCells_eq_ok_iff {cs : List Char} {terms : List Term} :
    readCells (uncolumned cs) = .ok terms ↔ ∃ d : Derivation, d.text = cs ∧ d.terms = terms := by
  constructor
  · intro h
    obtain ⟨next, hr, hf⟩ := Scan.read_eq_ok_iff.mp h
    have hh := Scan.follows_nil.run hr
    rw [List.nil_append, map_char_uncolumned] at hh
    exact hh.finish hf
  · rintro ⟨d, rfl, rfl⟩
    exact Scan.reads_derivation d

/-- Reading accepts the expressions that the grammar derives, and no others. All derivations of
an expression denote the same terms, and these are what is read. -/
theorem readTerms_eq_ok_iff_derivation (expression : String) (terms : List Term) :
    (readTerms expression = .ok terms ↔
      ∃ d : Derivation, d.text = significant expression ∧ d.terms = terms) ∧
    ∀ d d' : Derivation, d.text = significant expression → d'.text = significant expression →
      d.terms = d'.terms := by
  refine ⟨by rw [readTerms_eq_ok_iff_uncolumned, readCells_eq_ok_iff], ?_⟩
  intro d d' h h'
  -- both are what reading gives
  have hd := readCells_eq_ok_iff.mpr ⟨d, h, rfl⟩
  have hd' := readCells_eq_ok_iff.mpr ⟨d', h', rfl⟩
  exact Except.ok.inj (hd.symm.trans hd')

theorem readTerms_two_x_less_seven :
    readTerms "2X -\t007 +" = .ok [⟨2, 1⟩, ⟨-7, 0⟩] ∧
      (Derivation.mk 2 none 0).text = significant "+ +" ∧
      (Derivation.mk 0 none 2).text = significant "+ +" ∧
      (Derivation.mk 2 none 0).terms = (Derivation.mk 0 none 2).terms := by
  refine ⟨?_, by decide, by decide, ?_⟩
  · refine (readTerms_eq_ok_iff_derivation _ _).1.mpr ⟨⟨0, some ⟨false, ?_, ?_⟩, 1⟩, ?_, ?_⟩
    · exact .power
        (some (⟨['2'], by decide, List.all_eq_true.mp (by decide), by decide⟩, false)) none
    · exact [(.minus, .constant
        ⟨['0', '0', '7'], by decide, List.all_eq_true.mp (by decide), by decide⟩)]
    · decide
    · decide
  · exact (readTerms_eq_ok_iff_derivation "+ +" []).2 _ _ (by decide) (by decide)

end MonicFactor
