import MonicFactor.Proofs.Numeral.Digits
import MonicFactor.Proofs.Polynomial.Grammar

/-! Numerals and derivations that grow at their end, by one digit, one sign or one term. -/

namespace MonicFactor

def Numeral.single (c : Char) (h : c.isDigit = true) : Numeral where
  digits := [c]
  digits_ne_nil := by simp
  isDigit := by simpa using h
  le_maxMagnitude := by
    have : c.toNat ≤ 57 := by
      simp only [Char.isDigit, Bool.and_eq_true, decide_eq_true_eq] at h
      exact h.2
    simp [Nat.ofDigitChars_cons, maxMagnitude]
    omega

theorem Numeral.value_single (c : Char) (h : c.isDigit = true) :
    (single c h).value = digitValue c := by
  simp [value, single, Nat.ofDigitChars_cons, digitValue]

def Numeral.snoc (n : Numeral) (c : Char) (h : c.isDigit = true)
    (hle : 10 * n.value + digitValue c ≤ maxMagnitude) : Numeral where
  digits := n.digits ++ [c]
  digits_ne_nil := by simp
  isDigit := by
    intro d hd
    rcases List.mem_append.mp hd with hd | hd
    · exact n.isDigit d hd
    · simpa [List.mem_singleton.mp hd] using h
  le_maxMagnitude := by
    rw [Nat.ofDigitChars_append, ofDigitChars_cons_digitValue]
    exact hle

theorem Numeral.value_snoc (n : Numeral) (c : Char) (h : c.isDigit = true)
    (hle : 10 * n.value + digitValue c ≤ maxMagnitude) :
    (n.snoc c h hle).value = 10 * n.value + digitValue c := by
  rw [value, snoc, Nat.ofDigitChars_append, ofDigitChars_cons_digitValue]
  rfl

/-- A derivation behind which a term may follow: a minus stands there, or no term is directly
before it. -/
structure Stem where
  before : Derivation
  negative : Bool
  separated : negative = true ∨ before.sum = none ∨ 0 < before.trailing

def Stem.text (stem : Stem) : List Char := stem.before.text ++ signText stem.negative

/-- The separator in front of the next term, pluses behind the last one included. -/
def Stem.separator (stem : Stem) : Separator :=
  match stem.before.trailing with
  | 0 => .minus
  | more + 1 => .pluses more stem.negative

def Stem.push (stem : Stem) (m : Monomial) : Derivation :=
  match stem.before.sum with
  | none => ⟨stem.before.leading + stem.before.trailing, some ⟨stem.negative, m, []⟩, 0⟩
  | some s => ⟨stem.before.leading, some { s with rest := s.rest ++ [(stem.separator, m)] }, 0⟩

theorem Stem.separator_text {stem : Stem} (h : stem.negative = true ∨ 0 < stem.before.trailing) :
    stem.separator.text = List.replicate stem.before.trailing '+' ++ signText stem.negative ∧
      stem.separator.negative = stem.negative := by
  unfold separator
  cases ht : stem.before.trailing with
  | zero =>
    have hn : stem.negative = true := by simpa [ht] using h
    simp [Separator.text, Separator.negative, signText, hn]
  | succ more => simp [Separator.text, Separator.negative, List.replicate_succ]

theorem Stem.push_spec (stem : Stem) (m : Monomial) :
    (stem.push m).text = stem.text ++ m.text ∧
      (stem.push m).terms = stem.before.terms ++ [m.term stem.negative] := by
  have hsep := stem.separated
  cases hs : stem.before.sum with
  | none =>
    simp [push, text, Derivation.text, Derivation.terms, SignedSum.text, SignedSum.terms, hs,
      List.replicate_append_replicate]
  | some s =>
    obtain ⟨ht, hn⟩ := @separator_text stem (by simpa [hs] using hsep)
    simp [push, text, Derivation.text, Derivation.terms, SignedSum.text, SignedSum.terms, hs,
      linkText, linkTerm, ht, hn]

def signChar (minus : Option Nat) : Char := if minus.isSome then '-' else '+'

def Derivation.sign (d : Derivation) (minus : Option Nat) : Stem :=
  match minus with
  | none => ⟨{ d with trailing := d.trailing + 1 }, false, .inr (.inr (by simp))⟩
  | some _ => ⟨d, true, .inl rfl⟩

theorem Derivation.sign_spec (d : Derivation) (minus : Option Nat) :
    (d.sign minus).text = d.text ++ [signChar minus] ∧ (d.sign minus).before.terms = d.terms ∧
      (d.sign minus).negative = minus.isSome := by
  cases minus with
  | none =>
    refine ⟨?_, rfl, rfl⟩
    simp [sign, Stem.text, text, signText, signChar, List.replicate_succ']
  | some column => exact ⟨rfl, rfl, rfl⟩

end MonicFactor
