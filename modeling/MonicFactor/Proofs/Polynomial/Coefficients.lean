import Mathlib.Data.List.Induction
import MonicFactor.Proofs.Polynomial.Outcome

/-! Which polynomial a list of terms comes to. Its coefficients are the exact sums, and since no
sum left the word on the way, each of them fits the word. -/

namespace MonicFactor

theorem Monic.eq_of_coefficients_eq {p q : Monic} (h : p.coefficients = q.coefficients) :
    p = q := by
  cases p
  cases q
  simpa [coefficients] using h

theorem Monic.getLast?_coefficients (p : Monic) : p.coefficients.getLast? = some 1 := by
  simp [coefficients]

theorem Monic.leadingSum_eq_one {p : Monic} {terms : List Term}
    (h : p.coefficients =
      (List.range (highestExponent terms + 1)).map fun k => coefficientSum k terms) :
    coefficientSum (highestExponent terms) terms = 1 := by
  have hl := p.getLast?_coefficients
  rw [h, List.range_succ, List.map_append, List.map_singleton, List.getLast?_concat] at hl
  exact Option.some.inj hl

theorem Monic.ofTerms_eq_ok_iff {bound : Option Nat} {terms : List Term} {p : Monic} :
    ofTerms bound terms = .ok p ↔
      ¬Overflowing terms ∧ highestExponent terms ≤ degreeBound bound ∧
        p.coefficients =
          (List.range (highestExponent terms + 1)).map fun k => coefficientSum k terms := by
  by_cases ho : Overflowing terms
  · obtain ⟨before, term, -, he⟩ := ofTerms_of_overflowing ho bound
    simp [he, ho]
  obtain ⟨q, hq, he⟩ := ofTerms_of_not_overflowing ho bound
  rw [he]
  constructor
  · intro h
    have hd : ¬degreeBound bound < highestExponent terms := fun hd => by simp [hd] at h
    have hl : coefficientSum (highestExponent terms) terms = 1 := by
      by_cases hl : coefficientSum (highestExponent terms) terms = 1
      · exact hl
      · simp [hd, hl] at h
    have hp : q = p := by simpa [hd, hl] using h
    exact ⟨ho, Nat.not_lt.mp hd, hp ▸ hq hl⟩
  · rintro ⟨-, hd, hc⟩
    have hl := leadingSum_eq_one hc
    have hp : q = p := eq_of_coefficients_eq ((hq hl).trans hc.symm)
    simp [Nat.not_lt.mpr hd, hl, hp]

theorem Monic.read_eq_ok_iff {bound : Option Nat} {expression : String} {p : Monic} :
    read bound expression = .ok p ↔
      ∃ terms, readTerms expression = .ok terms ∧ ofTerms bound terms = .ok p := by
  cases hr : readTerms expression with
  | error e =>
    have he : read bound expression = .error (.format e) := by
      simp only [read, hr]
      rfl
    simp [he]
  | ok terms =>
    rw [read_of_readTerms hr]
    cases ho : ofTerms bound terms <;> simp [ho, Except.mapError]

/-- The sum at an exponent was checked when the last term of that exponent was added, and no later
term touches it. -/
theorem fitsWord_coefficientSum {terms : List Term} (h : ¬Overflowing terms) (k : Nat) :
    FitsWord (coefficientSum k terms) := by
  induction terms using List.reverseRecOn with
  | nil =>
    change FitsWord 0
    decide
  | append_singleton terms term ih =>
    rw [overflowing_concat, not_or] at h
    by_cases hk : term.exponent = k
    · have hf := h.2
      rw [LeavesWord, Decidable.not_not, hk] at hf
      exact hf
    · have hs : coefficientSum k (terms ++ [term]) = coefficientSum k terms := by
        simp [coefficientSum_append, coefficientSum, hk]
      rw [hs]
      exact ih h.1

theorem Monic.fitsWord_of_ofTerms {bound : Option Nat} {terms : List Term} {p : Monic}
    (h : ofTerms bound terms = .ok p) {n : Int} (hn : n ∈ p.coefficients) : FitsWord n := by
  obtain ⟨ho, -, hc⟩ := ofTerms_eq_ok_iff.mp h
  rw [hc] at hn
  obtain ⟨k, -, rfl⟩ := List.mem_map.mp hn
  exact fitsWord_coefficientSum ho k

theorem Monic.length_coefficients_of_ofTerms {bound : Option Nat} {terms : List Term} {p : Monic}
    (h : ofTerms bound terms = .ok p) : p.coefficients.length ≤ degreeBound bound + 1 := by
  obtain ⟨-, hd, hc⟩ := ofTerms_eq_ok_iff.mp h
  rw [hc, List.length_map, List.length_range]
  omega

end MonicFactor
