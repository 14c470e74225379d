import MonicFactor.Proofs.Polynomial.Coefficients

/-! Terms in another order. The exact sums do not depend on the order, so neither does the
polynomial; but whether a sum leaves the word on the way does depend on it. -/

namespace MonicFactor

theorem coefficientSum_perm {terms terms' : List Term} (h : terms'.Perm terms) (k : Nat) :
    coefficientSum k terms' = coefficientSum k terms := by
  induction h with
  | nil => rfl
  | cons term _ ih => simp only [coefficientSum, ih]
  | swap term term' terms =>
    simp only [coefficientSum]
    omega
  | trans _ _ ih ih' => exact ih.trans ih'

theorem highestExponent_perm {terms terms' : List Term} (h : terms'.Perm terms) :
    highestExponent terms' = highestExponent terms := by
  induction h with
  | nil => rfl
  | cons term _ ih => simp only [highestExponent, ih]
  | swap term term' terms =>
    simp only [highestExponent]
    omega
  | trans _ _ ih ih' => exact ih.trans ih'

theorem Monic.ofTerms_of_perm {bound : Option Nat} {terms terms' : List Term} {p : Monic}
    (hp : terms'.Perm terms) (h : ofTerms bound terms = .ok p) (ho : ¬Overflowing terms') :
    ofTerms bound terms' = .ok p := by
  obtain ⟨-, hd, hc⟩ := ofTerms_eq_ok_iff.mp h
  have hsums : (fun k => coefficientSum k terms') = fun k => coefficientSum k terms :=
    funext (coefficientSum_perm hp)
  have hdegree := highestExponent_perm hp
  exact ofTerms_eq_ok_iff.mpr ⟨ho, hdegree ▸ hd, by rw [hdegree, hsums, hc]⟩

/-- An expression whose terms are those of a polynomial in another order is read as the same
polynomial, unless one of its sums leaves the word on the way, and then the first that does is
reported. -/
theorem Monic.read_of_perm {bound : Option Nat} {expression expression' : String}
    {terms terms' : List Term} {p : Monic} (ht : readTerms expression = .ok terms)
    (ht' : readTerms expression' = .ok terms') (hp : terms'.Perm terms)
    (h : read bound expression = .ok p) :
    (¬Overflowing terms' → read bound expression' = .ok p) ∧
    (Overflowing terms' → ∃ before term, FirstOverflow terms' before term ∧
      read bound expression' = .error (.constraint (.coefficientOverflow term.exponent))) := by
  rw [read_of_readTerms ht']
  constructor
  · intro ho
    obtain ⟨_, hread, hterms⟩ := read_eq_ok_iff.mp h
    cases ht.symm.trans hread
    rw [ofTerms_of_perm hp hterms ho]
    rfl
  · intro ho
    obtain ⟨before, term, hf, he⟩ := ofTerms_of_overflowing ho bound
    exact ⟨before, term, hf, by rw [he]; rfl⟩

theorem Monic.read_of_perm_near_limit :
    read (some 1) "-1+1+9223372036854775807+x" = .ok ⟨[9223372036854775807]⟩ ∧
    ∃ before term,
      FirstOverflow [⟨9223372036854775807, 0⟩, ⟨1, 0⟩, ⟨-1, 0⟩, ⟨1, 1⟩] before term ∧
      read (some 1) "9223372036854775807+1-1+x" =
        .error (.constraint (.coefficientOverflow term.exponent)) := by
  have ht : readTerms "x+9223372036854775807-1+1" =
      .ok [⟨1, 1⟩, ⟨9223372036854775807, 0⟩, ⟨-1, 0⟩, ⟨1, 0⟩] := rfl
  have h : read (some 1) "x+9223372036854775807-1+1" = .ok ⟨[9223372036854775807]⟩ := by
    decide +kernel
  exact ⟨(read_of_perm ht rfl (by decide) h).1 (by decide),
    (read_of_perm ht rfl (by decide) h).2 (by decide)⟩

/-- The order of like terms matters near the ends of the word. -/
theorem Monic.not_read_of_perm :
    ¬∀ (bound : Option Nat) (expression expression' : String) (terms terms' : List Term)
      (p : Monic), readTerms expression = .ok terms → readTerms expression' = .ok terms' →
      terms'.Perm terms → read bound expression = .ok p → read bound expression' = .ok p := by
  intro h
  have ht : readTerms "x+9223372036854775807-1+1" =
      .ok [⟨1, 1⟩, ⟨9223372036854775807, 0⟩, ⟨-1, 0⟩, ⟨1, 0⟩] := rfl
  have ht' : readTerms "x+9223372036854775807+1-1" =
      .ok [⟨1, 1⟩, ⟨9223372036854775807, 0⟩, ⟨1, 0⟩, ⟨-1, 0⟩] := rfl
  have hread : read none "x+9223372036854775807-1+1" = .ok ⟨[9223372036854775807]⟩ := by
    decide +kernel
  have hoverflow : read none "x+9223372036854775807+1-1" =
      .error (.constraint (.coefficientOverflow 0)) := by decide +kernel
  cases hoverflow.symm.trans (h none _ _ _ _ _ ht ht' (by decide) hread)

end MonicFactor
