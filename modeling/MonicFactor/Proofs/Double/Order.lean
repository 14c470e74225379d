import MonicFactor.Double.Basic

/-! The order of doubles. They are compared by their places, and places rise with the exact
values. -/

namespace MonicFactor

theorem Magnitude.units_of_val_lt {m : Magnitude} (h : m.val < blockSize) : m.units = m.val :=
  if_pos h

theorem Magnitude.units_of_le_val {m : Magnitude} (h : blockSize ≤ m.val) :
    m.units = (blockSize + m.val % blockSize) * Nat.pow 2 (m.val / blockSize - 1) :=
  if_neg (Nat.not_lt.mpr h)

theorem Magnitude.units_lt (m : Magnitude) :
    m.units < blockSize * Nat.pow 2 (m.val / blockSize) := by
  by_cases h : m.val < blockSize
  · rw [units_of_val_lt h, Nat.div_eq_of_lt h]
    simpa using h
  · rw [Nat.not_lt] at h
    have hmod : m.val % blockSize < blockSize := Nat.mod_lt _ (by decide)
    obtain ⟨block, hb⟩ : ∃ block, m.val / blockSize = block + 1 :=
      Nat.exists_eq_add_one.mpr (Nat.div_pos h (by decide))
    rw [units_of_le_val h, hb, Nat.add_sub_cancel]
    calc (blockSize + m.val % blockSize) * Nat.pow 2 block
        < (blockSize * 2) * Nat.pow 2 block :=
          Nat.mul_lt_mul_of_pos_right (by omega) (Nat.two_pow_pos block)
      _ = blockSize * Nat.pow 2 (block + 1) := by
          rw [Nat.mul_assoc, Nat.mul_comm 2]
          rfl

theorem Magnitude.le_units {m : Magnitude} (h : blockSize ≤ m.val) :
    blockSize * Nat.pow 2 (m.val / blockSize - 1) ≤ m.units := by
  rw [units_of_le_val h]
  exact Nat.mul_le_mul_right _ (Nat.le_add_right _ _)

theorem Magnitude.units_lt_units {a b : Magnitude} (h : a.val < b.val) : a.units < b.units := by
  have hdiv : a.val / blockSize ≤ b.val / blockSize := Nat.div_le_div_right (Nat.le_of_lt h)
  by_cases hb : b.val < blockSize
  · rw [units_of_val_lt hb, units_of_val_lt (Nat.lt_trans h hb)]
    exact h
  rw [Nat.not_lt] at hb
  by_cases hsame : a.val / blockSize = b.val / blockSize
  · have ha : blockSize ≤ a.val := by
      have hpos : 0 < a.val / blockSize := hsame ▸ Nat.div_pos hb (by decide)
      exact (Nat.div_pos_iff.mp hpos).2
    have hmod : a.val % blockSize < b.val % blockSize := by
      have hda := Nat.div_add_mod a.val blockSize
      have hdb := Nat.div_add_mod b.val blockSize
      rw [hsame] at hda
      omega
    rw [units_of_le_val ha, units_of_le_val hb, hsame]
    exact Nat.mul_lt_mul_of_pos_right (by omega) (Nat.two_pow_pos _)
  · have hpow : Nat.pow 2 (a.val / blockSize) ≤ Nat.pow 2 (b.val / blockSize - 1) :=
      Nat.pow_le_pow_right (by decide) (by omega)
    calc a.units < blockSize * Nat.pow 2 (a.val / blockSize) := a.units_lt
      _ ≤ blockSize * Nat.pow 2 (b.val / blockSize - 1) := Nat.mul_le_mul_left _ hpow
      _ ≤ b.units := le_units hb

theorem Magnitude.units_lt_units_iff {a b : Magnitude} : a.units < b.units ↔ a.val < b.val := by
  constructor
  · intro h
    rcases Nat.lt_trichotomy a.val b.val with hlt | heq | hgt
    · exact hlt
    · rw [Fin.ext heq] at h
      exact absurd h (Nat.lt_irrefl _)
    · exact absurd (Nat.lt_trans h (units_lt_units hgt)) (Nat.lt_irrefl _)
  · exact units_lt_units

theorem Double.lt_finite_iff {a b : Magnitude} :
    (finite false a).lt (finite false b) = true ↔ a.units < b.units := by
  rw [Magnitude.units_lt_units_iff, ← Int.ofNat_lt]
  exact decide_eq_true_iff

theorem Double.not_lt_negative (a b : Magnitude) : ¬(finite false a).lt (finite true b) = true := by
  have h : ¬(a.val : Int) < -(b.val : Int) := by omega
  exact fun hlt => h (decide_eq_true_iff.mp hlt)

theorem Double.not_lt_negativeInfinity (a : Magnitude) :
    ¬(finite false a).lt (infinite true) = true := by
  have h : ¬(a.val : Int) < -(magnitudeCount : Int) := by omega
  exact fun hlt => h (decide_eq_true_iff.mp hlt)

theorem Double.not_infinity_lt (a : Magnitude) : ¬(infinite false).lt (finite false a) = true := by
  have ha := a.isLt
  have h : ¬(magnitudeCount : Int) < (a.val : Int) := by omega
  exact fun hlt => h (decide_eq_true_iff.mp hlt)

theorem Double.between_iff {low high : Magnitude} {d : Double} :
    ((finite false low).lt d && d.lt (finite false high)) = true ↔
      ∃ m, d = finite false m ∧ low.units < m.units ∧ m.units < high.units := by
  rw [Bool.and_eq_true]
  cases d with
  | nan => exact ⟨nofun, nofun⟩
  | infinite negative =>
    refine ⟨fun h => ?_, nofun⟩
    cases negative with
    | false => exact absurd h.2 (not_infinity_lt high)
    | true => exact absurd h.1 (not_lt_negativeInfinity low)
  | finite negative m =>
    cases negative with
    | false =>
      rw [lt_finite_iff, lt_finite_iff]
      constructor
      · intro h
        exact ⟨m, rfl, h⟩
      · rintro ⟨_, hm, h⟩
        cases hm
        exact h
    | true => exact ⟨fun h => absurd h.1 (not_lt_negative low m), nofun⟩

end MonicFactor
