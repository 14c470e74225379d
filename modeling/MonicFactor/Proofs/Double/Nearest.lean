import MonicFactor.Double.Shortest
import MonicFactor.Proofs.Double.Rounding

/-! The magnitude of a decimal is the one nearest to its value, however the value is split into
digits and a power, and the shortest decimal of a magnitude reads back as it. -/

namespace MonicFactor

section Value

variable {d : Decimal}

theorem ten_pow_le_digits (h : d.digits ≠ 0) : 10 ^ (3 * d.digits.log2 / 10) ≤ d.digits := by
  have hbits : 10 ^ (3 * d.digits.log2 / 10) ≤ 2 ^ d.digits.log2 := by
    rw [← Nat.pow_le_pow_iff_left (show 10 ≠ 0 by decide), ← Nat.pow_mul, ← Nat.pow_mul]
    -- three digits are worth less than ten bits
    calc 10 ^ (3 * d.digits.log2 / 10 * 10)
        ≤ 10 ^ (3 * d.digits.log2) := Nat.pow_le_pow_right (by decide) (by omega)
      _ = 1000 ^ d.digits.log2 := by rw [Nat.pow_mul]
      _ ≤ 1024 ^ d.digits.log2 := Nat.pow_le_pow_left (by decide) _
      _ = 2 ^ (d.digits.log2 * 10) := by rw [Nat.mul_comm, Nat.pow_mul]
  exact Nat.le_trans hbits (Nat.log2_self_le h)

theorem digits_lt_ten_pow : d.digits < 10 ^ (d.digits.log2 / 3 + 1) := by
  calc d.digits < 2 ^ (d.digits.log2 + 1) := Nat.lt_log2_self
    _ ≤ 2 ^ (3 * (d.digits.log2 / 3 + 1)) := Nat.pow_le_pow_right (by decide) (by omega)
    _ = 8 ^ (d.digits.log2 / 3 + 1) := by rw [Nat.pow_mul]
    _ ≤ 10 ^ (d.digits.log2 / 3 + 1) := Nat.pow_le_pow_left (by decide) _

/-- So many digits are outside the range on either side. -/
theorem exists_outside :
    ∃ k n, 2099 ≤ k ∧ n = 401 ∧ 2 ^ k ≤ 10 ^ n * unitsPerOne ∧ 2 * unitsPerOne ≤ 10 ^ n :=
  ⟨2099, 401, Nat.le_refl _, rfl, by decide +kernel, by decide +kernel⟩

theorem Decimal.ofRatio?_of_lowest (hz : d.digits ≠ 0) (h : 400 < d.lowest) :
    Magnitude.ofRatio? (d.digits * 10 ^ d.power.toNat) (10 ^ (-d.power).toNat) = none := by
  obtain ⟨k, n, hk, hn, hbits, -⟩ := exists_outside
  refine Magnitude.ofRatio?_large (Nat.pow_pos (by decide)) hk ?_
  rw [lowest] at h
  have hpower : n + (-d.power).toNat ≤ 3 * d.digits.log2 / 10 + d.power.toNat := by omega
  calc 2 ^ k * 10 ^ (-d.power).toNat
      ≤ 10 ^ n * unitsPerOne * 10 ^ (-d.power).toNat := Nat.mul_le_mul_right _ hbits
    _ = 10 ^ (n + (-d.power).toNat) * unitsPerOne := by rw [Nat.pow_add, Nat.mul_right_comm]
    _ ≤ 10 ^ (3 * d.digits.log2 / 10 + d.power.toNat) * unitsPerOne :=
        Nat.mul_le_mul_right _ (Nat.pow_le_pow_right (by decide) hpower)
    _ ≤ d.digits * 10 ^ d.power.toNat * unitsPerOne := by
        rw [Nat.pow_add]
        exact Nat.mul_le_mul_right _ (Nat.mul_le_mul_right _ (ten_pow_le_digits hz))

theorem Decimal.ofRatio?_of_highest (h : d.highest < -400) :
    Magnitude.ofRatio? (d.digits * 10 ^ d.power.toNat) (10 ^ (-d.power).toNat) = some .zero := by
  obtain ⟨-, n, -, hn, -, hhalf⟩ := exists_outside
  refine Magnitude.ofRatio?_small ?_
  rw [highest] at h
  have hwhole : d.power.toNat = 0 := by omega
  have hpower : d.digits.log2 / 3 + 1 + n ≤ (-d.power).toNat := by omega
  rw [hwhole, Nat.pow_zero, Nat.mul_one]
  calc 2 * (d.digits * unitsPerOne) = d.digits * (2 * unitsPerOne) := Nat.mul_left_comm _ _ _
    _ ≤ d.digits * 10 ^ n := Nat.mul_le_mul_left _ hhalf
    _ < 10 ^ (d.digits.log2 / 3 + 1) * 10 ^ n :=
        Nat.mul_lt_mul_of_pos_right digits_lt_ten_pow (Nat.pow_pos (by decide))
    _ = 10 ^ (d.digits.log2 / 3 + 1 + n) := (Nat.pow_add ..).symm
    _ ≤ 10 ^ (-d.power).toNat := Nat.pow_le_pow_right (by decide) hpower

/-- The tests for numbers far out of range only save work. -/
theorem Decimal.magnitude?_eq (d : Decimal) :
    d.magnitude? =
      Magnitude.ofRatio? (d.digits * 10 ^ d.power.toNat) (10 ^ (-d.power).toNat) := by
  by_cases hz : d.digits = 0
  · rw [magnitude?, if_pos hz, hz, Nat.zero_mul]
    exact (Magnitude.ofRatio?_of_place_eq_zero (nearestPlace_zero _)).symm
  by_cases hl : 400 < d.lowest
  · rw [magnitude?, if_neg hz, if_pos hl, ofRatio?_of_lowest hz hl]
  by_cases hh : d.highest < -400
  · rw [magnitude?, if_neg hz, if_neg hl, if_pos hh, ofRatio?_of_highest hh]
  · rw [magnitude?, if_neg hz, if_neg hl, if_neg hh]
    rfl

/-- The same number with zeros behind its digits. -/
def Decimal.pad (d : Decimal) (zeros : Nat) : Decimal :=
  ⟨d.digits * 10 ^ zeros, d.power - zeros⟩

theorem Decimal.magnitude?_pad (d : Decimal) (zeros : Nat) :
    (d.pad zeros).magnitude? = d.magnitude? := by
  have hpos (n : Nat) : 0 < 10 ^ n := Nat.pow_pos (by decide)
  rw [magnitude?_eq, magnitude?_eq]
  apply Magnitude.ofRatio?_congr (hpos _) (hpos _)
  have hpower : zeros + (d.power - zeros).toNat + (-d.power).toNat =
      d.power.toNat + (-(d.power - zeros)).toNat := by omega
  calc d.digits * 10 ^ zeros * 10 ^ (d.power - zeros).toNat * 10 ^ (-d.power).toNat
      = d.digits * 10 ^ (zeros + (d.power - zeros).toNat + (-d.power).toNat) := by
        rw [Nat.pow_add, Nat.pow_add, Nat.mul_assoc d.digits, Nat.mul_assoc d.digits]
    _ = d.digits * 10 ^ d.power.toNat * 10 ^ (-(d.power - zeros)).toNat := by
        rw [hpower, Nat.pow_add, Nat.mul_assoc]

end Value

section Shortest

theorem Magnitude.exists_exact (m : Magnitude) :
    ∃ (scale places : Nat), m.exact = ⟨m.units * scale, -places⟩ ∧
      scale * unitsPerOne = 10 ^ places :=
  ⟨_, 1074, rfl, by decide +kernel⟩

theorem Magnitude.magnitude?_exact (m : Magnitude) : m.exact.magnitude? = some m := by
  obtain ⟨scale, places, hexact, hscale⟩ := m.exists_exact
  have hwhole : (-(places : Int)).toNat = 0 := by omega
  have hplaces : (-(-(places : Int))).toNat = places := by omega
  rw [hexact, Decimal.magnitude?_eq, hwhole, hplaces, ← m.ofRatio?_units]
  apply ofRatio?_congr (Nat.pow_pos (by decide)) unitsPerOne_pos
  rw [Nat.pow_zero, Nat.mul_one, Nat.mul_assoc, hscale]

theorem Magnitude.magnitude?_onGrid {m : Magnitude} {tie : Tie} {power : Int} {d : Decimal}
    (h : m.onGrid? tie power = some d) : d.magnitude? = some m := by
  simp only [onGrid?] at h
  generalize m.steps power = steps at h
  obtain ⟨num, den⟩ := steps
  simp only at h
  split at h
  · cases h
  · rename_i hbelow _
    cases h
    exact eq_of_beq hbelow
  · rename_i _ habove
    cases h
    exact eq_of_beq habove
  · rename_i hbelow habove
    -- both read back, so whichever is chosen does
    have hchoice : d = ⟨num / den, power⟩ ∨ d = ⟨num / den + 1, power⟩ := by
      by_cases hlow : 2 * (num % den) < den
      · rw [if_pos hlow] at h
        exact .inl (Option.some.inj h).symm
      by_cases hhigh : den < 2 * (num % den)
      · rw [if_neg hlow, if_pos hhigh] at h
        exact .inr (Option.some.inj h).symm
      rw [if_neg hlow, if_neg hhigh] at h
      cases tie with
      | up => exact .inr (Option.some.inj h).symm
      | even =>
        by_cases heven : num / den % 2 = 0
        · rw [if_pos heven] at h
          exact .inl (Option.some.inj h).symm
        · rw [if_neg heven] at h
          exact .inr (Option.some.inj h).symm
    rcases hchoice with rfl | rfl
    · exact eq_of_beq hbelow
    · exact eq_of_beq habove

/-- What is printed of a magnitude reads back as it. -/
theorem Magnitude.magnitude?_shortest (m : Magnitude) (tie : Tie) :
    (m.shortest tie).magnitude? = some m := by
  rw [shortest]
  cases h : (List.range 17).findSome? fun (n : Nat) => m.onGrid? tie (m.exponent - n) with
  | none => exact m.magnitude?_exact
  | some d =>
    obtain ⟨n, -, hn⟩ := List.exists_of_findSome?_eq_some h
    exact m.magnitude?_onGrid hn

end Shortest

end MonicFactor
