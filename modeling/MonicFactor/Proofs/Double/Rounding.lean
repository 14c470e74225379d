import Mathlib.Algebra.Group.Nat.Defs
import MonicFactor.Proofs.Double.Order

/-! Rounding a quotient to a magnitude. Only the value of the quotient counts, every magnitude is
the rounding of its own value, and what is far out of range is known without rounding. -/

namespace MonicFactor

section Scaling

variable {k : Nat} (hk : 0 < k) (num den : Nat)

include hk

theorem divideRounded_mul_left :
    divideRounded (k * num) (k * den) = divideRounded num den := by
  have hdiv : k * num / (k * den) = num / den := Nat.mul_div_mul_left num den hk
  have hmod : 2 * (k * num % (k * den)) = k * (2 * (num % den)) := by
    rw [Nat.mul_mod_mul_left, Nat.mul_left_comm]
  simp only [divideRounded, hdiv, hmod, Nat.mul_lt_mul_left hk]

theorem nearestPlace_mul_left : nearestPlace (k * num) (k * den) = nearestPlace num den := by
  have hunits : k * num * unitsPerOne / (k * den) = num * unitsPerOne / den := by
    rw [Nat.mul_assoc, Nat.mul_div_mul_left _ _ hk]
  simp only [nearestPlace, hunits]
  rw [Nat.mul_assoc k num, Nat.mul_assoc k den, divideRounded_mul_left hk]

theorem Magnitude.ofRatio?_mul_left : ofRatio? (k * num) (k * den) = ofRatio? num den := by
  simp only [ofRatio?, nearestPlace_mul_left hk]

end Scaling

/-- Quotients of one value have one rounding. -/
theorem Magnitude.ofRatio?_congr {num den num' den' : Nat} (hd : 0 < den) (hd' : 0 < den')
    (h : num * den' = num' * den) : ofRatio? num den = ofRatio? num' den' := by
  rw [← ofRatio?_mul_left hd' num den, ← ofRatio?_mul_left hd num' den', Nat.mul_comm den' num, h,
    Nat.mul_comm den num', Nat.mul_comm den' den]

section Exact

theorem unitsPerOne_pos : 0 < unitsPerOne := by decide +kernel

theorem divideRounded_mul_self (n : Nat) {den : Nat} (hd : 0 < den) :
    divideRounded (n * den) den = n := by
  have hmod : n * den % den = 0 := Nat.mul_mod_left n den
  have hdiv : n * den / den = n := Nat.mul_div_cancel n hd
  simp only [divideRounded, hmod, hdiv]
  exact if_pos hd

theorem nearestPlace_of_log2 {units : Nat} {block n : Nat} (hl : units.log2 - 52 = block)
    (hu : units = n * Nat.pow 2 block) :
    nearestPlace units unitsPerOne = block * blockSize + n := by
  have hpow : 0 < unitsPerOne * Nat.pow 2 block :=
    Nat.mul_pos unitsPerOne_pos (Nat.two_pow_pos block)
  have hwhole : units * unitsPerOne / unitsPerOne = units :=
    Nat.mul_div_cancel units unitsPerOne_pos
  have hsplit : units * unitsPerOne = n * (unitsPerOne * Nat.pow 2 block) := by
    rw [hu, Nat.mul_assoc, Nat.mul_comm (Nat.pow 2 block)]
  simp only [nearestPlace, hwhole, hl]
  rw [hsplit, divideRounded_mul_self n hpow]

theorem Magnitude.nearestPlace_units (m : Magnitude) :
    nearestPlace m.units unitsPerOne = m.val := by
  by_cases h : m.val < blockSize
  · have hu := units_of_val_lt h
    have hl : m.units.log2 - 52 = 0 := by
      have hlt : m.units < 2 ^ 52 := by
        rw [hu]
        exact h
      by_cases hz : m.units = 0
      · rw [hz]
        rfl
      · have := (Nat.log2_lt hz).mpr hlt
        omega
    rw [nearestPlace_of_log2 hl (Nat.mul_one m.units).symm, hu, Nat.zero_mul, Nat.zero_add]
  · rw [Nat.not_lt] at h
    have hmod : m.val % blockSize < blockSize := Nat.mod_lt _ (by decide)
    obtain ⟨block, hb⟩ : ∃ block, m.val / blockSize = block + 1 :=
      Nat.exists_eq_add_one.mpr (Nat.div_pos h (by decide))
    have hu : m.units = (blockSize + m.val % blockSize) * 2 ^ block := by
      rw [units_of_le_val h, hb]
      rfl
    have hne : m.units ≠ 0 := by
      rw [hu]
      exact Nat.mul_ne_zero (by rw [blockSize]; omega) (Nat.ne_of_gt (Nat.two_pow_pos block))
    have hlog : m.units.log2 = 52 + block := by
      have hlt : blockSize + m.val % blockSize < 2 ^ 52 * 2 := Nat.add_lt_add_left hmod blockSize
      rw [Nat.log2_eq_iff hne, hu, Nat.pow_succ, Nat.pow_add, Nat.mul_right_comm]
      constructor
      · exact Nat.mul_le_mul_right _ (Nat.le_add_right blockSize _)
      · exact Nat.mul_lt_mul_of_pos_right hlt (Nat.two_pow_pos block)
    have hl : m.units.log2 - 52 = block := by omega
    have hplace := Nat.div_add_mod m.val blockSize
    rw [hb, Nat.mul_succ, Nat.mul_comm blockSize block] at hplace
    rw [nearestPlace_of_log2 hl hu]
    omega

/-- Every magnitude is the one nearest to its own value. -/
theorem Magnitude.ofRatio?_units (m : Magnitude) : ofRatio? m.units unitsPerOne = some m := by
  have hp := m.nearestPlace_units
  have hlt : nearestPlace m.units unitsPerOne < magnitudeCount := hp ▸ m.isLt
  rw [ofRatio?, dif_pos hlt]
  exact congrArg some (Fin.ext hp)

end Exact

section Range

theorem nearestPlace_zero (den : Nat) : nearestPlace 0 den = 0 := by
  have hunits : 0 * unitsPerOne = 0 := Nat.zero_mul _
  have hdiv : 0 / den = 0 := Nat.zero_div den
  have hlog : Nat.log2 0 - 52 = 0 := rfl
  simp only [nearestPlace, hunits, hdiv, hlog, divideRounded, Nat.zero_mod, Nat.zero_div]
  split
  · rfl
  · split
    · rename_i h
      exact absurd h (Nat.not_lt_zero _)
    · rfl

theorem Magnitude.ofRatio?_of_place_eq_zero {num den : Nat} (h : nearestPlace num den = 0) :
    ofRatio? num den = some zero := by
  have hlt : nearestPlace num den < magnitudeCount := by
    rw [h]
    decide
  rw [ofRatio?, dif_pos hlt]
  exact congrArg some (Fin.ext h)

/-- A quotient that is less than half a unit is rounded to zero. -/
theorem Magnitude.ofRatio?_small {num den : Nat} (h : 2 * (num * unitsPerOne) < den) :
    ofRatio? num den = some zero := by
  apply ofRatio?_of_place_eq_zero
  generalize hu : num * unitsPerOne = units at h
  have hlt : units < den := by omega
  have hdiv : units / den = 0 := Nat.div_eq_of_lt hlt
  have hone : den * Nat.pow 2 0 = den := Nat.mul_one den
  have hlog : Nat.log2 0 - 52 = 0 := rfl
  simp only [nearestPlace, hu, hdiv, hlog, hone, divideRounded, Nat.mod_eq_of_lt hlt]
  rw [if_pos h, Nat.zero_mul]

/-- A quotient whose binary exponent is too large is past the last magnitude. -/
theorem Magnitude.ofRatio?_large {num den k : Nat} (hd : 0 < den) (hk : 2099 ≤ k)
    (h : 2 ^ k * den ≤ num * unitsPerOne) : ofRatio? num den = none := by
  generalize hq : num * unitsPerOne / den = quotient
  have hquotient : 2 ^ k ≤ quotient := hq ▸ (Nat.le_div_iff_mul_le hd).mpr h
  have hne : quotient ≠ 0 := Nat.ne_of_gt (Nat.lt_of_lt_of_le (Nat.two_pow_pos k) hquotient)
  have hlog : k ≤ quotient.log2 := (Nat.le_log2 hne).mpr hquotient
  have hplace : ¬nearestPlace num den < magnitudeCount := by
    have hblock : 2047 * blockSize ≤ (quotient.log2 - 52) * blockSize :=
      Nat.mul_le_mul_right _ (by omega)
    rw [Nat.not_lt, nearestPlace, hq]
    exact Nat.le_trans hblock (Nat.le_add_right _ _)
  rw [ofRatio?, dif_neg hplace]

end Range

end MonicFactor
