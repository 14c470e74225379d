import MonicFactor.Options.Basic
import MonicFactor.Proofs.Double.Order

/-! The ranges that options are held to: a precision of 32 bits or more, and a delta whose exact
value lies between a quarter and one. -/

namespace MonicFactor

/-- Strictly between a quarter and one, by the exact value. -/
def InDeltaRange (delta : Double) : Prop :=
  ∃ m : Magnitude, delta = .finite false m ∧ unitsPerOne < 4 * m.units ∧ m.units < unitsPerOne

theorem exists_deltaFloor :
    ∃ m : Magnitude, deltaFloor = .finite false m ∧ 4 * m.units = unitsPerOne :=
  ⟨⟨1021 * blockSize, by decide⟩, by decide +kernel, by decide +kernel⟩

theorem exists_deltaCeiling :
    ∃ m : Magnitude, deltaCeiling = .finite false m ∧ m.units = unitsPerOne :=
  ⟨⟨1023 * blockSize, by decide⟩, by decide +kernel, by decide +kernel⟩

theorem inDeltaRange_iff {delta : Double} :
    InDeltaRange delta ↔ (deltaFloor.lt delta && delta.lt deltaCeiling) = true := by
  obtain ⟨low, hlow, hquarter⟩ := exists_deltaFloor
  obtain ⟨high, hhigh, hone⟩ := exists_deltaCeiling
  rw [hlow, hhigh, Double.between_iff, InDeltaRange, hone, ← hquarter]
  simp only [Nat.mul_lt_mul_left (show 0 < 4 by decide)]

theorem Options.validate_eq_ok_iff {options : Options} :
    options.validate = .ok () ↔ 32 ≤ options.precision.toNat ∧ InDeltaRange options.delta := by
  have hp : options.precision < leastPrecision ↔ options.precision.toNat < 32 :=
    UInt32.lt_iff_toNat_lt
  rw [inDeltaRange_iff, validate]
  by_cases hlow : options.precision < leastPrecision
  · have hn := hp.mp hlow
    rw [if_pos hlow]
    exact ⟨nofun, fun h => absurd h.1 (by omega)⟩
  · have hn : ¬options.precision.toNat < 32 := fun h => hlow (hp.mpr h)
    rw [if_neg hlow]
    by_cases hd : (deltaFloor.lt options.delta && options.delta.lt deltaCeiling) = true
    · rw [if_pos hd]
      exact ⟨fun _ => ⟨by omega, hd⟩, fun _ => rfl⟩
    · rw [if_neg hd]
      exact ⟨nofun, fun h => absurd h.2 hd⟩

end MonicFactor
