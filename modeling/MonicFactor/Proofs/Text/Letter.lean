import MonicFactor.Text.Character

/-! Lower case, letters and blanks: capitals of ASCII are lowered, no sign, digit or mark is a
letter, and no digit is a blank. -/

namespace MonicFactor

theorem le_toNat_of_isLetter {c : Char} (h : isLetter c = true) : 0x41 ≤ c.toNat := by
  have hall : letterRanges.all (fun range => 0x41 ≤ range.1) = true := by decide +kernel
  obtain ⟨range, hr, hc⟩ := List.any_eq_true.mp h
  have hle := List.all_eq_true.mp hall range hr
  simp only [Bool.and_eq_true, decide_eq_true_eq] at hle hc
  omega

theorem isLetter_of_isDigit {c : Char} (h : c.isDigit = true) : isLetter c = false := by
  have hc : c.toNat ≤ 57 := by
    simp only [Char.isDigit, Bool.and_eq_true, decide_eq_true_eq] at h
    exact h.2
  rw [← Bool.not_eq_true]
  intro hl
  have := le_toNat_of_isLetter hl
  omega

theorem toLower_cases (c : Char) :
    c.toLower = c ∨ (0x41 ≤ c.toNat ∧ c.toNat ≤ 0x5A ∧ c.toLower.toNat = c.toNat + 0x20) := by
  unfold Char.toLower
  split
  · rename_i h
    obtain ⟨hlo, hhi⟩ := h
    rw [ge_iff_le, UInt32.le_iff_toNat_le] at hlo
    rw [UInt32.le_iff_toNat_le] at hhi
    have hlo' : 0x41 ≤ c.toNat := hlo
    have hhi' : c.toNat ≤ 0x5A := hhi
    refine .inr ⟨hlo', hhi', ?_⟩
    have hv : c.val.toNat = c.toNat := rfl
    change (c.val + 0x20).toNat = c.val.toNat + 0x20
    rw [UInt32.toNat_add]
    change (c.val.toNat + 0x20) % 2 ^ 32 = _
    omega
  · exact .inl rfl

theorem toLower_toLower (c : Char) : c.toLower.toLower = c.toLower := by
  rcases toLower_cases c with h | ⟨hlo, hhi, h⟩
  · rw [h, h]
  · rcases toLower_cases c.toLower with hh | ⟨hlo', hhi', -⟩
    · exact hh
    · omega

/-- Only letters are lowered, and to letters. -/
theorem toLower_of_not_isLetter {c : Char} (h : isLetter c.toLower = false) : c.toLower = c := by
  rcases toLower_cases c with hc | ⟨hlo, hhi, hc⟩
  · exact hc
  · have hl : isLetter c.toLower = true := by
      refine List.any_eq_true.mpr ⟨(0x61, 0x7A), List.mem_cons_of_mem _ List.mem_cons_self, ?_⟩
      simp only [Bool.and_eq_true, decide_eq_true_eq]
      omega
    rw [hl] at h
    cases h

theorem isBlank_of_isDigit {c : Char} (h : c.isDigit = true) : isBlank c = false := by
  have hc : 48 ≤ c.toNat ∧ c.toNat ≤ 57 := by
    simp only [Char.isDigit, Bool.and_eq_true, decide_eq_true_eq] at h
    exact h
  have hall : blankRanges.all (fun range => range.2 < 48 || 57 < range.1) = true := by decide
  rw [← Bool.not_eq_true]
  intro hb
  obtain ⟨range, hr, hin⟩ := List.any_eq_true.mp hb
  have hout := List.all_eq_true.mp hall range hr
  simp only [Bool.and_eq_true, Bool.or_eq_true, decide_eq_true_eq] at hin hout
  omega

theorem toLower_of_isDigit {c : Char} (h : c.isDigit = true) : c.toLower = c := by
  have hc : c.toNat ≤ 57 := by
    simp only [Char.isDigit, Bool.and_eq_true, decide_eq_true_eq] at h
    exact h.2
  rcases toLower_cases c with hl | hl
  · exact hl
  · omega

theorem trim_of_not_isBlank {cs : List Char} (h : ∀ c ∈ cs, isBlank c = false) : trim cs = cs := by
  have hstart {ds : List Char} (hd : ∀ c ∈ ds, isBlank c = false) : ds.dropWhile isBlank = ds := by
    cases ds with
    | nil => rfl
    | cons c ds => rw [List.dropWhile_cons_of_neg (by simp [hd c])]
  rw [trim, trimStart, hstart h, trimEnd, hstart (by simpa using h), List.reverse_reverse]

end MonicFactor
