import MonicFactor.Numeral

/-! Runs of decimal digits: what they are worth, and what is read of them up to a limit. Numbers
that are printed read back, as far as they are in range. -/

namespace MonicFactor

theorem ofDigitChars_cons_digitValue (c : Char) (ds : List Char) (value : Nat) :
    Nat.ofDigitChars 10 (c :: ds) value = Nat.ofDigitChars 10 ds (10 * value + digitValue c) :=
  Nat.ofDigitChars_cons

theorem le_ofDigitChars (ds : List Char) (value : Nat) : value ≤ Nat.ofDigitChars 10 ds value := by
  induction ds generalizing value with
  | nil => simp
  | cons c ds ih =>
    rw [ofDigitChars_cons_digitValue]
    exact Nat.le_trans (by omega) (ih _)

theorem isDigit_toDigits (n : Nat) : ∀ c ∈ Nat.toDigits 10 n, c.isDigit = true :=
  fun _ hc => Nat.isDigit_of_mem_toDigits (by decide) (by decide) hc

theorem exists_toDigits_cons (n : Nat) :
    ∃ c cs, Nat.toDigits 10 n = c :: cs ∧ c ≠ '-' ∧ c ≠ '+' := by
  obtain ⟨c, cs, hc⟩ := List.exists_cons_of_ne_nil (Nat.toDigits_ne_nil (n := n) (b := 10))
  have hd : c.isDigit = true := isDigit_toDigits n c (hc ▸ List.mem_cons_self)
  refine ⟨c, cs, hc, ?_, ?_⟩
  · rintro rfl
    cases hd
  · rintro rfl
    cases hd

section Limit

variable {limit : Nat}

/-- Wherever the limit is passed, it is the whole run that decides. -/
theorem readDigits_of_isDigit {ds : List Char} (hd : ∀ c ∈ ds, c.isDigit = true) {value : Nat}
    (hv : value ≤ limit) :
    readDigits limit value ds =
      if Nat.ofDigitChars 10 ds value ≤ limit then .ok (Nat.ofDigitChars 10 ds value)
      else .error .tooLarge := by
  induction ds generalizing value with
  | nil => simp [readDigits, hv]
  | cons c ds ih =>
    have hc := hd c List.mem_cons_self
    have hle := le_ofDigitChars ds (10 * value + digitValue c)
    rw [ofDigitChars_cons_digitValue, readDigits, if_pos hc]
    by_cases hb : 10 * value + digitValue c ≤ limit
    · rw [if_pos hb]
      exact ih (fun d hm => hd d (List.mem_cons_of_mem _ hm)) hb
    · rw [if_neg hb, if_neg fun hh => hb (Nat.le_trans hle hh)]

theorem isDigit_of_readDigits {ds : List Char} {value n : Nat}
    (h : readDigits limit value ds = .ok n) : ∀ c ∈ ds, c.isDigit = true := by
  induction ds generalizing value with
  | nil => exact fun _ hc => absurd hc List.not_mem_nil
  | cons c ds ih =>
    rw [readDigits] at h
    by_cases hc : c.isDigit = true
    · rw [if_pos hc] at h
      by_cases hb : 10 * value + digitValue c ≤ limit
      · rw [if_pos hb] at h
        exact List.forall_mem_cons.mpr ⟨hc, ih h⟩
      · rw [if_neg hb] at h
        cases h
    · rw [if_neg hc] at h
      cases h

theorem readNatural_of_head {c : Char} (hc : c ≠ '+') (cs : List Char) :
    readNatural limit (c :: cs) = readDigits limit 0 (c :: cs) := by
  unfold readNatural
  split
  · rename_i h
    cases h
  · rename_i h
    exact absurd (List.cons.inj h).1 hc
  · rfl

theorem readNatural_toDigits (n : Nat) :
    readNatural limit (Nat.toDigits 10 n) = if n ≤ limit then .ok n else .error .tooLarge := by
  obtain ⟨c, cs, hc, -, hplus⟩ := exists_toDigits_cons n
  have hread := readDigits_of_isDigit (isDigit_toDigits n) (Nat.zero_le limit)
  rw [Nat.ofDigitChars_ten_toDigits] at hread
  rw [hc, readNatural_of_head hplus, ← hc, hread]

/-- A number with a point or an exponent is no whole number, whatever its value. -/
theorem isDigit_or_plus_of_readNatural {cs : List Char} {n : Nat}
    (h : readNatural limit cs = .ok n) : ∀ c ∈ cs, c.isDigit = true ∨ c = '+' := by
  unfold readNatural at h
  split at h
  · cases h
  · have hd := isDigit_of_readDigits h
    exact List.forall_mem_cons.mpr ⟨.inr rfl, fun c hc => .inl (hd c hc)⟩
  · exact fun c hc => .inl (isDigit_of_readDigits h c hc)

end Limit

section Printed

theorem toList_toString (n : Int) :
    (toString n).toList = (if n < 0 then ['-'] else []) ++ Nat.toDigits 10 n.natAbs := by
  rw [Int.toString_eq_repr, Int.repr_eq_if]
  by_cases hn : 0 ≤ n
  · have habs : n.toNat = n.natAbs := by omega
    rw [if_pos hn, if_neg (Int.not_lt.mpr hn), habs]
    simp [Nat.repr_eq_ofList_toDigits]
  · have habs : (-n).toNat = n.natAbs := by omega
    rw [if_neg hn, if_pos (Int.not_le.mp hn), habs]
    simp [Nat.repr_eq_ofList_toDigits]

/-- Every number of a range that reaches as far as this reads back from its text. -/
theorem readInteger_toString {below above : Nat} {n : Int} (hlow : -(below : Int) ≤ n)
    (hhigh : n ≤ above) : readInteger below above (toString n).toList = .ok n := by
  obtain ⟨c, cs, hc, hminus, -⟩ := exists_toDigits_cons n.natAbs
  rw [toList_toString]
  by_cases hn : n < 0
  · have hread := readDigits_of_isDigit (isDigit_toDigits n.natAbs) (Nat.zero_le below)
    rw [Nat.ofDigitChars_ten_toDigits, if_pos (by omega), hc] at hread
    have habs : -(n.natAbs : Int) = n := by omega
    rw [if_pos hn, hc, List.singleton_append, readInteger, hread]
    exact congrArg Except.ok habs
  · have hread : readNatural above (Nat.toDigits 10 n.natAbs) = _ := readNatural_toDigits n.natAbs
    rw [if_pos (by omega), hc] at hread
    have habs : (n.natAbs : Int) = n := by omega
    rw [if_neg hn, hc, List.nil_append, readInteger, hread]
    · exact congrArg Except.ok habs
    · intro d ds hh
      exact hminus (List.cons.inj hh).1

end Printed

end MonicFactor
