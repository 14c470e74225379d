import MonicFactor.Json.Number
import MonicFactor.Proofs.Double.ReadBack
import MonicFactor.Proofs.Text.Letter

/-! The text of a JSON number, read as the text of a field: it has no blanks around it, it reads as
the same double, and it reads as a whole number of 32 bits exactly if the number is one. -/

namespace MonicFactor

section Shown

/-- The characters of numbers. -/
def IsNumberChar (c : Char) : Prop := c.isDigit = true ∨ c ∈ ['.', 'e', '+', '-']

theorem isBlank_of_isNumberChar {c : Char} (h : IsNumberChar c) : isBlank c = false := by
  rcases h with h | h
  · exact isBlank_of_isDigit h
  · have hall : ['.', 'e', '+', '-'].all (fun d => isBlank d == false) = true := by decide
    exact eq_of_beq (List.all_eq_true.mp hall c h)

theorem DecimalText.isNumberChar_of_mem {t : DecimalText} {c : Char} (h : c ∈ t.text) :
    IsNumberChar c := by
  rcases List.mem_append.mp h with h | h
  · exact .inl (t.isDigit_whole c h)
  rcases List.mem_append.mp h with h | h
  · rw [fractionText] at h
    by_cases hf : t.fraction.isEmpty = true
    · rw [if_pos hf] at h
      cases h
    · rw [if_neg hf] at h
      rcases List.mem_cons.mp h with rfl | h
      · exact .inr (by simp)
      · exact .inl (t.isDigit_fraction c h)
  · cases he : t.exponent with
    | none =>
      rw [he] at h
      cases h
    | some n =>
      rw [he, powerText] at h
      rcases List.mem_cons.mp h with rfl | h
      · exact .inr (by simp)
      rcases List.mem_cons.mp h with rfl | h
      · by_cases hn : n < 0 <;> simp [hn, IsNumberChar]
      · exact .inl (isDigit_toDigits _ c h)

end Shown

namespace JsonNumber

theorem marksByZeros_layout : layout.MarksByZeros := ⟨1, rfl⟩

theorem exists_wholeText (n : Nat) :
    ∃ t : DecimalText, t.text = Nat.toDigits 10 n ∧
      t.decimal.magnitude? = Magnitude.ofRatio? n 1 := by
  let t : DecimalText :=
    ⟨Nat.toDigits 10 n, [], none, Nat.toDigits_ne_nil, isDigit_toDigits n, by simp⟩
  have hvalue : t.decimal = ⟨n, 0⟩ := by
    simp [DecimalText.decimal, Nat.ofDigitChars_ten_toDigits, t]
  refine ⟨t, by simp [DecimalText.text, fractionText, powerText, t], ?_⟩
  rw [hvalue, Decimal.magnitude?_eq]
  simp

/-- Every number is a decimal, with a minus if it is below zero or a double said to be. -/
theorem exists_text (n : JsonNumber) :
    ∃ (negative : Bool) (t : DecimalText),
      n.render = String.ofList ((if negative then ['-'] else []) ++ t.text) ∧
        Double.ofMagnitude? negative t.decimal.magnitude? = n.toDouble := by
  cases n with
  | integer n =>
    obtain ⟨t, htext, hvalue⟩ := exists_wholeText n.natAbs
    refine ⟨n < 0, t, ?_, ?_⟩
    · rw [render, ← String.toList_inj, toList_toString, String.toList_ofList, htext]
      simp
    · rw [hvalue]
      rfl
  | double negative m =>
    obtain ⟨t, htext, hvalue⟩ := Layout.exists_text marksByZeros_layout m
    refine ⟨negative, t, ?_, ?_⟩
    · rw [render, Layout.number, htext]
    · rw [hvalue]
      rfl

theorem isNumberChar_of_mem_render {n : JsonNumber} {c : Char} (h : c ∈ n.render.toList) :
    IsNumberChar c := by
  obtain ⟨negative, t, htext, -⟩ := n.exists_text
  rw [htext, String.toList_ofList] at h
  rcases List.mem_append.mp h with h | h
  · cases negative <;> simp at h
    exact .inr (by simp [h])
  · exact t.isNumberChar_of_mem h

theorem render_ne_nil (n : JsonNumber) : n.render.toList ≠ [] := by
  obtain ⟨negative, t, htext, -⟩ := n.exists_text
  obtain ⟨c, cs, hc, -⟩ := t.exists_head
  simp [htext, hc]

theorem isBlankText_render (n : JsonNumber) : isBlankText n.render = false := by
  obtain ⟨c, cs, hc⟩ := List.exists_cons_of_ne_nil n.render_ne_nil
  have hshown : IsNumberChar c := isNumberChar_of_mem_render (hc ▸ List.mem_cons_self)
  rw [isBlankText, hc, List.all_cons, isBlank_of_isNumberChar hshown, Bool.false_and]

theorem trimText_render (n : JsonNumber) : trimText n.render = n.render := by
  have hshown : ∀ c ∈ n.render.toList, isBlank c = false :=
    fun c hc => isBlank_of_isNumberChar (isNumberChar_of_mem_render hc)
  rw [trimText, trim_of_not_isBlank hshown, String.ofList_toList]

theorem read?_render (n : JsonNumber) : Double.read? n.render = some n.toDouble := by
  obtain ⟨negative, t, htext, hvalue⟩ := n.exists_text
  rw [htext, Double.read?_text_of_decimal, hvalue]

/-- A double is never written as a whole number is. -/
theorem exists_mark_mem_magnitude (m : Magnitude) :
    ∃ c ∈ layout.magnitude m, c.isDigit = false ∧ c ≠ '+' := by
  have hpoint : '.' ∈ layout.magnitude m ∨ 'e' ∈ layout.magnitude m := by
    rw [Layout.magnitude]
    generalize m.leadingDigits layout.tie = leading
    obtain ⟨ds, exponent⟩ := leading
    by_cases hp : layout.plain exponent = true
    · simp only [if_pos hp]
      left
      rw [plainDigits]
      by_cases hneg : exponent < 0
      · simp [hneg]
      by_cases hlong : ds.length ≤ exponent.toNat + 1
      · simp [hneg, hlong, layout]
      · simp [hneg, hlong]
    · simp only [if_neg hp]
      exact .inr (by simp [scientificDigits])
  rcases hpoint with h | h
  · exact ⟨_, h, by decide, by decide⟩
  · exact ⟨_, h, by decide, by decide⟩

theorem readUInt32_of_mem {text : String} {c : Char} (hc : c ∈ text.toList)
    (hd : c.isDigit = false) (hp : c ≠ '+') : (readUInt32 text).toOption = none := by
  cases h : readNatural (UInt32.size - 1) text.toList with
  | error e =>
    rw [readUInt32, h]
    rfl
  | ok n =>
    rcases isDigit_or_plus_of_readNatural h c hc with hh | hh
    · rw [hd] at hh
      cases hh
    · exact absurd hh hp

/-- What is written of a number is read as a whole number of 32 bits if it is one. -/
theorem readUInt32_render (n : JsonNumber) : (readUInt32 n.render).toOption = n.toUInt32? := by
  match n with
  | .integer (.ofNat k) =>
    have htext : (render (.integer (.ofNat k))).toList = Nat.toDigits 10 k :=
      (toList_toString (.ofNat k)).trans (List.nil_append _)
    have hlimit : k ≤ UInt32.size - 1 ↔ k < UInt32.size := Nat.le_sub_one_iff_lt (by decide)
    rw [readUInt32, htext, readNatural_toDigits, toUInt32?]
    by_cases hk : k < UInt32.size
    · rw [if_pos (hlimit.mpr hk), if_pos hk]
      rfl
    · rw [if_neg (mt hlimit.mp hk), if_neg hk]
      rfl
  | .integer (.negSucc k) =>
    have htext : (render (.integer (.negSucc k))).toList = '-' :: Nat.toDigits 10 (k + 1) := by
      rw [render, toList_toString, if_pos (Int.negSucc_lt_zero k)]
      rfl
    exact readUInt32_of_mem (htext ▸ List.mem_cons_self) (by decide) (by decide)
  | .double negative m =>
    obtain ⟨c, hc, hd, hp⟩ := exists_mark_mem_magnitude m
    have hmem : c ∈ (render (.double negative m)).toList := by
      rw [render, Layout.number, String.toList_ofList]
      exact List.mem_append_right _ hc
    exact readUInt32_of_mem hmem hd hp

end JsonNumber

end MonicFactor
