import MonicFactor.Proofs.Json.Gap

/-! A text that has been quoted reads back as itself, whatever characters it has. -/

namespace MonicFactor

theorem hexValue?_digitChar {n : Nat} (h : n < 16) : hexValue? (Nat.digitChar n) = some n := by
  revert n
  decide

/-- An escape of one letter, an escape by number, or the character itself. -/
theorem quoteChar_cases (c : Char) :
    (∃ letter, quoteChar c = ['\\', letter] ∧ letter ≠ 'u' ∧ escapedChar? letter = some c) ∨
    (c.toNat < 0x20 ∧ quoteChar c = ['\\', 'u', '0', '0', Nat.digitChar (c.toNat / 16),
      Nat.digitChar (c.toNat % 16)]) ∨
    (¬c.toNat < 0x20 ∧ c ≠ '"' ∧ c ≠ '\\' ∧ quoteChar c = [c]) := by
  unfold quoteChar
  split
  case h_8 hquote hslash _ _ _ _ _ =>
    by_cases h : c.toNat < 0x20
    · rw [if_pos h]
      exact .inr (.inl ⟨h, rfl⟩)
    · rw [if_neg h]
      exact .inr (.inr ⟨h, hquote, hslash, rfl⟩)
  all_goals exact .inl ⟨_, rfl, by decide, by decide⟩

theorem readHex_digits {a b c d : Char} {p q r s : Nat} (ha : hexValue? a = some p)
    (hb : hexValue? b = some q) (hc : hexValue? c = some r) (hd : hexValue? d = some s)
    (rest : List Char) :
    Yields (readHex (a :: b :: c :: d :: rest)) (((p * 16 + q) * 16 + r) * 16 + s) rest := by
  simp only [readHex, ha, hb, hc, hd]
  exact ⟨_, rfl⟩

theorem readUnicode_of_readHex {cs rest : List Char} {n : Nat} (h : Yields (readHex cs) n rest)
    (hn : n < 0xD800) : Yields (readUnicode true cs) (Char.ofNat n) rest := by
  have htrailing : isTrailingSurrogate n = false :=
    Bool.and_eq_false_imp.mpr fun h => decide_eq_false (by have := of_decide_eq_true h; omega)
  have hleading : isLeadingSurrogate n = false :=
    Bool.and_eq_false_imp.mpr fun h => decide_eq_false (by have := of_decide_eq_true h; omega)
  refine h.bind fun within => ⟨within, ?_⟩
  simp only [htrailing, hleading, Bool.not_true, Bool.not_false, Bool.false_eq_true, if_false,
    if_true]
  rfl

theorem readEscape_letter {letter c : Char} (hu : letter ≠ 'u') (h : escapedChar? letter = some c)
    (rest : List Char) : Yields (readEscape true (letter :: rest)) c rest := by
  rw [readEscape]
  · simp only [h]
    exact ⟨_, rfl⟩
  · exact hu

theorem readCharacter_backslash {cs rest : List Char} {c : Char}
    (h : Yields (readEscape true cs) c rest) :
    Yields (readCharacter true '\\' cs) c rest := by
  rw [readCharacter, if_pos rfl]
  exact h.map_behind '\\'

theorem readCharacter_quoteChar (c : Char) (rest : List Char) :
    ∃ d ds, quoteChar c = d :: ds ∧ d ≠ '"' ∧ Yields (readCharacter true d (ds ++ rest)) c rest := by
  rcases quoteChar_cases c with ⟨letter, hq, hu, hl⟩ | ⟨hlt, hq⟩ | ⟨hlt, hquote, hslash, hq⟩
  · exact ⟨_, _, hq, by decide, readCharacter_backslash (readEscape_letter hu hl rest)⟩
  · -- the two zeros in front leave the number of the character as it is
    have hhex := readHex_digits (show hexValue? '0' = some 0 by decide)
      (show hexValue? '0' = some 0 by decide)
      (hexValue?_digitChar (show c.toNat / 16 < 16 by omega))
      (hexValue?_digitChar (show c.toNat % 16 < 16 by omega)) rest
    have hcode : ((0 * 16 + 0) * 16 + c.toNat / 16) * 16 + c.toNat % 16 = c.toNat := by omega
    rw [hcode] at hhex
    have hchar := readUnicode_of_readHex hhex (by omega)
    rw [Char.ofNat_toNat] at hchar
    exact ⟨_, _, hq, by decide, readCharacter_backslash (hchar.map_behind 'u')⟩
  · refine ⟨_, _, hq, hquote, ?_⟩
    rw [readCharacter, if_neg hslash, if_neg hlt]
    exact ⟨_, rfl⟩

theorem readString_quoted (cs rest read : List Char) :
    Yields (readString true read (cs.flatMap quoteChar ++ '"' :: rest))
      (String.ofList (read.reverse ++ cs)) rest := by
  -- what has been read is kept in reverse, so the beginning is any
  induction cs generalizing read with
  | nil =>
    rw [List.flatMap_nil, List.nil_append, List.append_nil, readString]
    exact ⟨_, rfl⟩
  | cons c cs ih =>
    obtain ⟨d, ds, hq, hd, hc⟩ := readCharacter_quoteChar c (cs.flatMap quoteChar ++ '"' :: rest)
    have hs := ih (c :: read)
    rw [List.reverse_cons, List.append_assoc, List.singleton_append] at hs
    rw [List.flatMap_cons, hq, List.append_assoc, List.cons_append, readString]
    · exact hc.bind fun _ => hs.bind fun _ => ⟨_, rfl⟩
    · exact hd

end MonicFactor
