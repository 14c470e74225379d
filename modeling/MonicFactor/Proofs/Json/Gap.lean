import MonicFactor.Json.Reader

/-! Reading on over gaps: what a reader finds is what stands behind them. -/

namespace MonicFactor

/-- Reading succeeds with a value and leaves the rest of the text. -/
def Yields {ε α : Type} {least : Nat} {cs : List Char} (result : Except ε (Found least α cs))
    (value : α) (rest : List Char) : Prop :=
  ∃ within, result = .ok ⟨value, rest, within⟩

theorem Yields.bind {ε α β : Type} {least more : Nat} {cs cs' behind rest : List Char}
    {result : Except ε (Found least α cs)} {value : α} {value' : β} (h : Yields result value behind)
    {next : Found least α cs → Except ε (Found more β cs')}
    (hn : ∀ within, Yields (next ⟨value, behind, within⟩) value' rest) :
    Yields (result >>= next) value' rest := by
  obtain ⟨within, rfl⟩ := h
  exact hn within

theorem Yields.map_behind {ε α : Type} {least : Nat} {cs : List Char}
    {result : Except ε (Found least α cs)} {value : α} {rest : List Char}
    (h : Yields result value rest) (c : Char) : Yields (result.map (·.behind c)) value rest := by
  obtain ⟨within, rfl⟩ := h
  exact ⟨_, rfl⟩

theorem skipGap_gap {gap : List Char} (hg : ∀ c ∈ gap, isGap c = true) : skipGap gap = [] := by
  have hs : (gap ++ []).dropWhile isGap = [] := List.dropWhile_append_of_pos hg
  rwa [List.append_nil] at hs

theorem skipGap_append {gap : List Char} (hg : ∀ c ∈ gap, isGap c = true) {c : Char}
    (hc : isGap c = false) (rest : List Char) : skipGap (gap ++ c :: rest) = c :: rest := by
  rw [skipGap, List.dropWhile_append_of_pos hg, List.dropWhile_cons_of_neg (by simp [hc])]

section Found

variable {cs after rest : List Char} {c : Char}

theorem readNext?_eq_none (h : skipGap cs = []) : readNext? cs = none := by
  unfold readNext?
  split
  · rfl
  · rename_i hs
    rw [h] at hs
    cases hs

theorem readNext?_eq_some (h : skipGap cs = c :: rest) :
    ∃ within, readNext? cs = some ⟨c, rest, within⟩ := by
  refine ⟨length_le_of_skipGap h, ?_⟩
  unfold readNext?
  split
  · rename_i hs
    rw [h] at hs
    cases hs
  · rename_i hs
    have hs' := h.symm.trans hs
    cases hs'
    rfl

theorem yields_readColon (h : skipGap cs = ':' :: after) (ha : skipGap after = rest) :
    Yields (readColon cs) () rest := by
  obtain ⟨within, hn⟩ := readNext?_eq_some h
  subst ha
  simp only [readColon, hn]
  exact ⟨_, rfl⟩

theorem yields_readListMark_end (h : skipGap cs = ']' :: rest) :
    Yields (readListMark cs) false rest := by
  obtain ⟨within, hn⟩ := readNext?_eq_some h
  simp only [readListMark, hn]
  exact ⟨_, rfl⟩

theorem yields_readListMark_next (h : skipGap cs = ',' :: after) (ha : skipGap after = c :: rest)
    (hc : c ≠ ']') : Yields (readListMark cs) true (c :: rest) := by
  obtain ⟨within, hn⟩ := readNext?_eq_some h
  obtain ⟨within', hn'⟩ := readNext?_eq_some ha
  have hmark : ',' ≠ ']' := by decide
  have hitem : Yields (readListMark cs) true (skipGap after) := by
    simp only [readListMark, hn, hn', if_neg hmark, if_neg hc, if_true]
    exact ⟨_, rfl⟩
  rwa [ha] at hitem

theorem yields_readObjectMark_end (h : skipGap cs = '}' :: rest) :
    Yields (readObjectMark cs) false rest := by
  obtain ⟨within, hn⟩ := readNext?_eq_some h
  simp only [readObjectMark, hn]
  exact ⟨_, rfl⟩

theorem yields_readObjectMark_next (h : skipGap cs = ',' :: after)
    (ha : skipGap after = '"' :: rest) : Yields (readObjectMark cs) true rest := by
  obtain ⟨within, hn⟩ := readNext?_eq_some h
  obtain ⟨within', hn'⟩ := readNext?_eq_some ha
  simp only [readObjectMark, hn, hn']
  exact ⟨_, rfl⟩

end Found

end MonicFactor
