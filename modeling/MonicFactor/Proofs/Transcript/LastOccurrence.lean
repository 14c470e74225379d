import MonicFactor.Transcript.Decoded

/-! The search for the last occurrence of a pattern finds the cut behind which the pattern starts
once and never again. -/

namespace MonicFactor

theorem splitLastFrom_passed {pattern passed before after : List Char}
    (h : ¬ pattern <:+: passed.reverse ++ after) :
    splitLastFrom pattern (passed ++ before) after =
      splitLastFrom pattern before (passed.reverse ++ after) := by
  induction passed generalizing after with
  | nil => rfl
  | cons c passed ih =>
    have he : (c :: passed).reverse ++ after = passed.reverse ++ c :: after := by simp
    have hhere : pattern.isPrefixOf after = false := by
      rw [← Bool.not_eq_true, List.isPrefixOf_iff_prefix]
      exact fun hh => h (List.infix_append_of_infix_right hh.isInfix)
    rw [he] at h ⊢
    rw [List.cons_append, splitLastFrom, hhere, if_neg Bool.false_ne_true]
    exact ih h

theorem splitLastFrom_here {pattern before after : List Char} (h : pattern <+: after) :
    splitLastFrom pattern before after = some (before.reverse, after) := by
  rw [← List.isPrefixOf_iff_prefix] at h
  cases before <;> simp [splitLastFrom, h]

theorem splitLastFrom_isPrefix {pattern before after left right : List Char}
    (h : splitLastFrom pattern before after = some (left, right)) : pattern <+: right := by
  induction before generalizing after with
  | nil =>
    rw [splitLastFrom, Option.ite_none_right_eq_some] at h
    obtain ⟨hp, he⟩ := h
    cases he
    exact List.isPrefixOf_iff_prefix.mp hp
  | cons c before ih =>
    rw [splitLastFrom] at h
    split at h
    · rename_i hp
      cases h
      exact List.isPrefixOf_iff_prefix.mp hp
    · exact ih h

theorem not_infix_of_not_isPrefixOf {pattern text : List Char} (hne : pattern ≠ [])
    (hp : ¬ pattern.isPrefixOf text = true) (ht : ¬ pattern <:+: text.tail) :
    ¬ pattern <:+: text := by
  rw [List.isPrefixOf_iff_prefix] at hp
  cases text with
  | nil => simpa using hne
  | cons c text =>
    rw [List.infix_cons_iff]
    rintro (hh | hh)
    · exact hp hh
    · exact ht hh

theorem splitLastFrom_not_infix {pattern before after left right : List Char}
    (hne : pattern ≠ []) (hafter : ¬ pattern <:+: after.tail)
    (h : splitLastFrom pattern before after = some (left, right)) : ¬ pattern <:+: right.tail := by
  -- the text is searched from its end, and nothing was found in what has been passed
  induction before generalizing after with
  | nil =>
    rw [splitLastFrom, Option.ite_none_right_eq_some] at h
    obtain ⟨-, he⟩ := h
    cases he
    exact hafter
  | cons c before ih =>
    rw [splitLastFrom] at h
    split at h
    · cases h
      exact hafter
    · rename_i hp
      exact @ih (c :: after) (not_infix_of_not_isPrefixOf hne hp hafter) h

theorem splitLast_eq_some_iff {pattern text before after : List Char} (hne : pattern ≠ []) :
    splitLast pattern text = some (before, after) ↔
      before ++ after = text ∧ pattern <+: after ∧ ¬ pattern <:+: after.tail := by
  constructor
  · intro h
    exact ⟨splitLast_append h, splitLastFrom_isPrefix h,
      splitLastFrom_not_infix hne (by simpa using hne) h⟩
  · rintro ⟨rfl, hp, hlast⟩
    cases after with
    | nil => exact absurd (List.prefix_nil.mp hp) hne
    | cons c after =>
      rw [List.tail_cons] at hlast
      have hpassed : splitLastFrom pattern (after.reverse ++ c :: before.reverse) [] =
          splitLastFrom pattern (c :: before.reverse) (after.reverse.reverse ++ []) :=
        splitLastFrom_passed (by simpa using hlast)
      have hhere : pattern.isPrefixOf after = false := by
        rw [← Bool.not_eq_true, List.isPrefixOf_iff_prefix]
        exact fun hh => hlast hh.isInfix
      rw [List.reverse_reverse, List.append_nil] at hpassed
      have hr : (before ++ c :: after).reverse = after.reverse ++ c :: before.reverse := by simp
      rw [splitLast, hr, hpassed, splitLastFrom, hhere, if_neg Bool.false_ne_true,
        splitLastFrom_here hp, List.reverse_reverse]

theorem splitLastFrom_eq_none {pattern before after : List Char} (hne : pattern ≠ [])
    (hafter : ¬ pattern <:+: after.tail) (h : splitLastFrom pattern before after = none) :
    ¬ pattern <:+: before.reverse ++ after := by
  induction before generalizing after with
  | nil =>
    rw [splitLastFrom] at h
    split at h
    · cases h
    · rename_i hp
      exact not_infix_of_not_isPrefixOf hne hp hafter
  | cons c before ih =>
    rw [splitLastFrom] at h
    split at h
    · cases h
    · rename_i hp
      have hh := @ih (c :: after) (not_infix_of_not_isPrefixOf hne hp hafter) h
      simpa using hh

theorem splitLast_eq_none_iff {pattern text : List Char} (hne : pattern ≠ []) :
    splitLast pattern text = none ↔ ¬ pattern <:+: text := by
  constructor
  · intro h
    have hnil : ¬ pattern <:+: ([] : List Char).tail := by simpa using hne
    simpa using splitLastFrom_eq_none hne hnil h
  · intro h
    cases hs : splitLast pattern text with
    | none => rfl
    | some parts =>
      obtain ⟨before, after⟩ := parts
      obtain ⟨rfl, hp, -⟩ := (splitLast_eq_some_iff hne).mp hs
      exact absurd (List.infix_append_of_infix_right hp.isInfix) h

/-- Text in front of an occurrence does not move the cut, even if it ends in part of the pattern. -/
theorem splitLast_append_of_infix {pattern text : List Char} (hne : pattern ≠ [])
    (h : pattern <:+: text) (front : List Char) :
    ∃ before rest, splitLast pattern text = some (before, pattern ++ rest) ∧
      splitLast pattern (front ++ text) = some (front ++ before, pattern ++ rest) := by
  cases hs : splitLast pattern text with
  | none => exact absurd h ((splitLast_eq_none_iff hne).mp hs)
  | some parts =>
    obtain ⟨before, after⟩ := parts
    obtain ⟨rfl, ⟨rest, rfl⟩, hlast⟩ := (splitLast_eq_some_iff hne).mp hs
    refine ⟨before, rest, rfl, ?_⟩
    rw [splitLast_eq_some_iff hne]
    exact ⟨List.append_assoc _ _ _, List.prefix_append _ _, hlast⟩

/-- An occurrence cannot reach across a character that the pattern lacks. -/
theorem not_infix_append_cons {pattern left right : List Char} {c : Char} (hc : c ∉ pattern)
    (hl : ¬ pattern <:+: left) (hr : ¬ pattern <:+: right) :
    ¬ pattern <:+: left ++ c :: right := by
  rw [List.infix_append_iff_ne_nil, List.infix_cons_iff]
  rintro (h | (h | h) | ⟨first, second, -, hs, rfl, -, hp⟩)
  · exact hl h
  · rw [List.prefix_cons_iff] at h
    rcases h with rfl | ⟨_, rfl, -⟩
    · exact hl List.nil_infix
    · exact hc List.mem_cons_self
  · exact hr h
  · rw [List.prefix_cons_iff] at hp
    rcases hp with rfl | ⟨_, rfl, -⟩
    · exact hs rfl
    · exact hc (List.mem_append_right _ List.mem_cons_self)

theorem afterLast_append_cons {c : Char} {left right : List Char} (h : c ∉ right) :
    afterLast c (left ++ c :: right) = right := by
  have hr : ∀ d ∈ right.reverse, (d != c) = true := by
    intro d hd
    rw [bne_iff_ne]
    rintro rfl
    exact h (List.mem_reverse.mp hd)
  rw [afterLast, List.reverse_append, List.reverse_cons, List.append_assoc,
    List.takeWhile_append_of_pos hr]
  simp

end MonicFactor
