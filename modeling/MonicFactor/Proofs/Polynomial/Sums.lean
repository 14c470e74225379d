import MonicFactor.Polynomial.Monic

/-! Sums that are kept by exponent against the exact sums of the terms they were formed from. -/

namespace MonicFactor

def coefficientSum (exponent : Nat) : List Term → Int
  | [] => 0
  | term :: terms =>
    (if term.exponent = exponent then term.coefficient else 0) + coefficientSum exponent terms

def highestExponent : List Term → Nat
  | [] => 0
  | term :: terms => max term.exponent (highestExponent terms)

theorem coefficientSum_append (exponent : Nat) (before after : List Term) :
    coefficientSum exponent (before ++ after) =
      coefficientSum exponent before + coefficientSum exponent after := by
  induction before with
  | nil => simp [coefficientSum]
  | cons term before ih =>
    simp only [List.cons_append, coefficientSum, ih]
    omega

theorem le_highestExponent {terms : List Term} {term : Term} (h : term ∈ terms) :
    term.exponent ≤ highestExponent terms := by
  induction terms with
  | nil => simp at h
  | cons t terms ih =>
    simp only [highestExponent]
    rcases List.mem_cons.mp h with rfl | h
    · omega
    · have := ih h
      omega

theorem highestExponent_mem {terms : List Term} (h : terms ≠ []) :
    ∃ term ∈ terms, term.exponent = highestExponent terms := by
  induction terms with
  | nil => exact absurd rfl h
  | cons t terms ih =>
    by_cases ht : terms = []
    · exact ⟨t, by simp, by simp [ht, highestExponent]⟩
    · obtain ⟨term, hm, he⟩ := ih ht
      by_cases hle : highestExponent terms ≤ t.exponent
      · exact ⟨t, by simp, by simp only [highestExponent]; omega⟩
      · exact ⟨term, by simp [hm], by simp only [highestExponent]; omega⟩

def Sums.sumAt (exponent : Nat) : Sums → Int
  | [] => 0
  | (e, sum) :: rest => if e = exponent then sum else sumAt exponent rest

def Sums.exponents (sums : Sums) : List Nat := sums.map Prod.fst

/-- Each exponent stands once, the largest first. -/
def Sums.Falling (sums : Sums) : Prop := sums.exponents.Pairwise fun a b => b < a

theorem Sums.falling_cons {e : Nat} {sum : Int} {rest : Sums} :
    Sums.Falling ((e, sum) :: rest) ↔ (∀ k ∈ rest.exponents, k < e) ∧ rest.Falling :=
  List.pairwise_cons

theorem Sums.sumAt_eq_zero {exponent : Nat} {sums : Sums} (h : exponent ∉ sums.exponents) :
    sums.sumAt exponent = 0 := by
  induction sums with
  | nil => rfl
  | cons entry rest ih =>
    simp only [exponents, List.map_cons, List.mem_cons, not_or] at h
    simp [sumAt, Ne.symm h.1, ih h.2]

theorem Sums.map_sumAt_cons (n : Nat) (sum : Int) (rest : Sums) :
    (List.range n).map (fun k => sumAt k ((n, sum) :: rest)) =
      (List.range n).map fun k => sumAt k rest := by
  apply List.map_congr_left
  intro k hk
  have hne : n ≠ k := Nat.ne_of_gt (List.mem_range.mp hk)
  rw [sumAt, if_neg hne]

theorem Sums.isSome_add {sums : Sums} (hs : sums.Falling) (exponent : Nat) (coefficient : Int) :
    (sums.add exponent coefficient).isSome = true ↔
      FitsWord (sums.sumAt exponent + coefficient) := by
  induction sums with
  | nil => by_cases h : FitsWord coefficient <;> simp [add, sumAt, h]
  | cons entry rest ih =>
    obtain ⟨e, sum⟩ := entry
    obtain ⟨hlt, hr⟩ := falling_cons.mp hs
    by_cases he : e < exponent
    · have hz : sumAt exponent rest = 0 := sumAt_eq_zero fun hm => by have := hlt _ hm; omega
      by_cases h : FitsWord coefficient <;> simp [add, sumAt, he, h, hz, Nat.ne_of_lt he]
    · by_cases hee : e = exponent
      · by_cases h : FitsWord (sum + coefficient) <;> simp [add, sumAt, hee, h]
      · simpa [add, sumAt, he, hee] using ih hr

/-- A coefficient that is added changes the entry of its exponent, or becomes one. -/
theorem Sums.add_eq_some {sums result : Sums} (hs : sums.Falling) {exponent : Nat}
    {coefficient : Int} (h : sums.add exponent coefficient = some result) :
    ∃ (higher rest : Sums) (sum : Int), (∀ k ∈ higher.exponents, exponent < k) ∧
      (∀ k ∈ rest.exponents, k < exponent) ∧
      result = higher ++ (exponent, sum + coefficient) :: rest ∧
      (sums = higher ++ (exponent, sum) :: rest ∨ sum = 0 ∧ sums = higher ++ rest) := by
  induction sums generalizing result with
  | nil =>
    simp only [add, Option.ite_none_right_eq_some, Option.some.injEq] at h
    exact ⟨[], [], 0, by simp [exponents], by simp [exponents], by simp [← h.2], .inr ⟨rfl, rfl⟩⟩
  | cons entry rest ih =>
    obtain ⟨e, sum⟩ := entry
    obtain ⟨hlt, hr⟩ := falling_cons.mp hs
    by_cases he : e < exponent
    · simp only [add, he, if_true, Option.ite_none_right_eq_some, Option.some.injEq] at h
      refine ⟨[], (e, sum) :: rest, 0, by simp [exponents], ?_, by simp [← h.2], .inr ⟨rfl, rfl⟩⟩
      intro k hk
      rcases List.mem_cons.mp hk with rfl | hk
      · exact he
      · exact Nat.lt_trans (hlt k hk) he
    · by_cases hee : e = exponent
      · subst e
        simp only [add, Nat.lt_irrefl, if_false, if_true, Option.ite_none_right_eq_some,
          Option.some.injEq] at h
        exact ⟨[], rest, sum, by simp [exponents], hlt, h.2.symm, .inl rfl⟩
      · simp only [add, he, hee, if_false] at h
        obtain ⟨below, hb, rfl⟩ := Option.map_eq_some_iff.mp h
        obtain ⟨higher, lower, s, hh, hl, rfl, hc⟩ := ih hr hb
        refine ⟨(e, sum) :: higher, lower, s, ?_, hl, rfl, ?_⟩
        · intro k hk
          rcases List.mem_cons.mp hk with rfl | hk
          · omega
          · exact hh k hk
        · rcases hc with rfl | ⟨rfl, rfl⟩
          · exact .inl rfl
          · exact .inr ⟨rfl, rfl⟩

theorem Sums.mem_exponents_add {sums result : Sums} (hs : sums.Falling) {exponent : Nat}
    {coefficient : Int} (h : sums.add exponent coefficient = some result) (k : Nat) :
    k ∈ result.exponents ↔ k = exponent ∨ k ∈ sums.exponents := by
  obtain ⟨higher, rest, sum, -, -, rfl, rfl | ⟨-, rfl⟩⟩ := add_eq_some hs h <;>
    by_cases hk : k = exponent <;> simp [exponents, hk]

theorem Sums.falling_add {sums result : Sums} (hs : sums.Falling) {exponent : Nat}
    {coefficient : Int} (h : sums.add exponent coefficient = some result) : result.Falling := by
  obtain ⟨higher, rest, sum, hh, hr, rfl, rfl | ⟨-, rfl⟩⟩ := add_eq_some hs h
  · simpa [Falling, exponents] using hs
  · simp only [Falling, exponents, List.map_append] at hs
    simp only [Falling, exponents, List.map_append, List.map_cons]
    obtain ⟨h₁, h₂, h₃⟩ := List.pairwise_append.mp hs
    refine List.pairwise_append.mpr ⟨h₁, List.pairwise_cons.mpr ⟨hr, h₂⟩, ?_⟩
    intro a ha b hb
    rcases List.mem_cons.mp hb with rfl | hb
    · exact hh a ha
    · exact h₃ a ha b hb

theorem Sums.sumAt_append (exponent : Nat) (higher rest : Sums) :
    sumAt exponent (higher ++ rest) =
      if exponent ∈ higher.exponents then higher.sumAt exponent else rest.sumAt exponent := by
  induction higher with
  | nil => simp [exponents]
  | cons entry higher ih =>
    by_cases he : entry.1 = exponent
    · simp [sumAt, exponents, he]
    · have hn : exponent ∈ exponents (entry :: higher) ↔ exponent ∈ exponents higher := by
        simp [exponents, Ne.symm he]
      simp [sumAt, he, hn, ih]

theorem Sums.sumAt_add {sums result : Sums} (hs : sums.Falling) {exponent : Nat}
    {coefficient : Int} (h : sums.add exponent coefficient = some result) (k : Nat) :
    result.sumAt k = sums.sumAt k + if exponent = k then coefficient else 0 := by
  obtain ⟨higher, rest, sum, hh, hr, rfl, hc⟩ := add_eq_some hs h
  by_cases hk : exponent = k
  · subst k
    have hn : exponent ∉ higher.exponents := fun hm => Nat.lt_irrefl _ (hh _ hm)
    have hz : sumAt exponent rest = 0 := sumAt_eq_zero fun hm => Nat.lt_irrefl _ (hr _ hm)
    rcases hc with rfl | ⟨rfl, rfl⟩
    · simp [sumAt_append, hn, sumAt]
    · simp [sumAt_append, hn, sumAt, hz]
  · rcases hc with rfl | ⟨-, rfl⟩ <;> simp [sumAt_append, sumAt, hk]

theorem Sums.below_eq {sums : Sums} (hs : sums.Falling) {n : Nat}
    (hlt : ∀ k ∈ sums.exponents, k < n) (higher : List Int) :
    below n sums higher = (List.range n).map (fun k => sums.sumAt k) ++ higher := by
  induction n generalizing sums higher with
  | zero => cases sums <;> rfl
  | succ n ih =>
    rw [List.range_succ, List.map_append, List.append_assoc]
    cases sums with
    | nil => exact ih hs (by simp [exponents]) _
    | cons entry rest =>
      obtain ⟨e, sum⟩ := entry
      obtain ⟨hle, hr⟩ := falling_cons.mp hs
      have he := hlt e (by simp [exponents])
      by_cases hen : e = n
      · subst e
        rw [below, if_pos rfl, ih hr hle, map_sumAt_cons]
        simp [sumAt]
      · have hlt' : ∀ k ∈ Sums.exponents ((e, sum) :: rest), k < n := by
          intro k hk
          rcases List.mem_cons.mp hk with rfl | hk
          · omega
          · have := hle k hk
            omega
        have hz : sumAt n ((e, sum) :: rest) = 0 :=
          sumAt_eq_zero fun hm => Nat.lt_irrefl _ (hlt' n hm)
        rw [below, if_neg hen, ih hs hlt', List.map_singleton, hz]
        rfl

end MonicFactor
