import MonicFactor.Proofs.Polynomial.Sums

/-! What reading a polynomial comes to: the first sum to leave the word, then the degree, then
the leading coefficient decide about an error, and otherwise the coefficients are exact sums. -/

namespace MonicFactor

/-- The exact sum at the exponent of the last of the first terms leaves the word. -/
def LeavesWord (before : List Term) (term : Term) : Prop :=
  ¬FitsWord (coefficientSum term.exponent (before ++ [term]))

instance (before : List Term) (term : Term) : Decidable (LeavesWord before term) :=
  inferInstanceAs (Decidable (¬_))

def Overflowing (terms : List Term) : Prop :=
  ∃ before term, before ++ [term] <+: terms ∧ LeavesWord before term

theorem overflowing_iff_getElem {terms : List Term} :
    Overflowing terms ↔
      ∃ n, ∃ h : n < terms.length, LeavesWord (terms.take n) terms[n] := by
  constructor
  · rintro ⟨before, term, ⟨rest, rfl⟩, hl⟩
    exact ⟨before.length, by simp, by simpa using hl⟩
  · rintro ⟨n, h, hl⟩
    refine ⟨_, _, ?_, hl⟩
    rw [List.take_append_getElem]
    exact List.take_prefix _ _

instance (terms : List Term) : Decidable (Overflowing terms) :=
  decidable_of_iff _ overflowing_iff_getElem.symm

structure FirstOverflow (terms before : List Term) (term : Term) : Prop where
  isPrefix : before ++ [term] <+: terms
  leavesWord : LeavesWord before term
  not_overflowing : ¬Overflowing before

theorem overflowing_concat {terms : List Term} {term : Term} :
    Overflowing (terms ++ [term]) ↔ Overflowing terms ∨ LeavesWord terms term := by
  constructor
  · rintro ⟨before, last, hp, hl⟩
    rcases List.prefix_concat_iff.mp hp with he | hp
    · obtain ⟨rfl, hlast⟩ := List.append_inj' he rfl
      cases hlast
      exact .inr hl
    · exact .inl ⟨before, last, hp, hl⟩
  · rintro (⟨before, last, hp, hl⟩ | hl)
    · exact ⟨before, last, hp.trans (List.prefix_append _ _), hl⟩
    · exact ⟨terms, term, List.prefix_rfl, hl⟩

/-- The sums are those of the terms, and none left the word on the way. -/
structure Sums.Represents (sums : Sums) (terms : List Term) : Prop where
  falling : sums.Falling
  sumAt_eq : ∀ k, sums.sumAt k = coefficientSum k terms
  mem_exponents : ∀ k, k ∈ sums.exponents ↔ ∃ term ∈ terms, term.exponent = k
  not_overflowing : ¬Overflowing terms

theorem Sums.represents_nil : Represents [] [] where
  falling := .nil
  sumAt_eq _ := rfl
  mem_exponents k := by simp [exponents]
  not_overflowing := by
    rintro ⟨before, term, hp, -⟩
    simp at hp

theorem Sums.Represents.addTerm {sums : Sums} {terms : List Term} (h : sums.Represents terms)
    (term : Term) :
    (LeavesWord terms term ∧ sums.addTerm term = .error (.coefficientOverflow term.exponent)) ∨
      ∃ next, sums.addTerm term = .ok next ∧ next.Represents (terms ++ [term]) := by
  have hsum : coefficientSum term.exponent (terms ++ [term]) =
      sums.sumAt term.exponent + term.coefficient := by
    simp [coefficientSum_append, coefficientSum, h.sumAt_eq]
  have hfit := isSome_add h.falling term.exponent term.coefficient
  cases hadd : sums.add term.exponent term.coefficient with
  | none =>
    refine .inl ⟨?_, by simp only [Sums.addTerm, hadd]⟩
    rw [LeavesWord, hsum, ← hfit, hadd]
    simp
  | some next =>
    refine .inr ⟨next, by simp only [Sums.addTerm, hadd], falling_add h.falling hadd, ?_, ?_, ?_⟩
    · intro k
      rw [sumAt_add h.falling hadd, h.sumAt_eq, coefficientSum_append]
      simp [coefficientSum]
    · intro k
      rw [mem_exponents_add h.falling hadd, h.mem_exponents]
      grind
    · rw [overflowing_concat, LeavesWord, hsum, ← hfit, hadd]
      simp [h.not_overflowing]

theorem Sums.Represents.foldlM {sums : Sums} {before : List Term} (h : sums.Represents before)
    (after : List Term) :
    (∃ pre term, FirstOverflow (before ++ after) pre term ∧
      after.foldlM Sums.addTerm sums = .error (.coefficientOverflow term.exponent)) ∨
    ∃ next, after.foldlM Sums.addTerm sums = .ok next ∧ next.Represents (before ++ after) := by
  -- the sums represent the terms added so far, of which no beginning leaves the word
  induction after generalizing sums before with
  | nil => exact .inr ⟨sums, rfl, by simpa using h⟩
  | cons term after ih =>
    rw [List.foldlM_cons]
    rcases h.addTerm term with ⟨hl, he⟩ | ⟨next, he, hn⟩
    · refine .inl ⟨before, term, ⟨?_, hl, h.not_overflowing⟩, by rw [he]; rfl⟩
      exact ⟨after, by simp⟩
    · have hh := ih hn
      rw [List.append_assoc, List.singleton_append] at hh
      rw [he]
      exact hh

theorem Sums.Represents.top {sums : Sums} {terms : List Term} (h : sums.Represents terms) :
    sums.top = (highestExponent terms, coefficientSum (highestExponent terms) terms) := by
  cases sums with
  | nil =>
    have hn : terms = [] := by
      apply List.eq_nil_iff_forall_not_mem.mpr
      intro term hm
      have hk := (h.mem_exponents term.exponent).mpr ⟨term, hm, rfl⟩
      simp [exponents] at hk
    subst hn
    rfl
  | cons entry rest =>
    obtain ⟨e, sum⟩ := entry
    have hs := h.sumAt_eq e
    simp only [sumAt, if_true] at hs
    obtain ⟨term, hm, he⟩ := (h.mem_exponents e).mp (by simp [exponents])
    obtain ⟨last, hl, hle⟩ := highestExponent_mem (List.ne_nil_of_mem hm)
    have hmax : highestExponent terms = e := by
      have hge := le_highestExponent hm
      have hk := (h.mem_exponents (highestExponent terms)).mpr ⟨last, hl, hle⟩
      rcases List.mem_cons.mp hk with hk | hk
      · exact hk
      · have := (falling_cons.mp h.falling).1 _ hk
        omega
    rw [hmax, ← hs]
    rfl

theorem Monic.ofTerms_of_sums {sums : Sums} {terms : List Term}
    (h : terms.foldlM Sums.addTerm [] = .ok sums) (bound : Option Nat) :
    ofTerms bound terms =
      if degreeBound bound < sums.top.1 then
        .error (.degreeTooLarge sums.top.1 (degreeBound bound))
      else if sums.top.2 ≠ 1 then .error (.notMonic sums.top.2)
      else .ok ⟨Sums.below sums.top.1 sums.tail []⟩ := by
  simp only [ofTerms, h]
  rfl

theorem Sums.Represents.coefficients {sums : Sums} {terms : List Term}
    (h : sums.Represents terms) (h1 : coefficientSum (highestExponent terms) terms = 1) :
    (Monic.mk (below sums.top.1 sums.tail [])).coefficients =
      (List.range (highestExponent terms + 1)).map fun k => coefficientSum k terms := by
  have ht := h.top
  cases sums with
  | nil =>
    have h0 : (0 : Int) = 1 := (Prod.mk.inj ht).2.trans h1
    cases h0
  | cons entry rest =>
    obtain ⟨hlt, hr⟩ := falling_cons.mp h.falling
    obtain ⟨he, -⟩ := Prod.mk.inj ht
    have hmap : (List.range entry.1).map (fun k => sumAt k rest) =
        (List.range entry.1).map fun k => coefficientSum k terms := by
      rw [← map_sumAt_cons entry.1 entry.2 rest]
      exact List.map_congr_left fun k _ => h.sumAt_eq k
    simp only [Monic.coefficients, Sums.top, List.head?_cons, Option.getD_some, List.tail_cons]
    rw [below_eq hr hlt, hmap, List.append_nil, ← he, List.range_succ, List.map_append]
    simp [he, h1]

theorem FirstOverflow.overflowing {terms before : List Term} {term : Term}
    (h : FirstOverflow terms before term) : Overflowing terms :=
  ⟨before, term, h.isPrefix, h.leavesWord⟩

theorem Monic.ofTerms_of_overflowing {terms : List Term} (h : Overflowing terms)
    (bound : Option Nat) :
    ∃ before term, FirstOverflow terms before term ∧
      ofTerms bound terms = .error (.coefficientOverflow term.exponent) := by
  rcases Sums.represents_nil.foldlM terms with ⟨before, term, hf, he⟩ | ⟨sums, -, hs⟩
  · exact ⟨before, term, hf, by simp only [ofTerms, he]; rfl⟩
  · exact absurd h hs.not_overflowing

theorem Monic.ofTerms_of_not_overflowing {terms : List Term} (h : ¬Overflowing terms)
    (bound : Option Nat) :
    ∃ p : Monic,
      (coefficientSum (highestExponent terms) terms = 1 → p.coefficients =
        (List.range (highestExponent terms + 1)).map fun k => coefficientSum k terms) ∧
      ofTerms bound terms =
        if degreeBound bound < highestExponent terms then
          .error (.degreeTooLarge (highestExponent terms) (degreeBound bound))
        else if coefficientSum (highestExponent terms) terms ≠ 1 then
          .error (.notMonic (coefficientSum (highestExponent terms) terms))
        else .ok p := by
  rcases Sums.represents_nil.foldlM terms with ⟨before, term, hf, -⟩ | ⟨sums, he, hs⟩
  · exact absurd hf.overflowing h
  · rw [List.nil_append] at hs
    refine ⟨_, hs.coefficients, ?_⟩
    rw [ofTerms_of_sums he, hs.top]

theorem Monic.read_of_readTerms {expression : String} {terms : List Term}
    (h : readTerms expression = .ok terms) (bound : Option Nat) :
    read bound expression = (ofTerms bound terms).mapError .constraint := by
  simp only [read, h]
  rfl

/-- An error of format comes first. Then the exact sums decide: one that leaves the word while
the terms are summed in order, then the degree against the bound, then the leading sum. If none
of them is at fault, the coefficients are the exact sums, gaps filled with zeros. -/
theorem Monic.read_outcome (bound : Option Nat) (expression : String) :
    (∀ error, readTerms expression = .error error →
      read bound expression = .error (.format error)) ∧
    ∀ terms, readTerms expression = .ok terms →
      let limit := min (bound.getD 65536) 65536
      let degree := highestExponent terms
      let leading := coefficientSum degree terms
      (Overflowing terms → ∃ before term, FirstOverflow terms before term ∧
        read bound expression = .error (.constraint (.coefficientOverflow term.exponent))) ∧
      (¬Overflowing terms →
        (limit < degree →
          read bound expression = .error (.constraint (.degreeTooLarge degree limit))) ∧
        (degree ≤ limit → leading ≠ 1 →
          read bound expression = .error (.constraint (.notMonic leading))) ∧
        (degree ≤ limit → leading = 1 → ∃ p, read bound expression = .ok p ∧
          p.coefficients = (List.range (degree + 1)).map fun k => coefficientSum k terms)) := by
  refine ⟨fun error h => by simp only [read, h]; rfl, ?_⟩
  intro terms hterms limit degree leading
  rw [read_of_readTerms hterms]
  constructor
  · intro h
    obtain ⟨before, term, hf, he⟩ := ofTerms_of_overflowing h bound
    exact ⟨before, term, hf, by rw [he]; rfl⟩
  · intro h
    obtain ⟨p, hp, he⟩ := ofTerms_of_not_overflowing h bound
    rw [he, show degreeBound bound = limit from rfl]
    refine ⟨?_, ?_, ?_⟩
    · intro hd
      rw [if_pos hd]
      rfl
    · intro hd hl
      rw [if_neg (Nat.not_lt.mpr hd), if_pos hl]
      rfl
    · intro hd hl
      rw [if_neg (Nat.not_lt.mpr hd), if_neg (not_not_intro hl)]
      exact ⟨p, rfl, hp hl⟩

theorem Monic.read_outcome_near_limits :
    read none "x^" = .error (.format (.missingExponent 2)) ∧
    (∃ before term,
      FirstOverflow [⟨9223372036854775807, 1⟩, ⟨1, 1⟩, ⟨-1, 1⟩, ⟨1, 70000⟩] before term ∧
      read none "9223372036854775807x+x-x+x^70000" =
        .error (.constraint (.coefficientOverflow term.exponent))) ∧
    read (some 70000) "x^65537" = .error (.constraint (.degreeTooLarge 65537 65536)) ∧
    read (some 1) "x^2-x^2" = .error (.constraint (.degreeTooLarge 2 1)) ∧
    read (some 2) "x^2-x^2" = .error (.constraint (.notMonic 0)) ∧
    ∃ p, read (some 3) "3X^3+x-2x^3" = .ok p ∧ p.coefficients = [0, 1, 0, 1] := by
  have large : readTerms "x^65537" = .ok [⟨1, 65537⟩] := rfl
  have cancelled : readTerms "x^2-x^2" = .ok [⟨1, 2⟩, ⟨-1, 2⟩] := rfl
  have summed : readTerms "3X^3+x-2x^3" = .ok [⟨3, 3⟩, ⟨1, 1⟩, ⟨-2, 3⟩] := rfl
  refine ⟨?_, ?_, ?_, ?_, ?_, ?_⟩
  · exact (read_outcome none _).1 _ rfl
  · exact ((read_outcome none _).2 _ rfl).1 (by decide)
  · exact (((read_outcome (some 70000) _).2 _ large).2 (by decide)).1 (by decide)
  · exact (((read_outcome (some 1) _).2 _ cancelled).2 (by decide)).1 (by decide)
  · exact (((read_outcome (some 2) _).2 _ cancelled).2 (by decide)).2.1 (by decide) (by decide)
  · exact (((read_outcome (some 3) _).2 _ summed).2 (by decide)).2.2 (by decide) (by decide)

end MonicFactor
