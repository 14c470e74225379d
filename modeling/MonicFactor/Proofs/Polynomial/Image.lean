import Mathlib.Data.List.GetD
import MonicFactor.Proofs.Polynomial.Coefficients
import MonicFactor.Proofs.Polynomial.Written

/-! Which terms and which polynomials are read at all: the terms that can be written, and every
list of words that ends in one and is short enough for the bound. -/

namespace MonicFactor

/-- The terms add up to these coefficients, and no sum leaves the word on the way. -/
structure ComesTo (terms : List Term) (ns : List Int) : Prop where
  not_overflowing : ¬Overflowing terms
  sum_eq : ∀ k, coefficientSum k terms = ns.getD k 0
  exponent_lt : ∀ term ∈ terms, term.exponent < ns.length
  reaches : ns ≠ [] → ∃ term ∈ terms, term.exponent + 1 = ns.length

section ComesTo

theorem coefficientSum_concat (k : Nat) (terms : List Term) (term : Term) :
    coefficientSum k (terms ++ [term]) =
      coefficientSum k terms + if term.exponent = k then term.coefficient else 0 := by
  rw [coefficientSum_append, coefficientSum, coefficientSum, Int.add_zero]

theorem getD_concat (ns : List Int) (n : Int) (k : Nat) :
    (ns ++ [n]).getD k 0 = ns.getD k 0 + if ns.length = k then n else 0 := by
  rcases Nat.lt_trichotomy k ns.length with h | rfl | h
  · rw [List.getD_append _ _ _ _ h, if_neg (Nat.ne_of_gt h), Int.add_zero]
  · rw [List.getD_append_right _ _ _ _ (Nat.le_refl _), List.getD_eq_default _ _ (Nat.le_refl _)]
    simp
  · have hl : (ns ++ [n]).length ≤ k := by
      rw [List.length_append]
      exact h
    rw [List.getD_eq_default _ _ hl, List.getD_eq_default _ _ (Nat.le_of_lt h),
      if_neg (Nat.ne_of_lt h), Int.add_zero]

theorem comesTo_nil : ComesTo [] [] where
  not_overflowing := Sums.represents_nil.not_overflowing
  sum_eq _ := rfl
  exponent_lt _ h := absurd h List.not_mem_nil
  reaches h := absurd rfl h

variable {terms : List Term} {ns : List Int} {n c : Int}

/-- A further term of the last exponent leaves all coefficients below the last one as they are. -/
theorem ComesTo.addTerm (h : ComesTo terms ns) {term : Term} {next : List Int}
    (hl : ns.length ≤ next.length) (ht : term.exponent + 1 = next.length)
    (hs : ∀ k, next.getD k 0 = ns.getD k 0 + if term.exponent = k then term.coefficient else 0)
    (hf : FitsWord (next.getD term.exponent 0)) : ComesTo (terms ++ [term]) next where
  not_overflowing := by
    rw [overflowing_concat, LeavesWord, coefficientSum_concat, h.sum_eq, ← hs]
    exact not_or.mpr ⟨h.not_overflowing, not_not.mpr hf⟩
  sum_eq k := by rw [coefficientSum_concat, h.sum_eq, hs]
  exponent_lt := by
    intro t hm
    rcases List.mem_append.mp hm with hm | hm
    · exact Nat.lt_of_lt_of_le (h.exponent_lt t hm) hl
    · rw [List.mem_singleton.mp hm]
      omega
  reaches _ := ⟨term, List.mem_concat_self, ht⟩

/-- A first term of the next exponent is a further coefficient. -/
theorem ComesTo.extend (h : ComesTo terms ns) (hn : FitsWord n) :
    ComesTo (terms ++ [⟨n, ns.length⟩]) (ns ++ [n]) := by
  refine h.addTerm (by simp) (by simp) (fun k => getD_concat ns n k) ?_
  rw [getD_concat, List.getD_eq_default _ _ (Nat.le_refl _), if_pos rfl, Int.zero_add]
  exact hn

theorem ComesTo.add (h : ComesTo terms (ns ++ [n])) (hc : FitsWord (n + c)) :
    ComesTo (terms ++ [⟨c, ns.length⟩]) (ns ++ [n + c]) := by
  refine h.addTerm (by simp) (by simp) (fun k => ?_) ?_
  · rw [getD_concat, getD_concat, Int.add_assoc]
    congr 1
    split <;> rfl
  · rw [getD_concat, List.getD_eq_default _ _ (Nat.le_refl _), if_pos rfl, Int.zero_add]
    exact hc

theorem ComesTo.highestExponent_eq (h : ComesTo terms (ns ++ [n])) :
    highestExponent terms = ns.length := by
  obtain ⟨term, hm, he⟩ := h.reaches (List.concat_ne_nil _ _)
  have hge := le_highestExponent hm
  obtain ⟨last, hl, hlast⟩ := highestExponent_mem (List.ne_nil_of_mem hm)
  have hlt := h.exponent_lt last hl
  rw [List.length_append, List.length_singleton] at he hlt
  omega

theorem ComesTo.map_range (h : ComesTo terms ns) :
    (List.range ns.length).map (fun k => coefficientSum k terms) = ns := by
  refine List.ext_getElem (by simp) fun k hk hk' => ?_
  rw [List.getElem_map, List.getElem_range, h.sum_eq, List.getD_eq_getElem _ _ hk']

theorem ComesTo.ofTerms_eq {bound : Option Nat} (h : ComesTo terms (ns ++ [1]))
    (hb : ns.length ≤ degreeBound bound) : Monic.ofTerms bound terms = .ok ⟨ns⟩ := by
  have hrange := h.map_range
  rw [List.length_append, List.length_singleton] at hrange
  rw [Monic.ofTerms_eq_ok_iff, h.highestExponent_eq, hrange]
  exact ⟨h.not_overflowing, hb, rfl⟩

/-- No numeral is as large as the lowest word, but its halves are within reach. -/
theorem exists_comesTo {ns : List Int} (h : ∀ n ∈ ns, FitsWord n) :
    ∃ terms, ComesTo terms ns ∧ ∀ term ∈ terms, term.coefficient.natAbs ≤ maxMagnitude := by
  induction ns using List.reverseRecOn with
  | nil => exact ⟨[], comesTo_nil, fun _ hm => absurd hm List.not_mem_nil⟩
  | append_singleton ns n ih =>
    rw [List.forall_mem_append, List.forall_mem_singleton] at h
    obtain ⟨hns, hlo, hhi⟩ := h
    obtain ⟨terms, hterms, hle⟩ := ih hns
    have hhalf : FitsWord (n / 2) := ⟨by omega, by omega⟩
    have hsum : n / 2 + (n - n / 2) = n := by omega
    have hwhole : FitsWord (n / 2 + (n - n / 2)) := by
      rw [hsum]
      exact ⟨hlo, hhi⟩
    have hadd := (hterms.extend hhalf).add hwhole
    rw [hsum] at hadd
    refine ⟨_, hadd, fun term hm => ?_⟩
    rw [List.append_assoc, List.mem_append] at hm
    rcases hm with hm | hm
    · exact hle term hm
    · rw [maxMagnitude]
      rcases List.mem_cons.mp hm with rfl | hm
      · simp only
        omega
      · rw [List.mem_singleton.mp hm]
        simp only
        omega

end ComesTo

section Image

theorem degreeBound_some {bound : Nat} (h : bound ≤ supportedDegree) :
    degreeBound (some bound) = bound := Nat.min_eq_left h

theorem Monic.exists_read_eq_ok {bound : Nat} (hb : bound ≤ supportedDegree) {ns : List Int}
    (hw : ∀ n ∈ ns, FitsWord n) (hl : ns.length ≤ bound + 1) (h1 : ns.getLast? = some 1) :
    ∃ expression p, read (some bound) expression = .ok p ∧ p.coefficients = ns := by
  obtain ⟨terms, hterms, hle⟩ := exists_comesTo hw
  obtain ⟨front, rfl⟩ := List.getLast?_eq_some_iff.mp h1
  rw [List.length_append, List.length_singleton] at hl
  have hwritable : ∀ term ∈ terms, term.IsWritable := by
    intro term hm
    have he := hterms.exponent_lt term hm
    rw [List.length_append, List.length_singleton] at he
    refine ⟨hle term hm, ?_⟩
    rw [supportedDegree] at hb
    rw [maxMagnitude]
    omega
  refine ⟨writtenTerms terms, ⟨front⟩, ?_, rfl⟩
  rw [read_eq_ok_iff]
  refine ⟨terms, readTerms_written hwritable, hterms.ofTerms_eq ?_⟩
  rw [degreeBound_some hb]
  omega

theorem Monic.coefficients_of_read {bound : Nat} (hb : bound ≤ supportedDegree)
    {expression : String} {p : Monic} (h : read (some bound) expression = .ok p) :
    (∀ n ∈ p.coefficients, FitsWord n) ∧ p.coefficients.length ≤ bound + 1 ∧
      p.coefficients.getLast? = some 1 := by
  obtain ⟨terms, -, ho⟩ := read_eq_ok_iff.mp h
  have hl := length_coefficients_of_ofTerms ho
  rw [degreeBound_some hb] at hl
  exact ⟨fun n hn => fitsWord_of_ofTerms ho hn, hl, p.getLast?_coefficients⟩

/-- What is read as terms are the lists of terms that can be written, and what is read as a
polynomial are the lists of words that end in one and are no longer than the bound allows. -/
theorem readTerms_read_image :
    (∀ terms : List Term, (∀ term ∈ terms, term.IsWritable) →
      readTerms (writtenTerms terms) = .ok terms) ∧
    (∀ (expression : String) (terms : List Term), readTerms expression = .ok terms →
      ∀ term ∈ terms, term.IsWritable) ∧
    ∀ bound ≤ supportedDegree, ∀ ns : List Int,
      (∃ expression p, Monic.read (some bound) expression = .ok p ∧ p.coefficients = ns) ↔
        (∀ n ∈ ns, FitsWord n) ∧ ns.length ≤ bound + 1 ∧ ns.getLast? = some 1 := by
  refine ⟨fun _ => readTerms_written, fun _ _ => isWritable_of_readTerms, ?_⟩
  intro bound hb ns
  constructor
  · rintro ⟨expression, p, h, rfl⟩
    exact Monic.coefficients_of_read hb h
  · rintro ⟨hw, hl, h1⟩
    exact Monic.exists_read_eq_ok hb hw hl h1

theorem readTerms_read_image_at_limits :
    readTerms "+-9223372036854775807*x^9223372036854775807+0*x^0" =
        .ok [⟨-9223372036854775807, 9223372036854775807⟩, ⟨0, 0⟩] ∧
      (∀ term ∈ [Term.mk (-9223372036854775807) 1, ⟨1, 9223372036854775807⟩], term.IsWritable) ∧
      ∃ expression p, Monic.read (some 1) expression = .ok p ∧
        p.coefficients = [-9223372036854775808, 1] := by
  obtain ⟨hwritten, hwritable, himage⟩ := readTerms_read_image
  refine ⟨?_, ?_, ?_⟩
  · have hterms : ∀ term ∈ [Term.mk (-9223372036854775807) 9223372036854775807, ⟨0, 0⟩],
        term.IsWritable := by
      rw [List.forall_mem_cons, List.forall_mem_singleton]
      exact ⟨⟨by decide, by decide⟩, by decide, by decide⟩
    have htext : writtenTerms [⟨-9223372036854775807, 9223372036854775807⟩, ⟨0, 0⟩] =
        "+-9223372036854775807*x^9223372036854775807+0*x^0" := by decide +kernel
    rw [← htext]
    exact hwritten _ hterms
  · exact hwritable "-9223372036854775807x + X^ 9223372036854775807" _ rfl
  · refine (himage 1 (by decide) _).mpr ⟨?_, by decide, rfl⟩
    rw [List.forall_mem_cons, List.forall_mem_singleton]
    exact ⟨by decide, by decide⟩

end Image

end MonicFactor
