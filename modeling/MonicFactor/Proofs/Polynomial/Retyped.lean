import MonicFactor.Proofs.Polynomial.Image
import MonicFactor.Proofs.Polynomial.Joined

/-! Coefficients that were read, typed in again as a sum of their terms. They come to the same
polynomial, unless one of them is the least of the word: no numeral is as large as that. -/

namespace MonicFactor

def leastWord : Int := -0x8000000000000000

/-- The coefficient as it is printed, a star, and the power. -/
def Term.printed (term : Term) : String :=
  toString term.coefficient ++ ("*x^" ++ toString term.exponent)

/-- Every coefficient with its power, and a plus between any two. -/
def printedSum (ns : List Int) : String :=
  "+".intercalate (ns.mapIdx fun k n => Term.printed ⟨n, k⟩)

/-- What stands in front of the term behind these. -/
def printedFront (ns : List Int) : String := if ns = [] then "" else printedSum ns ++ "+"

section SingleTerm

theorem Term.toList_printed (term : Term) : term.printed.toList = term.text := by
  have hexponent : (toString term.exponent).toList = Nat.toDigits 10 term.exponent :=
    toList_toString term.exponent
  have hsign : signText (term.coefficient < 0) = if term.coefficient < 0 then ['-'] else [] := by
    simp [signText]
  rw [printed, String.toList_append, String.toList_append, toList_toString, hexponent, text, hsign,
    List.append_assoc, List.append_assoc, List.append_assoc]
  rfl

theorem Term.IsWritable.readTerms_printed {term : Term} (h : term.IsWritable) :
    readTerms term.printed = .ok [term] := by
  let first : Monomial :=
    .power (some (.ofNat _ h.coefficient_le, true)) (some (.ofNat _ h.exponent_le))
  have hsignificant : significant term.printed = term.text := by
    rw [← String.ofList_toList (s := term.printed), term.toList_printed]
    exact significant_ofList fun _ => isSignificant_of_mem_text
  refine (readTerms_eq_ok_iff_derivation _ _).1.mpr
    ⟨⟨0, some ⟨term.coefficient < 0, first, []⟩, 0⟩, ?_, ?_⟩
  · rw [hsignificant]
    simp [Derivation.text, SignedSum.text, Monomial.text, coefficientText, exponentText, Term.text,
      Numeral.ofNat, first]
  · have hs := signed_natAbs term.coefficient
    rw [signed_eq] at hs
    simp only [Derivation.terms, SignedSum.terms, Monomial.term, Option.elim_some, List.map_nil,
      Numeral.value_ofNat, first]
    exact congrArg (fun c => [Term.mk c term.exponent]) hs

/-- The run of digits is too large whatever stands behind it. -/
theorem readTerms_printed_leastWord (k : Nat) :
    readTerms (Term.printed ⟨leastWord, k⟩) = .error (.outOfRange 2) := by
  have hdigits : Scan.run ⟨[], .idle none⟩ (cells 1 (toString leastWord).toList) =
      .error (.outOfRange 2) := rfl
  have htext : (Term.printed ⟨leastWord, k⟩).toList =
      (toString leastWord).toList ++ ("*x^" ++ toString k).toList := String.toList_append
  rw [readTerms_eq_readCells, htext, cells_append, readCells, Scan.read_append, hdigits]
  rfl

end SingleTerm

section Sum

theorem printedSum_concat (ns : List Int) (n : Int) :
    printedSum (ns ++ [n]) = printedFront ns ++ Term.printed ⟨n, ns.length⟩ := by
  rw [printedSum, List.mapIdx_concat, printedFront]
  by_cases hne : ns = []
  · rw [if_pos hne, hne]
    simp
  · rw [if_neg hne, String.intercalate_append_of_ne_nil (by simpa using hne) (by simp),
      String.intercalate_singleton]
    rfl

/-- The last term is read behind the others, and only if these can be read. -/
theorem readTerms_printedSum_concat (ns : List Int) (n : Int) :
    readTerms (printedSum (ns ++ [n])) = (do
      let before ← readTerms (printedSum ns)
      let last ← (readTerms (Term.printed ⟨n, ns.length⟩)).mapError
        (FormatError.relabel (· + (printedFront ns).length))
      pure (before ++ last)) := by
  rw [printedSum_concat, printedFront]
  by_cases hne : ns = []
  · have hnil : readTerms (printedSum []) = .ok [] := rfl
    rw [if_pos hne, hne, String.empty_append, hnil]
    cases readTerms (Term.printed ⟨n, 0⟩) with
    | error e => cases e <;> rfl
    | ok terms => rfl
  · rw [if_neg hne, readTerms_plus, String.length_append]
    rfl

theorem isWritable_of_lt {n : Int} {k : Nat} (hn : n.natAbs ≤ maxMagnitude)
    (hk : k < maxMagnitude) : (Term.mk n k).IsWritable := ⟨hn, Nat.le_of_lt hk⟩

theorem readTerms_printedSum {ns : List Int} (hl : ns.length ≤ maxMagnitude)
    (h : ∀ n ∈ ns, n.natAbs ≤ maxMagnitude) :
    readTerms (printedSum ns) = .ok (ns.mapIdx fun k n => ⟨n, k⟩) := by
  induction ns using List.reverseRecOn with
  | nil => rfl
  | append_singleton ns n ih =>
    rw [List.length_append, List.length_singleton] at hl
    rw [List.forall_mem_append, List.forall_mem_singleton] at h
    have hterm := (isWritable_of_lt h.2 hl).readTerms_printed
    rw [readTerms_printedSum_concat, ih (by omega) h.1, hterm, List.mapIdx_concat]
    rfl

/-- The first term that cannot be read is at fault, whatever terms stand behind it. -/
theorem readTerms_printedSum_leastWord {lower : List Int} (hl : lower.length ≤ maxMagnitude)
    (h : ∀ n ∈ lower, n.natAbs ≤ maxMagnitude) (higher : List Int) :
    (∃ rest, printedSum (lower ++ leastWord :: higher) =
      printedFront lower ++ (toString leastWord ++ rest)) ∧
    readTerms (printedSum (lower ++ leastWord :: higher)) =
      .error (.outOfRange ((printedFront lower).length + 2)) := by
  induction higher using List.reverseRecOn with
  | nil =>
    constructor
    · exact ⟨_, printedSum_concat lower leastWord⟩
    · rw [readTerms_printedSum_concat, readTerms_printedSum hl h, readTerms_printed_leastWord,
        Nat.add_comm]
      rfl
  | append_singleton higher n ih =>
    obtain ⟨⟨rest, hrest⟩, herror⟩ := ih
    rw [← List.cons_append, ← List.append_assoc]
    constructor
    · have hne : lower ++ leastWord :: higher ≠ [] := by simp
      refine ⟨rest ++ ("+" ++ Term.printed ⟨n, (lower ++ leastWord :: higher).length⟩), ?_⟩
      rw [printedSum_concat, printedFront, if_neg hne, hrest]
      simp only [String.append_assoc]
    · rw [readTerms_printedSum_concat, herror]
      rfl

end Sum

section Retyped

theorem comesTo_mapIdx {ns : List Int} (h : ∀ n ∈ ns, FitsWord n) :
    ComesTo (ns.mapIdx fun k n => ⟨n, k⟩) ns := by
  induction ns using List.reverseRecOn with
  | nil => exact comesTo_nil
  | append_singleton ns n ih =>
    rw [List.forall_mem_append, List.forall_mem_singleton] at h
    rw [List.mapIdx_concat]
    exact (ih h.1).extend h.2

theorem natAbs_le_of_ne_leastWord {n : Int} (h : FitsWord n) (hn : n ≠ leastWord) :
    n.natAbs ≤ maxMagnitude := by
  obtain ⟨hlow, hhigh⟩ := h
  rw [leastWord] at hn
  rw [maxMagnitude]
  omega

/-- Every polynomial that can be read is read again from the sum of its terms, under the same
bound. Where the least word is among its coefficients, the sum is refused at the first digit of
the first such coefficient. -/
theorem Monic.read_printedSum {bound : Option Nat} {expression : String} {p : Monic}
    (h : read bound expression = .ok p) :
    (leastWord ∉ p.coefficients → read bound (printedSum p.coefficients) = .ok p) ∧
    ∀ lower higher, p.coefficients = lower ++ leastWord :: higher → leastWord ∉ lower →
      (∃ rest, printedSum p.coefficients = printedFront lower ++ (toString leastWord ++ rest)) ∧
      read bound (printedSum p.coefficients) =
        .error (.format (.outOfRange ((printedFront lower).length + 2))) := by
  obtain ⟨terms, -, hterms⟩ := read_eq_ok_iff.mp h
  have hword : ∀ n ∈ p.coefficients, FitsWord n := fun _ => fitsWord_of_ofTerms hterms
  have hbound := length_coefficients_of_ofTerms hterms
  have hmax : degreeBound bound + 1 ≤ maxMagnitude := by
    have hsupported : degreeBound bound ≤ supportedDegree := Nat.min_le_right _ _
    rw [supportedDegree] at hsupported
    rw [maxMagnitude]
    omega
  have hlength := Nat.le_trans hbound hmax
  constructor
  · intro hleast
    have hwritable : ∀ n ∈ p.coefficients, n.natAbs ≤ maxMagnitude := fun n hn =>
      natAbs_le_of_ne_leastWord (hword n hn) fun he => hleast (he ▸ hn)
    refine read_eq_ok_iff.mpr ⟨_, readTerms_printedSum hlength hwritable, ?_⟩
    rw [coefficients, List.length_append, List.length_singleton] at hbound
    exact (comesTo_mapIdx hword).ofTerms_eq (Nat.le_of_succ_le_succ hbound)
  · intro lower higher hp hleast
    rw [hp, List.length_append] at hlength
    have hwritable : ∀ n ∈ lower, n.natAbs ≤ maxMagnitude := fun n hn =>
      natAbs_le_of_ne_leastWord (hword n (hp ▸ List.mem_append_left _ hn))
        fun he => hleast (he ▸ hn)
    obtain ⟨htext, herror⟩ := readTerms_printedSum_leastWord (by omega) hwritable higher
    rw [hp]
    refine ⟨htext, ?_⟩
    rw [read, herror]
    rfl

/-- Both ends of the word that numerals reach; and the least word behind a first term. -/
theorem Monic.read_printedSum_at_limits :
    read (some 2) "-9223372036854775807*x^0+9223372036854775807*x^1+1*x^2" =
        .ok ⟨[-9223372036854775807, 9223372036854775807]⟩ ∧
      read none "0*x^0+-9223372036854775808*x^1+1*x^2" = .error (.format (.outOfRange 8)) := by
  have hlimits : read (some 2) "x^2 +9223372036854775807x -9223372036854775807" =
      .ok ⟨[-9223372036854775807, 9223372036854775807]⟩ := by decide +kernel
  have hleast : read none "x^2 -9223372036854775807x -x" = .ok ⟨[0, leastWord]⟩ := by
    decide +kernel
  constructor
  · exact (read_printedSum hlimits).1 (by decide)
  · exact ((read_printedSum hleast).2 [0] [1] rfl (by decide)).2

/-- A sum can reach the least word, which no numeral does. -/
theorem Monic.not_read_printedSum :
    ¬∀ (bound : Option Nat) (expression : String) (p : Monic), read bound expression = .ok p →
      read bound (printedSum p.coefficients) = .ok p := by
  intro h
  let p : Monic := ⟨[leastWord]⟩
  have hleast : read none "x-9223372036854775807-1" = .ok p := by decide +kernel
  have hrefused : read none (printedSum p.coefficients) = .error (.format (.outOfRange 2)) := by
    decide +kernel
  rw [h none _ p hleast] at hrefused
  cases hrefused

end Retyped

end MonicFactor
