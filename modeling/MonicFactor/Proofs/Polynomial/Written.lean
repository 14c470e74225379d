import MonicFactor.Proofs.Polynomial.Acceptance
import MonicFactor.Proofs.Text.Letter

/-! Terms written out in full, each with its coefficient, a star and its exponent. Reading gives
back the terms that were written, and gives no other terms than those that can be written. -/

namespace MonicFactor

/-- A numeral is never negative, so a term has the same range of coefficients on either side of
zero, although a word reaches one further below. -/
structure Term.IsWritable (term : Term) : Prop where
  coefficient_le : term.coefficient.natAbs ≤ maxMagnitude
  exponent_le : term.exponent ≤ maxMagnitude

def Term.text (term : Term) : List Char :=
  signText (term.coefficient < 0) ++ Nat.toDigits 10 term.coefficient.natAbs ++ ['*', 'x', '^'] ++
    Nat.toDigits 10 term.exponent

def writtenTerms (terms : List Term) : String :=
  String.ofList (terms.flatMap fun term => '+' :: term.text)

section Significant

/-- The character stands for itself in an expression. -/
def IsSignificant (c : Char) : Prop := isBlank c = false ∧ c.toLower = c

instance (c : Char) : Decidable (IsSignificant c) := inferInstanceAs (Decidable (_ ∧ _))

theorem significant_ofList {cs : List Char} (h : ∀ c ∈ cs, IsSignificant c) :
    significant (String.ofList cs) = cs := by
  have hfilter : cs.filter (fun c => !isBlank c) = cs := by
    rw [List.filter_eq_self]
    intro c hc
    rw [(h c hc).1]
    rfl
  rw [significant, String.toList_ofList, shown, hfilter, List.map_congr_left fun c hc => (h c hc).2]
  exact List.map_id' cs

theorem isSignificant_of_isDigit {c : Char} (h : c.isDigit = true) : IsSignificant c :=
  ⟨isBlank_of_isDigit h, toLower_of_isDigit h⟩

theorem isSignificant_of_mem_text {term : Term} {c : Char} (h : c ∈ term.text) : IsSignificant c := by
  have hdigits (n : Nat) (hd : c ∈ Nat.toDigits 10 n) : IsSignificant c :=
    isSignificant_of_isDigit (isDigit_toDigits n c hd)
  have hall : ['-', '*', 'x', '^'].all (fun d => decide (IsSignificant d)) = true := by decide
  have hmarks (hm : c ∈ ['-', '*', 'x', '^']) : IsSignificant c :=
    of_decide_eq_true (List.all_eq_true.mp hall c hm)
  simp only [Term.text, List.mem_append, or_assoc] at h
  rcases h with h | h | h | h
  · cases hs : decide (term.coefficient < 0) <;> simp [hs, signText] at h
    exact hmarks (by simp [h])
  · exact hdigits _ h
  · exact hmarks (List.mem_cons_of_mem _ h)
  · exact hdigits _ h

theorem significant_writtenTerms (terms : List Term) :
    significant (writtenTerms terms) = terms.flatMap fun term => '+' :: term.text := by
  refine significant_ofList fun c hc => ?_
  obtain ⟨term, -, hm⟩ := List.mem_flatMap.mp hc
  rcases List.mem_cons.mp hm with rfl | hm
  · decide
  · exact isSignificant_of_mem_text hm

end Significant

section RoundTrip

def Numeral.ofNat (n : Nat) (h : n ≤ maxMagnitude) : Numeral where
  digits := Nat.toDigits 10 n
  digits_ne_nil := Nat.toDigits_ne_nil
  isDigit _ hc := Nat.isDigit_of_mem_toDigits (by decide) (by decide) hc
  le_maxMagnitude := by rwa [Nat.ofDigitChars_toDigits (by decide) (by decide)]

theorem Numeral.value_ofNat {n : Nat} (h : n ≤ maxMagnitude) : (ofNat n h).value = n :=
  Nat.ofDigitChars_toDigits (by decide) (by decide)

theorem signed_natAbs (n : Int) : signed (n < 0) n.natAbs = n := by
  rw [signed]
  split
  · rename_i h
    have hn := of_decide_eq_true h
    omega
  · rename_i h
    have hn : ¬n < 0 := fun hh => h (decide_eq_true hh)
    omega

theorem Term.IsWritable.exists_link {term : Term} (h : term.IsWritable) :
    ∃ link, linkText link = '+' :: term.text ∧ linkTerm link = term := by
  have hc := Numeral.value_ofNat h.coefficient_le
  have he := Numeral.value_ofNat h.exponent_le
  refine ⟨(.pluses 0 (term.coefficient < 0), .power (some (.ofNat _ h.coefficient_le, true))
    (some (.ofNat _ h.exponent_le))), ?_, ?_⟩
  · simp [linkText, Separator.text, Monomial.text, coefficientText, exponentText, Term.text,
      Numeral.ofNat]
  · have hs := signed_natAbs term.coefficient
    rw [signed_eq] at hs
    simp only [linkTerm, Monomial.term, Separator.negative, Option.elim_some, hc, he]
    exact congrArg (Term.mk · term.exponent) hs

theorem exists_links {terms : List Term} (h : ∀ term ∈ terms, term.IsWritable) :
    ∃ links : List (Separator × Monomial),
      links.flatMap linkText = (terms.flatMap fun term => '+' :: term.text) ∧
        links.map linkTerm = terms := by
  induction terms with
  | nil => exact ⟨[], rfl, rfl⟩
  | cons term terms ih =>
    rw [List.forall_mem_cons] at h
    obtain ⟨link, htext, hterm⟩ := h.1.exists_link
    obtain ⟨links, htexts, hterms⟩ := ih h.2
    refine ⟨link :: links, ?_, ?_⟩
    · rw [List.flatMap_cons, List.flatMap_cons, htext, htexts]
    · rw [List.map_cons, hterm, hterms]

theorem readTerms_written {terms : List Term} (h : ∀ term ∈ terms, term.IsWritable) :
    readTerms (writtenTerms terms) = .ok terms := by
  obtain ⟨links, htext, hterms⟩ := exists_links h
  have hreads := @Scan.reads_links ⟨[], .idle none⟩ [] rfl links
  rw [htext, hterms, List.nil_append] at hreads
  rw [readTerms_eq_ok_iff_uncolumned, significant_writtenTerms]
  exact hreads

end RoundTrip

section Range

theorem Monomial.isWritable_term (negative : Bool) (m : Monomial) :
    (m.term negative).IsWritable := by
  have hsign (n : Nat) (h : n ≤ maxMagnitude) :
      ((if negative then -1 else 1) * (n : Int)).natAbs ≤ maxMagnitude := by
    cases negative <;> simpa using h
  have hone : 1 ≤ maxMagnitude := by decide
  cases m with
  | constant n => exact ⟨hsign n.value n.le_maxMagnitude, Nat.zero_le _⟩
  | power coefficient exponent =>
    constructor
    · cases coefficient with
      | none => exact hsign 1 hone
      | some c => exact hsign c.1.value c.1.le_maxMagnitude
    · cases exponent with
      | none => exact hone
      | some n => exact n.le_maxMagnitude

theorem Derivation.isWritable_of_mem {d : Derivation} {term : Term} (h : term ∈ d.terms) :
    term.IsWritable := by
  cases hs : d.sum with
  | none => simp [terms, hs] at h
  | some s =>
    rw [terms, hs, Option.elim_some, SignedSum.terms, List.mem_cons] at h
    rcases h with rfl | h
    · exact s.first.isWritable_term s.negative
    · obtain ⟨link, -, rfl⟩ := List.mem_map.mp h
      exact link.2.isWritable_term link.1.negative

theorem isWritable_of_readTerms {expression : String} {terms : List Term}
    (h : readTerms expression = .ok terms) : ∀ term ∈ terms, term.IsWritable := by
  rw [readTerms_eq_ok_iff_uncolumned, readCells_eq_ok_iff] at h
  obtain ⟨d, -, rfl⟩ := h
  exact fun _ => d.isWritable_of_mem

end Range

end MonicFactor
