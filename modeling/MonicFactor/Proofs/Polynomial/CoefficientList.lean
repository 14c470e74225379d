import MonicFactor.Proofs.Numeral.Digits
import MonicFactor.Proofs.Polynomial.Coefficients

/-! The list of coefficients as a program is given it: decimal numbers with a comma between any
two of them. Cut at its commas it gives every coefficient back. -/

namespace MonicFactor

/-- The pattern `-?[0-9]+`. -/
def IsNumber (cs : List Char) : Prop :=
  ∃ sign digits, cs = sign ++ digits ∧ (sign = [] ∨ sign = ['-']) ∧ digits ≠ [] ∧
    ∀ c ∈ digits, c.isDigit = true

/-- The pattern `-?[0-9]+(,-?[0-9]+)*`. -/
inductive IsNumberList : List Char → Prop
  | single {cs : List Char} (h : IsNumber cs) : IsNumberList cs
  | cons {cs rest : List Char} (h : IsNumber cs) (hr : IsNumberList rest) :
    IsNumberList (cs ++ ',' :: rest)

theorem isNumber_toString (n : Int) : IsNumber (toString n).toList := by
  refine ⟨if n < 0 then ['-'] else [], Nat.toDigits 10 n.natAbs, toList_toString n, ?_,
    Nat.toDigits_ne_nil, isDigit_toDigits _⟩
  by_cases hn : n < 0
  · exact .inr (if_pos hn)
  · exact .inl (if_neg hn)

theorem isNumberList_intercalate {ns : List Int} (h : ns ≠ []) :
    IsNumberList (",".intercalate (ns.map toString)).toList := by
  rw [String.toList_intercalate]
  induction ns with
  | nil => exact absurd rfl h
  | cons n ns ih =>
    cases ns with
    | nil =>
      simp only [List.map_cons, List.map_nil, List.intercalate_singleton]
      exact .single (isNumber_toString n)
    | cons next ns =>
      have hr := ih (by simp)
      simp only [List.map_cons, List.intercalate_cons_cons] at hr ⊢
      simpa using IsNumberList.cons (isNumber_toString n) hr

theorem Monic.isNumberList_csv (p : Monic) : IsNumberList p.csv.toList :=
  isNumberList_intercalate p.coefficients_ne_nil

section ReadBack

theorem IsNumber.comma_not_mem {cs : List Char} (h : IsNumber cs) : ',' ∉ cs := by
  obtain ⟨sign, digits, rfl, hsign, -, hd⟩ := h
  intro hc
  rcases List.mem_append.mp hc with hc | hc
  · rcases hsign with rfl | rfl <;> simp at hc
  · cases hd _ hc

theorem IsNumber.ne_nil {cs : List Char} (h : IsNumber cs) : cs ≠ [] := by
  obtain ⟨sign, digits, rfl, -, hne, -⟩ := h
  exact List.append_ne_nil_of_right_ne_nil _ hne

theorem Monic.splitOn_csv (p : Monic) :
    p.csv.toList.splitOn ',' = p.coefficients.map fun n => (toString n).toList := by
  have hne : p.coefficients.map (fun n => (toString n).toList) ≠ [] := by
    simp [p.coefficients_ne_nil]
  have hcomma : ∀ piece ∈ p.coefficients.map (fun n => (toString n).toList), ',' ∉ piece := by
    intro piece hp
    obtain ⟨n, -, rfl⟩ := List.mem_map.mp hp
    exact (isNumber_toString n).comma_not_mem
  rw [csv, String.toList_intercalate, List.map_map]
  exact List.splitOn_intercalate ',' hcomma hne

/-- The pieces are whole numbers that fit a signed 64-bit word, the least one included. -/
theorem Monic.readInteger_of_ofTerms {bound : Option Nat} {terms : List Term} {p : Monic}
    (h : ofTerms bound terms = .ok p) :
    (p.csv.toList.splitOn ',').map (readInteger 0x8000000000000000 0x7FFFFFFFFFFFFFFF) =
      p.coefficients.map .ok := by
  rw [splitOn_csv, List.map_map]
  apply List.map_congr_left
  intro n hn
  obtain ⟨hlow, hhigh⟩ := fitsWord_of_ofTerms h hn
  exact readInteger_toString hlow (by omega)

theorem toString_injective {n n' : Int} (h : toString n = toString n') : n = n' := by
  -- both are what is read of the same text, if the range is large enough
  have hn : readInteger (max n.natAbs n'.natAbs) (max n.natAbs n'.natAbs) (toString n).toList =
      .ok n := readInteger_toString (by omega) (by omega)
  have hn' : readInteger (max n.natAbs n'.natAbs) (max n.natAbs n'.natAbs) (toString n').toList =
      .ok n' := readInteger_toString (by omega) (by omega)
  rw [h, hn'] at hn
  exact (Except.ok.inj hn).symm

theorem Monic.csv_injective {p q : Monic} (h : p.csv = q.csv) : p = q := by
  have hpieces := congrArg (fun list => list.toList.splitOn ',') h
  simp only [splitOn_csv] at hpieces
  apply eq_of_coefficients_eq
  exact (List.map_inj_right fun n n' hn =>
    toString_injective (String.toList_inj.mp hn)).mp hpieces

end ReadBack

end MonicFactor
