import MonicFactor.Proofs.Double.Nearest
import MonicFactor.Proofs.Numeral.Digits

/-! What is printed of a double reads back as it, in every layout: the digits are those of the
shortest decimal, and points, exponents and zeros around them leave its value as it is. -/

namespace MonicFactor

/-- A number as it is written: digits, perhaps a fraction, and perhaps an exponent. -/
structure DecimalText where
  whole : List Char
  fraction : List Char
  exponent : Option Int
  whole_ne_nil : whole ≠ []
  isDigit_whole : ∀ c ∈ whole, c.isDigit = true
  isDigit_fraction : ∀ c ∈ fraction, c.isDigit = true

def fractionText (fraction : List Char) : List Char :=
  if fraction.isEmpty then [] else '.' :: fraction

def powerText : Option Int → List Char
  | none => []
  | some exponent =>
    'e' :: (if exponent < 0 then '-' else '+') :: Nat.toDigits 10 exponent.natAbs

def DecimalText.text (t : DecimalText) : List Char :=
  t.whole ++ (fractionText t.fraction ++ powerText t.exponent)

def DecimalText.decimal (t : DecimalText) : Decimal :=
  ⟨Nat.ofDigitChars 10 (t.whole ++ t.fraction) 0, t.exponent.getD 0 - t.fraction.length⟩

section Reading

theorem cut_digits {ds rest : List Char} (hd : ∀ c ∈ ds, c.isDigit = true)
    (hr : ∀ c ∈ rest.head?, c.isDigit = false) :
    (ds ++ rest).takeWhile Char.isDigit = ds ∧ (ds ++ rest).dropWhile Char.isDigit = rest := by
  rw [List.takeWhile_append_of_pos hd, List.dropWhile_append_of_pos hd]
  cases rest with
  | nil => simp
  | cons c rest =>
    have hc := hr c rfl
    simp [hc]

theorem not_isDigit_powerText (exponent : Option Int) :
    ∀ c ∈ (powerText exponent).head?, c.isDigit = false := by
  intro c hc
  cases exponent with
  | none => cases hc
  | some n =>
    cases hc
    decide

theorem readExponent?_powerText (exponent : Option Int) :
    readExponent? (powerText exponent) = some (exponent.getD 0) := by
  cases exponent with
  | none => rfl
  | some n =>
    have hdigits : (Nat.toDigits 10 n.natAbs).all Char.isDigit = true := by
      rw [List.all_eq_true]
      exact isDigit_toDigits _
    have hempty : (Nat.toDigits 10 n.natAbs).isEmpty = false := by
      simp [Nat.toDigits_ne_nil]
    by_cases hn : n < 0
    · have habs : -(n.natAbs : Int) = n := by omega
      rw [powerText, if_pos hn]
      simp only [readExponent?, hdigits, hempty, Nat.ofDigitChars_ten_toDigits]
      exact congrArg some habs
    · have habs : (n.natAbs : Int) = n := by omega
      rw [powerText, if_neg hn]
      simp only [readExponent?, hdigits, hempty, Nat.ofDigitChars_ten_toDigits]
      exact congrArg some habs

theorem DecimalText.read?_text (t : DecimalText) : Decimal.read? t.text = some t.decimal := by
  obtain ⟨whole, fraction, exponent, hne, hwhole, hfraction⟩ := t
  have hpower := not_isDigit_powerText exponent
  have hread := readExponent?_powerText exponent
  have hempty : whole.isEmpty = false := by simpa using hne
  cases fraction with
  | nil =>
    obtain ⟨htake, hdrop⟩ := cut_digits hwhole hpower
    cases exponent with
    | none =>
      rw [powerText, List.append_nil] at htake hdrop
      simp [text, decimal, fractionText, powerText, Decimal.read?, htake, hdrop, hempty,
        readExponent?]
    | some n =>
      rw [powerText] at htake hdrop hread
      simp [text, decimal, fractionText, powerText, Decimal.read?, htake, hdrop, hempty, hread]
  | cons c fraction =>
    obtain ⟨htake, hdrop⟩ := cut_digits hwhole
      (show ∀ d ∈ ('.' :: (c :: fraction ++ powerText exponent)).head?, d.isDigit = false by
        intro d hd
        cases hd
        decide)
    obtain ⟨htake', hdrop'⟩ := cut_digits hfraction hpower
    simp only [List.cons_append] at htake hdrop htake' hdrop'
    simp [text, decimal, fractionText, Decimal.read?, htake, hdrop, htake', hdrop', hempty, hread]

end Reading

section Layout

/-- The number of these digits, the first of which has this exponent. -/
def leadingDecimal (digits : List Char) (exponent : Int) : Decimal :=
  ⟨Nat.ofDigitChars 10 digits 0, exponent + 1 - digits.length⟩

/-- The text writes the number, perhaps with zeros behind its digits. -/
def Writes (cs : List Char) (d : Decimal) : Prop :=
  ∃ (t : DecimalText) (zeros : Nat), t.text = cs ∧ t.decimal = d.pad zeros

theorem Decimal.pad_eq {d e : Decimal} {zeros : Nat} (hdigits : d.digits * 10 ^ zeros = e.digits)
    (hpower : d.power - zeros = e.power) : d.pad zeros = e := by
  rw [pad, hdigits, hpower]

theorem Decimal.pad_zero (d : Decimal) : d.pad 0 = d := by
  simp [pad]

theorem isDigit_replicate (n : Nat) : ∀ c ∈ List.replicate n '0', c.isDigit = true := by
  intro c hc
  rw [List.eq_of_mem_replicate hc]
  decide

theorem isDigit_append {ds ds' : List Char} (h : ∀ c ∈ ds, c.isDigit = true)
    (h' : ∀ c ∈ ds', c.isDigit = true) : ∀ c ∈ ds ++ ds', c.isDigit = true := by
  intro c hc
  rcases List.mem_append.mp hc with hc | hc
  · exact h c hc
  · exact h' c hc

theorem ofDigitChars_append_replicate (ds : List Char) (n : Nat) :
    Nat.ofDigitChars 10 (ds ++ List.replicate n '0') 0 = Nat.ofDigitChars 10 ds 0 * 10 ^ n := by
  rw [Nat.ofDigitChars_append, Nat.ofDigitChars_replicate_zero, Nat.mul_comm]

variable {ds : List Char} {exponent : Int}

theorem writes_plainDigits (hne : ds ≠ []) (hd : ∀ c ∈ ds, c.isDigit = true) {mark : String}
    {places : Nat} (hm : mark.toList = fractionText (List.replicate places '0')) :
    Writes (plainDigits ds exponent mark) (leadingDecimal ds exponent) := by
  by_cases hneg : exponent < 0
  · -- the digits stand behind the point and some zeros
    let zeros := (-exponent - 1).toNat
    let fraction := List.replicate zeros '0' ++ ds
    refine ⟨⟨['0'], fraction, none, by simp, isDigit_replicate 1,
      isDigit_append (isDigit_replicate _) hd⟩, 0, ?_, ?_⟩
    · simp [DecimalText.text, fractionText, powerText, plainDigits, hneg, hne, fraction, zeros]
    · have hvalue : Nat.ofDigitChars 10 (['0'] ++ fraction) 0 = Nat.ofDigitChars 10 ds 0 := by
        rw [← List.append_assoc, Nat.ofDigitChars_append]
        exact congrArg _ (Nat.ofDigitChars_replicate_zero (n := zeros + 1))
      have hpower : 0 - (fraction.length : Int) = exponent + 1 - ds.length := by
        rw [List.length_append, List.length_replicate]
        omega
      rw [Decimal.pad_zero, leadingDecimal, ← hvalue, ← hpower]
      rfl
  by_cases hlong : ds.length ≤ exponent.toNat + 1
  · -- zeros fill the digits up to the point
    let zeros := exponent.toNat + 1 - ds.length
    refine ⟨⟨ds ++ List.replicate zeros '0', List.replicate places '0', none, by simp [hne],
      isDigit_append hd (isDigit_replicate _), isDigit_replicate _⟩, zeros + places, ?_, ?_⟩
    · simp [DecimalText.text, powerText, plainDigits, hneg, hlong, hm, zeros]
    · have hvalue : Nat.ofDigitChars 10
          (ds ++ List.replicate zeros '0' ++ List.replicate places '0') 0 =
            Nat.ofDigitChars 10 ds 0 * 10 ^ (zeros + places) := by
        rw [List.append_assoc, List.replicate_append_replicate, ofDigitChars_append_replicate]
      have hpower : 0 - ((List.replicate places '0').length : Int) =
          exponent + 1 - ds.length - ↑(zeros + places) := by
        rw [List.length_replicate]
        omega
      rw [Decimal.pad, leadingDecimal, ← hvalue, ← hpower]
      rfl
  · -- the point stands among the digits
    have htake : ds.take (exponent.toNat + 1) ≠ [] := by simp [hne]
    have hdrop : ds.drop (exponent.toNat + 1) ≠ [] := by simp; omega
    refine ⟨⟨ds.take (exponent.toNat + 1), ds.drop (exponent.toNat + 1), none, htake,
      fun c hc => hd c (List.mem_of_mem_take hc), fun c hc => hd c (List.mem_of_mem_drop hc)⟩,
      0, ?_, ?_⟩
    · simp [DecimalText.text, fractionText, powerText, plainDigits, hneg, hlong]
    · have hpower : 0 - ((ds.drop (exponent.toNat + 1)).length : Int) =
          exponent + 1 - ds.length := by
        rw [List.length_drop]
        omega
      rw [Decimal.pad_zero, leadingDecimal, ← hpower, DecimalText.decimal, List.take_append_drop]
      rfl

theorem writes_scientificDigits (hne : ds ≠ []) (hd : ∀ c ∈ ds, c.isDigit = true) :
    Writes (scientificDigits ds exponent) (leadingDecimal ds exponent) := by
  have hlen : 0 < ds.length := List.length_pos_iff.mpr hne
  refine ⟨⟨ds.take 1, ds.drop 1, some exponent, by simp [hne],
    fun c hc => hd c (List.mem_of_mem_take hc), fun c hc => hd c (List.mem_of_mem_drop hc)⟩,
    0, ?_, ?_⟩
  · simp [DecimalText.text, fractionText, powerText, scientificDigits]
  · have hpower : exponent - ((ds.drop 1).length : Int) = exponent + 1 - ds.length := by
      rw [List.length_drop]
      omega
    rw [Decimal.pad_zero, leadingDecimal, ← hpower, DecimalText.decimal, List.take_append_drop]
    rfl

/-- Without its zeros at the end a list of digits is what it was in front of them. -/
theorem exists_zeros_behind (ds : List Char) :
    ∃ zeros, ds = (ds.reverse.dropWhile (· == '0')).reverse ++ List.replicate zeros '0' := by
  have hall : ∀ c ∈ ds.reverse.takeWhile (· == '0'), c = '0' :=
    fun c hc => eq_of_beq (List.all_eq_true.mp List.all_takeWhile c hc)
  refine ⟨(ds.reverse.takeWhile (· == '0')).length, ?_⟩
  have hcut : (ds.reverse.takeWhile (· == '0') ++ ds.reverse.dropWhile (· == '0')).reverse =
      ds.reverse.reverse := congrArg List.reverse List.takeWhile_append_dropWhile
  rw [List.reverse_append, List.reverse_reverse, List.eq_replicate_of_mem hall,
    List.reverse_replicate] at hcut
  exact hcut.symm

theorem Magnitude.leadingDigits_spec {m : Magnitude} {tie : Tie} {ds : List Char} {exponent : Int}
    (h : m.leadingDigits tie = (ds, exponent)) :
    ds ≠ [] ∧ (∀ c ∈ ds, c.isDigit = true) ∧
      (leadingDecimal ds exponent).magnitude? = some m := by
  by_cases hz : m = .zero
  · rw [leadingDigits, if_pos hz] at h
    cases h
    have hzero : (leadingDecimal ['0'] 0).digits = 0 := rfl
    rw [hz, Decimal.magnitude?, if_pos hzero]
    exact ⟨by simp, isDigit_replicate 1, rfl⟩
  rw [leadingDigits, if_neg hz] at h
  obtain ⟨hds, hexponent⟩ := Prod.mk.inj h
  have hread := m.magnitude?_shortest tie
  generalize m.shortest tie = d at hread hds hexponent
  obtain ⟨zeros, hzeros⟩ := exists_zeros_behind (Nat.toDigits 10 d.digits)
  rw [hds] at hzeros
  have hdigits : Nat.ofDigitChars 10 ds 0 * 10 ^ zeros = d.digits := by
    rw [← ofDigitChars_append_replicate, ← hzeros, Nat.ofDigitChars_ten_toDigits]
  have hpad : (leadingDecimal ds exponent).pad zeros = d := by
    have hlen := congrArg List.length hzeros
    rw [List.length_append, List.length_replicate] at hlen
    have hpower : exponent + 1 - ds.length - zeros = d.power := by omega
    exact Decimal.pad_eq hdigits hpower
  refine ⟨?_, ?_, ?_⟩
  · rintro rfl
    -- no digit is left of zero alone, and that is not what is printed
    have hnone : d.digits = 0 := by rw [← hdigits, Nat.ofDigitChars_nil, Nat.zero_mul]
    rw [Decimal.magnitude?, if_pos hnone] at hread
    exact hz (Option.some.inj hread).symm
  · intro c hc
    have hmem : c ∈ Nat.toDigits 10 d.digits := by
      rw [hzeros]
      exact List.mem_append_left _ hc
    exact isDigit_toDigits _ c hmem
  · rw [← Decimal.magnitude?_pad _ zeros, hpad, hread]

/-- A layout that adds a point and zeros to a number without a fraction, or nothing. -/
def Layout.MarksByZeros (layout : Layout) : Prop :=
  ∃ places, layout.wholeMark.toList = fractionText (List.replicate places '0')

theorem Layout.exists_text {layout : Layout} (hm : layout.MarksByZeros) (m : Magnitude) :
    ∃ t : DecimalText, t.text = layout.magnitude m ∧ t.decimal.magnitude? = some m := by
  obtain ⟨places, hmark⟩ := hm
  generalize hl : m.leadingDigits layout.tie = leading
  obtain ⟨ds, exponent⟩ := leading
  obtain ⟨hne, hd, hvalue⟩ := Magnitude.leadingDigits_spec hl
  have hwrites : Writes (layout.magnitude m) (leadingDecimal ds exponent) := by
    rw [Layout.magnitude, hl]
    by_cases hp : layout.plain exponent = true
    · simp only [if_pos hp]
      exact writes_plainDigits hne hd hmark
    · simp only [if_neg hp]
      exact writes_scientificDigits hne hd
  obtain ⟨t, zeros, htext, hpad⟩ := hwrites
  refine ⟨t, htext, ?_⟩
  rw [hpad, Decimal.magnitude?_pad, hvalue]

end Layout

section Doubles

theorem DecimalText.exists_head (t : DecimalText) :
    ∃ c cs, t.text = c :: cs ∧ c.isDigit = true := by
  obtain ⟨c, cs, hc⟩ := List.exists_cons_of_ne_nil t.whole_ne_nil
  refine ⟨c, cs ++ (fractionText t.fraction ++ powerText t.exponent), ?_, ?_⟩
  · rw [text, hc]
    rfl
  · exact t.isDigit_whole c (hc ▸ List.mem_cons_self)

theorem Double.read?_text_of_decimal (negative : Bool) (t : DecimalText) :
    read? (String.ofList ((if negative then ['-'] else []) ++ t.text)) =
      some (.ofMagnitude? negative t.decimal.magnitude?) := by
  have hread := t.read?_text
  cases negative with
  | true => simp [read?, hread]
  | false =>
    obtain ⟨c, cs, htext, hc⟩ := t.exists_head
    rw [htext] at hread
    have hminus : c ≠ '-' := by
      rintro rfl
      cases hc
    have hplus : c ≠ '+' := by
      rintro rfl
      cases hc
    simp [read?, htext, hread, hminus, hplus]

theorem Layout.read?_number {layout : Layout} (hm : layout.MarksByZeros) (negative : Bool)
    (m : Magnitude) : Double.read? (layout.number negative m) = some (.finite negative m) := by
  obtain ⟨t, htext, hvalue⟩ := exists_text hm m
  rw [number, ← htext, Double.read?_text_of_decimal, hvalue]
  rfl

/-- Every double is read from its text. -/
theorem Double.read?_text (d : Double) : read? d.text = some d := by
  cases d with
  | nan => decide +kernel
  | infinite negative => cases negative <;> decide +kernel
  | finite negative m => exact Layout.read?_number ⟨0, rfl⟩ negative m

theorem Double.text_injective {d d' : Double} (h : d.text = d'.text) : d = d' := by
  have hread := d.read?_text
  rw [h, read?_text] at hread
  exact (Option.some.inj hread).symm

end Doubles

end MonicFactor
