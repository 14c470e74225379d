import MonicFactor.Options.Basic

/-! What the fields of the options say, whichever way they say it: left out, null, blank, as a
string or as a number. The readers come to what is said, and refuse a field that says nothing. -/

namespace MonicFactor

/-- A field that may be left out, with a value for that case. -/
inductive FieldReads {α : Type} (default : α) (OfText : String → α → Prop)
    (OfNumber : JsonNumber → α → Prop) : Option Json → α → Prop
  | missing : FieldReads default OfText OfNumber none default
  | null : FieldReads default OfText OfNumber (some .null) default
  | blank {text : String} (h : isBlankText text = true) :
    FieldReads default OfText OfNumber (some (.string text)) default
  | text {text : String} {a : α} (hb : isBlankText text = false) (h : OfText (trimText text) a) :
    FieldReads default OfText OfNumber (some (.string text)) a
  | number {n : JsonNumber} {a : α} (h : OfNumber n a) :
    FieldReads default OfText OfNumber (some (.number n)) a

abbrev PrecisionReads : Option Json → UInt32 → Prop :=
  FieldReads 64 (fun text precision => readUInt32 text = .ok precision)
    fun n precision => n = .integer precision.toNat

abbrev DeltaReads : Option Json → Double → Prop :=
  FieldReads defaultDelta (fun text delta => Double.read? text = some delta)
    fun n delta => n.toDouble = delta

inductive AlgorithmReads : Option Json → Algorithm → Prop
  | missing : AlgorithmReads none .lll
  | null : AlgorithmReads (some .null) .lll
  | named {name : String} (h : (trim name.toList).map Char.toLower = "lll".toList) :
    AlgorithmReads (some (.string name)) .lll

/-- A value as errors show it, a string without its quotes. -/
def Json.shown : Json → String
  | .string text => text
  | value => value.text

def Json.algorithmFault : Json → OptionsError
  | .string name => .unknownAlgorithm name
  | value => .invalidField "alg" value.text

section Field

variable {α : Type} {default : α} {OfText : String → α → Prop} {OfNumber : JsonNumber → α → Prop}

theorem FieldReads.eq (ht : ∀ {text a b}, OfText text a → OfText text b → a = b)
    (hn : ∀ {n a b}, OfNumber n a → OfNumber n b → a = b) {found : Option Json} {a b : α}
    (ha : FieldReads default OfText OfNumber found a)
    (hb : FieldReads default OfText OfNumber found b) : a = b := by
  cases ha with
  | missing | null =>
    cases hb
    rfl
  | blank h =>
    cases hb with
    | blank => rfl
    | text hh => cases h.symm.trans hh
  | text hblank h =>
    cases hb with
    | blank hh => cases hblank.symm.trans hh
    | text _ h' => exact ht h h'
  | number h =>
    cases hb with
    | number h' => exact hn h h'

theorem PrecisionReads.eq {found : Option Json} {a b : UInt32} (ha : PrecisionReads found a)
    (hb : PrecisionReads found b) : a = b := by
  refine FieldReads.eq (fun h h' => Except.ok.inj (h.symm.trans h')) (fun h h' => ?_) ha hb
  have hint := JsonNumber.integer.inj (h.symm.trans h')
  exact UInt32.toNat_inj.mp (Int.ofNat.inj hint)

theorem DeltaReads.eq {found : Option Json} {a b : Double} (ha : DeltaReads found a)
    (hb : DeltaReads found b) : a = b :=
  FieldReads.eq (fun h h' => Option.some.inj (h.symm.trans h')) (fun h h' => h.symm.trans h') ha hb

theorem AlgorithmReads.eq {found : Option Json} {a b : Algorithm} (_ : AlgorithmReads found a)
    (_ : AlgorithmReads found b) : a = b := by
  cases a
  cases b
  rfl

variable {ofText : String → Option α} {ofNumber : JsonNumber → Option α}

/-- A field is read as what it says, or it says nothing and is shown. -/
theorem readField_cases (ht : ∀ text a, ofText text = some a ↔ OfText text a)
    (hn : ∀ n a, ofNumber n = some a ↔ OfNumber n a) (object : Json) (field : String) :
    (∃ a, FieldReads default OfText OfNumber (object.get? field) a ∧
      readField object field default ofText ofNumber = .ok a) ∨
    ∃ value, object.get? field = some value ∧
      (∀ a, ¬FieldReads default OfText OfNumber (some value) a) ∧
      readField object field default ofText ofNumber =
        .error (.invalidField field value.shown) := by
  rw [readField]
  cases object.get? field with
  | none => exact .inl ⟨_, .missing, rfl⟩
  | some value =>
    cases value with
    | null => exact .inl ⟨_, .null, rfl⟩
    | string text =>
      by_cases hb : isBlankText text = true
      · exact .inl ⟨_, .blank hb, if_pos hb⟩
      have hb' : isBlankText text = false := by simpa using hb
      cases ho : ofText (trimText text) with
      | some a =>
        refine .inl ⟨a, .text hb' ((ht _ _).mp ho), ?_⟩
        simp only [if_neg hb, ho]
      | none =>
        refine .inr ⟨_, rfl, ?_, by simp only [if_neg hb, ho]; rfl⟩
        intro a h
        cases h with
        | blank hh => exact hb hh
        | text _ h => cases ho.symm.trans ((ht _ _).mpr h)
    | number n =>
      cases ho : ofNumber n with
      | some a => exact .inl ⟨a, .number ((hn _ _).mp ho), by simp only [ho]⟩
      | none =>
        refine .inr ⟨_, rfl, ?_, ?_⟩
        · intro a h
          cases h with
          | number h => cases ho.symm.trans ((hn _ _).mpr h)
        · simp only [ho, Json.shown, Json.text, Json.render, String.ofList_toList]
    | bool | list | object => exact .inr ⟨_, rfl, nofun, rfl⟩

end Field

theorem readUInt32_toOption_eq_some_iff (text : String) (precision : UInt32) :
    (readUInt32 text).toOption = some precision ↔ readUInt32 text = .ok precision := by
  cases readUInt32 text with
  | error e => exact ⟨nofun, nofun⟩
  | ok n => exact ⟨fun h => congrArg _ (Option.some.inj h), fun h => congrArg _ (Except.ok.inj h)⟩

theorem JsonNumber.toUInt32?_integer (n : UInt32) : toUInt32? (.integer n.toNat) = some n := by
  have hn : n.toNat < UInt32.size := n.toNat_lt
  have hu : UInt32.ofNat n.toNat = n := UInt32.ofNat_toNat
  show (if n.toNat < UInt32.size then some (UInt32.ofNat n.toNat) else none) = some n
  rw [if_pos hn, hu]

theorem JsonNumber.toUInt32?_eq_some_iff (n : JsonNumber) (precision : UInt32) :
    n.toUInt32? = some precision ↔ n = .integer precision.toNat := by
  constructor
  · intro h
    match n with
    | .integer (.ofNat k) =>
      rw [toUInt32?] at h
      by_cases hk : k < UInt32.size
      · rw [if_pos hk] at h
        rw [← Option.some.inj h, UInt32.toNat_ofNat_of_lt' hk]
        rfl
      · rw [if_neg hk] at h
        cases h
  · rintro rfl
    exact toUInt32?_integer precision

theorem readPrecision_cases (object : Json) (algorithm : Algorithm) :
    let read := readField object "precision" algorithm.options.precision
      (fun text => (readUInt32 text).toOption) JsonNumber.toUInt32?
    (∃ precision, PrecisionReads (object.get? "precision") precision ∧ read = .ok precision) ∨
    ∃ value, object.get? "precision" = some value ∧ (∀ n, ¬PrecisionReads (some value) n) ∧
      read = .error (.invalidField "precision" value.shown) :=
  readField_cases readUInt32_toOption_eq_some_iff JsonNumber.toUInt32?_eq_some_iff object _

theorem readDelta_cases (object : Json) (algorithm : Algorithm) :
    let read := readField object "delta" algorithm.options.delta Double.read?
      fun n => some n.toDouble
    (∃ delta, DeltaReads (object.get? "delta") delta ∧ read = .ok delta) ∨
    ∃ value, object.get? "delta" = some value ∧ (∀ d, ¬DeltaReads (some value) d) ∧
      read = .error (.invalidField "delta" value.shown) := by
  have hn (n : JsonNumber) (delta : Double) : some n.toDouble = some delta ↔ n.toDouble = delta :=
    ⟨Option.some.inj, congrArg some⟩
  have hdefault : algorithm.options.delta = defaultDelta := by rw [Algorithm.options]
  rw [hdefault]
  exact readField_cases (fun _ _ => Iff.rfl) hn object "delta"

theorem Algorithm.ofText_eq (name : String) :
    ofText name = if (trim name.toList).map Char.toLower = "lll".toList then .ok .lll
      else .error (.unknownAlgorithm name) := by
  have hname : lll.name.toList.map Char.toLower = "lll".toList := by decide
  by_cases h : (trim name.toList).map Char.toLower = "lll".toList
  · rw [if_pos h]
    simp only [ofText, all, List.find?_cons, hname, h, decide_true]
  · have hsymm : ¬"lll".toList = (trim name.toList).map Char.toLower := fun hh => h hh.symm
    rw [if_neg h]
    simp only [ofText, all, List.find?_cons, List.find?_nil, hname, hsymm, decide_false]

theorem readAlgorithm_cases (object : Json) :
    (∃ algorithm, AlgorithmReads (object.get? "alg") algorithm ∧
      readAlgorithm object = .ok algorithm) ∨
    ∃ value, object.get? "alg" = some value ∧ (∀ a, ¬AlgorithmReads (some value) a) ∧
      readAlgorithm object = .error value.algorithmFault := by
  rw [readAlgorithm]
  cases object.get? "alg" with
  | none => exact .inl ⟨_, .missing, rfl⟩
  | some value =>
    cases value with
    | null => exact .inl ⟨_, .null, rfl⟩
    | string name =>
      have hread := Algorithm.ofText_eq name
      by_cases h : (trim name.toList).map Char.toLower = "lll".toList
      · rw [if_pos h] at hread
        exact .inl ⟨_, .named h, hread⟩
      · rw [if_neg h] at hread
        refine .inr ⟨_, rfl, ?_, hread⟩
        intro a ha
        cases ha with
        | named hh => exact h hh
    | bool | number | list | object => exact .inr ⟨_, rfl, nofun, rfl⟩

end MonicFactor
