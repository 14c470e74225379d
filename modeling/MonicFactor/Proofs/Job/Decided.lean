import MonicFactor.Proofs.Job.Checks
import MonicFactor.Proofs.Job.Entrances
import MonicFactor.Proofs.Options.FieldValues

/-! How a body is decided: every reader makes its checks, and reading a request makes all of them in
their order. Nothing else in a body matters, and neither does the order of its members. -/

namespace MonicFactor

section Readers

variable (body : Json)

theorem settles_readPolynomial :
    Settles body [.polynomial] (fun expression => body.get? "poly" = some (.string expression))
      (readPolynomial body) := by
  rw [readPolynomial]
  cases h : body.get? "poly" with
  | none =>
    refine .of_not_passes ?_ rfl
    rintro ⟨expression, hp⟩
    cases h.symm.trans hp
  | some value =>
    cases value with
    | string expression => exact .of_passes ⟨_, h⟩ rfl
    | _ =>
      refine .of_not_passes ?_ rfl
      rintro ⟨expression, hp⟩
      cases h.symm.trans hp

theorem settles_readVerbose :
    Settles body [.verbose] (VerboseReads (body.get? "verbose")) (readVerbose body) := by
  have hfail {value : Json} (h : body.get? "verbose" = some value)
      (hv : ∀ verbose, ¬VerboseReads (some value) verbose) :
      Settles body [.verbose] (VerboseReads (some value))
        (.error (.invalidRequest (.invalidVerbose value.text))) := by
    refine .of_not_passes ?_ ⟨value, h, rfl⟩
    rintro ⟨verbose, hp⟩
    rw [h] at hp
    exact hv verbose hp
  have hpass {found : Option Json} (h : body.get? "verbose" = found) {verbose : Bool}
      (hv : VerboseReads found verbose) :
      Settles body [.verbose] (VerboseReads found) (.ok verbose) := by
    refine .of_passes ⟨verbose, ?_⟩ hv
    rw [h]
    exact hv
  rw [readVerbose]
  cases h : body.get? "verbose" with
  | none => exact hpass h .missing
  | some value =>
    cases value with
    | null => exact hpass h .null
    | bool verbose => exact hpass h (.bool verbose)
    | string word => exact hpass h (.word List.contains_iff_mem)
    | number | list | object =>
      apply hfail h
      intro verbose hv
      cases hv

end Readers

section Options

variable {body : Json} {members : List (String × Json)}

/-- The members say what the body says of its options. -/
def Json.HasOptions (body : Json) (members : List (String × Json)) : Prop :=
  ∀ field, body.option? field = (object members).get? field

theorem settles_of_cases {α : Type} {check : BodyCheck} {found : Option Json}
    {Reads : Option Json → α → Prop} {read : Except OptionsError α} {fault : Json → OptionsError}
    (hpass : check.Passes body ↔ ∃ a, Reads found a)
    (hreport : ∀ value, found = some value → check.Reports body (.options (fault value)))
    (hread : (∃ a, Reads found a ∧ read = .ok a) ∨
      ∃ value, found = some value ∧ (∀ a, ¬Reads (some value) a) ∧ read = .error (fault value)) :
    Settles body [check] (Reads found) (read.mapError .options) := by
  rcases hread with ⟨a, ha, rfl⟩ | ⟨value, rfl, hn, rfl⟩
  · exact .of_passes (hpass.mpr ⟨a, ha⟩) ha
  · refine .of_not_passes ?_ (hreport value rfl)
    intro hp
    obtain ⟨a, ha⟩ := hpass.mp hp
    exact hn a ha

theorem settles_readAlgorithm (h : body.HasOptions members) :
    Settles body [.algorithm] (AlgorithmReads (body.option? "alg"))
      ((readAlgorithm (.object members)).mapError .options) := by
  have hread := readAlgorithm_cases (.object members)
  rw [← h] at hread
  exact settles_of_cases Iff.rfl (fun value hv => ⟨value, hv, rfl⟩) hread

theorem settles_readPrecision (h : body.HasOptions members) (algorithm : Algorithm) :
    Settles body [.precision] (PrecisionReads (body.option? "precision"))
      ((readField (.object members) "precision" algorithm.options.precision
        (fun text => (readUInt32 text).toOption) JsonNumber.toUInt32?).mapError .options) := by
  have hread := readPrecision_cases (.object members) algorithm
  rw [← h] at hread
  exact settles_of_cases Iff.rfl (fun value hv => ⟨value, hv, rfl⟩) hread

theorem settles_readDelta (h : body.HasOptions members) (algorithm : Algorithm) :
    Settles body [.delta] (DeltaReads (body.option? "delta"))
      ((readField (.object members) "delta" algorithm.options.delta Double.read?
        fun n => some n.toDouble).mapError .options) := by
  have hread := readDelta_cases (.object members) algorithm
  rw [← h] at hread
  exact settles_of_cases Iff.rfl (fun value hv => ⟨value, hv, rfl⟩) hread

theorem settles_validate {options : Options}
    (hp : PrecisionReads (body.option? "precision") options.precision)
    (hd : DeltaReads (body.option? "delta") options.delta) :
    Settles body [.precisionRange, .deltaRange]
      (fun _ => 32 ≤ options.precision.toNat ∧ InDeltaRange options.delta)
      (options.validate.mapError .options) := by
  rw [Options.validate]
  by_cases hlow : options.precision < leastPrecision
  · rw [if_pos hlow]
    have hlow' : options.precision.toNat < 32 := UInt32.lt_iff_toNat_lt.mp hlow
    refine .failed ⟨[], [.deltaRange], rfl, by simp, ?_⟩ ⟨_, hp, rfl⟩
    rintro ⟨precision, hp', hle⟩
    rw [PrecisionReads.eq hp' hp] at hle
    omega
  rw [if_neg hlow]
  have hlow' : 32 ≤ options.precision.toNat :=
    Nat.not_lt.mp fun hlt => hlow (UInt32.lt_iff_toNat_lt.mpr hlt)
  have hprecision : BodyCheck.precisionRange.Passes body := ⟨_, hp, hlow'⟩
  by_cases hr : InDeltaRange options.delta
  · rw [if_pos (inDeltaRange_iff.mp hr)]
    exact .passed (List.forall_mem_cons.mpr ⟨hprecision, List.forall_mem_singleton.mpr ⟨_, hd, hr⟩⟩)
      ⟨hlow', hr⟩
  · rw [if_neg fun hh => hr (inDeltaRange_iff.mpr hh)]
    refine .failed ⟨[.precisionRange], [], rfl, by simpa using hprecision, ?_⟩ ⟨_, hd, rfl⟩
    rintro ⟨delta, hd', hr'⟩
    exact hr (DeltaReads.eq hd' hd ▸ hr')

theorem mapError_bind {ε ε' α β : Type} (x : Except ε α) (f : α → Except ε β) (g : ε → ε') :
    (x >>= f).mapError g = x.mapError g >>= fun a => (f a).mapError g := by
  cases x <;> rfl

theorem settles_ofJson (h : body.HasOptions members) (hg : BodyCheck.options.Passes body) :
    Settles body [.algorithm, .precision, .delta, .precisionRange, .deltaRange]
      (fun options => Options.Carries options body)
      ((Options.ofJson (.object members)).mapError .options) := by
  simp only [Options.ofJson, mapError_bind]
  refine (settles_readAlgorithm h).bind fun algorithm ha => ?_
  refine (settles_readPrecision h algorithm).bind fun precision hp => ?_
  refine (settles_readDelta h algorithm).bind fun delta hd => ?_
  refine (@settles_validate body ⟨algorithm, precision, delta⟩ hp hd).bind fun _ hr => ?_
  exact .passed (fun _ hc => absurd hc List.not_mem_nil) ⟨hg, ha, hp, hd, hr.1, hr.2⟩

theorem Options.carries_default (hg : BodyCheck.options.Passes body)
    (h : ∀ field, body.option? field = none) : default.Carries body := by
  obtain ⟨hprecision, hdelta⟩ := validate_eq_ok_iff.mp validate_default
  have hdefault : default.delta = defaultDelta := by rw [default, Algorithm.options]
  refine ⟨hg, ?_, ?_, ?_, hprecision, hdelta⟩ <;> rw [h]
  · exact .missing
  · exact .missing
  · rw [hdefault]
    exact .missing

/-- Options that are left out, or null, come to the same as an object that says nothing. -/
theorem settles_readOptions (body : Json) :
    Settles body BodyCheck.ofOptions (fun options => Options.Carries options body)
      (readOptions body) := by
  have hleft {found : Option Json} (h : body.get? "opts" = found)
      (hf : found = none ∨ found = some .null) :
      Settles body BodyCheck.ofOptions (fun options => Options.Carries options body)
        (.ok .default) := by
    have hnone : ∀ field, body.option? field = none := by
      intro field
      rw [Json.option?, h]
      rcases hf with rfl | rfl <;> rfl
    have hpass : BodyCheck.options.Passes body := by
      intro value hv
      rw [h] at hv
      rcases hf with rfl | rfl <;> cases hv
      exact .inl rfl
    have hcarried := Options.carries_default hpass hnone
    exact .passed hcarried.passes hcarried
  have hfail {value : Json} (h : body.get? "opts" = some value)
      (hn : ¬(value = .null ∨ ∃ members, value = .object members)) :
      Settles body BodyCheck.ofOptions (fun options => Options.Carries options body)
        (.error (.options .notAnObject)) := by
    refine .failed ⟨[], _, rfl, fun _ hc => absurd hc List.not_mem_nil, ?_⟩ rfl
    exact fun hp => hn (hp value h)
  rw [readOptions]
  cases h : body.get? "opts" with
  | none => exact hleft h (.inl rfl)
  | some value =>
    cases value with
    | null => exact hleft h (.inr rfl)
    | object members =>
      have hmembers : body.HasOptions members := by
        intro field
        rw [Json.option?, h]
        rfl
      have hpass : BodyCheck.options.Passes body := by
        intro value hv
        cases h.symm.trans hv
        exact .inr ⟨members, rfl⟩
      have hgiven : Settles body [.options] (fun _ : Unit => True) (.ok ()) :=
        .of_passes hpass trivial
      exact hgiven.bind fun _ _ => settles_ofJson hmembers hpass
    | bool | number | string | list =>
      apply hfail h
      rintro (hv | ⟨members, hv⟩) <;> cases hv

end Options

section Request

variable {body body' : Json} {request request' : Request}

theorem Request.settles_ofJson (body : Json) :
    Settles body BodyCheck.all (fun request => Request.Carries request body) (ofJson body) := by
  rw [ofJson]
  refine (settles_readPolynomial body).bind fun expression hexpression => ?_
  refine (settles_readOptions body).bind fun options hoptions => ?_
  refine (settles_readVerbose body).bind fun verbose hverbose => ?_
  exact .passed (fun _ hc => absurd hc List.not_mem_nil) ⟨hexpression, hoptions, hverbose⟩

theorem Request.ofJson_eq_ok_iff : ofJson body = .ok request ↔ request.Carries body := by
  have hs := settles_ofJson body
  constructor
  · intro h
    rw [h] at hs
    cases hs with
    | passed _ hc => exact hc
  · intro h
    generalize ofJson body = result at hs ⊢
    cases hs with
    | passed _ hc => rw [hc.eq h]
    | failed hf => exact absurd h.passes hf.not_passes

theorem Request.exists_ofJson_iff :
    (∃ request, ofJson body = .ok request) ↔ ∀ check ∈ BodyCheck.all, check.Passes body := by
  constructor
  · rintro ⟨request, h⟩
    exact (ofJson_eq_ok_iff.mp h).passes
  · intro h
    have hs := settles_ofJson body
    generalize ofJson body = result at hs ⊢
    cases hs with
    | passed => exact ⟨_, rfl⟩
    | failed hf => exact absurd h hf.not_passes

theorem Request.ofJson_eq_error_iff {failure : Failure} :
    ofJson body = .error failure ↔
      ∃ check, FirstFailing body BodyCheck.all check ∧ check.Reports body failure := by
  have hs := settles_ofJson body
  constructor
  · intro h
    rw [h] at hs
    cases hs with
    | failed hf hr => exact ⟨_, hf, hr⟩
  · rintro ⟨check, hf, hr⟩
    generalize ofJson body = result at hs ⊢
    cases hs with
    | passed hp => exact absurd hp hf.not_passes
    | failed hf' hr' =>
      have hc := hf'.eq hf
      subst hc
      rw [hr'.eq hr]

theorem Request.ofJson_congr (hp : body.get? "poly" = body'.get? "poly")
    (ho : readOptions body = readOptions body')
    (hv : body.get? "verbose" = body'.get? "verbose") : ofJson body = ofJson body' := by
  simp only [ofJson, readPolynomial, readVerbose, hp, ho, hv]

theorem readOptions_congr (h : body.get? "opts" = body'.get? "opts") :
    readOptions body = readOptions body' := by
  rw [readOptions, readOptions, h]

theorem Request.ofJson_rearranged {written written' : List (String × Json)}
    (h : Rearranged ["poly", "opts", "verbose"] written written') :
    ofJson (.ofWritten written') = ofJson (.ofWritten written) := by
  apply ofJson_congr
  · exact h.get?_eq (by simp)
  · exact readOptions_congr (h.get?_eq (by simp))
  · exact h.get?_eq (by simp)

theorem Options.ofJson_rearranged {written written' : List (String × Json)}
    (h : Rearranged ["alg", "precision", "delta"] written written') :
    ofJson (.ofWritten written') = ofJson (.ofWritten written) := by
  apply ofJson_congr
  · exact readAlgorithm_congr (h.get?_eq (by simp))
  · exact fun _ => readField_congr (h.get?_eq (by simp))
  · exact fun _ => readField_congr (h.get?_eq (by simp))

theorem Request.ofJson_rearranged_options {written written' : List (String × Json)}
    (h : Rearranged ["alg", "precision", "delta"] written written')
    (members : List (String × Json)) :
    ofJson (.object (insertMember "opts" (.ofWritten written') members)) =
      ofJson (.object (insertMember "opts" (.ofWritten written) members)) := by
  have hother (value : Json) {key : String} (hk : key ≠ "opts") :
      (Json.object (insertMember "opts" value members)).get? key = members.lookup key := by
    rw [Json.get?, lookup_insertMember, if_neg hk]
  have hopts (inner : List (String × Json)) :
      readOptions (.object (insertMember "opts" (.ofWritten inner) members)) =
        (Options.ofJson (.ofWritten inner)).mapError .options := by
    rw [readOptions, Json.get?, lookup_insertMember, if_pos rfl]
    rfl
  apply ofJson_congr
  · rw [hother _ (by decide), hother _ (by decide)]
  · rw [hopts, hopts, Options.ofJson_rearranged h]
  · rw [hother _ (by decide), hother _ (by decide)]

/-- A body is accepted if it passes every check, and the request is the one that carries what the
body says. Else what the first failing check reports is the failure. Members that no check looks
at, and the order in which members are written, make no difference in the body or in its options. -/
theorem Request.ofJson_decided (body : Json) :
    (∀ text, Json.read text = .ok body → Request.read text = Request.ofJson body) ∧
    ((∃ request, ofJson body = .ok request) ↔ ∀ check ∈ BodyCheck.all, check.Passes body) ∧
    (∀ request, ofJson body = .ok request ↔ request.Carries body) ∧
    (∀ failure, ofJson body = .error failure ↔
      ∃ check, FirstFailing body BodyCheck.all check ∧ check.Reports body failure) ∧
    (∀ written written', Rearranged ["poly", "opts", "verbose"] written written' →
      ofJson (.ofWritten written') = ofJson (.ofWritten written)) ∧
    ∀ members inner inner', Rearranged ["alg", "precision", "delta"] inner inner' →
      ofJson (.object (insertMember "opts" (.ofWritten inner') members)) =
        ofJson (.object (insertMember "opts" (.ofWritten inner) members)) := by
  refine ⟨?_, exists_ofJson_iff, fun _ => ofJson_eq_ok_iff, fun _ => ofJson_eq_error_iff,
    fun _ _ h => ofJson_rearranged h, fun members _ _ h => ofJson_rearranged_options h members⟩
  intro text h
  rw [Request.read, h]
  rfl

/-- Three checks fail, and that of the range of the precision is the first of them. A body without
options takes the defaults, and members that nothing looks at are passed over. -/
theorem Request.ofJson_decided_of_faults :
    let text :=
      "\x7b\"verbose\":3,\"opts\":\x7b\"delta\":\"NaN\",\"precision\":\" 16 \"\x7d,\"poly\":\"\"\x7d"
    let blank : Json := .ofWritten [("precision", .string " ")]
    let plain : List (String × Json) := [("poly", .string "x"), ("verbose", .string "YES")]
    Request.read text = .error (.options (.precisionTooLow 16)) ∧
      ofJson (.ofWritten [("verbose", .string "YES"), ("z", .null), ("poly", .string "x")]) =
        .ok ⟨"x", .default, true⟩ ∧
      ofJson (.object (insertMember "opts"
          (.ofWritten [("z", .list []), ("precision", .string " ")]) plain)) =
        ofJson (.object (insertMember "opts" blank plain)) := by
  intro text blank plain
  let body : Json := .object [("opts", .object [("delta", .string "NaN"),
    ("precision", .string " 16 ")]), ("poly", .string ""), ("verbose", .number (.integer 3))]
  obtain ⟨hread, -, -, herror, -, hopts⟩ := ofJson_decided body
  obtain ⟨-, -, hok, -, hbody, -⟩ := ofJson_decided (.ofWritten plain)
  refine ⟨?_, ?_, ?_⟩
  · have htext : Json.read text = .ok body := by decide +kernel
    have hprecision : PrecisionReads (body.option? "precision") 16 :=
      .text (by decide) (by decide +kernel)
    have hdelta : DeltaReads (body.option? "delta") .nan := .text (by decide) (by decide +kernel)
    rw [hread text htext, herror]
    refine ⟨.precisionRange, ⟨[.polynomial, .options, .algorithm, .precision, .delta],
      [.deltaRange, .verbose], rfl, ?_, ?_⟩, 16, hprecision, rfl⟩
    · simp only [List.forall_mem_cons, List.not_mem_nil, false_implies, implies_true, and_true]
      refine ⟨⟨"", rfl⟩, ?_, ⟨.lll, .missing⟩, ⟨16, hprecision⟩, ⟨.nan, hdelta⟩⟩
      intro value hv
      cases hv
      exact .inr ⟨_, rfl⟩
    · rintro ⟨precision, hp, hle⟩
      rw [PrecisionReads.eq hp hprecision] at hle
      exact absurd hle (by decide)
  · have hopts : (Json.ofWritten plain).get? "opts" = none := by decide +kernel
    have hverbose : (Json.ofWritten plain).get? "verbose" = some (.string "YES") := by
      decide +kernel
    have hnone : ∀ field, (Json.ofWritten plain).option? field = none := by
      intro field
      rw [Json.option?, hopts]
      rfl
    rw [hbody plain _ ⟨by decide, [("z", .null)], by decide, by simp⟩, hok]
    refine ⟨by decide +kernel, Options.carries_default ?_ hnone, ?_⟩
    · intro value hv
      rw [hopts] at hv
      cases hv
    · rw [hverbose]
      exact .word (by decide)
  · exact hopts plain [("precision", .string " ")] _
      ⟨by decide, [("z", .list [])], by decide, by simp⟩

end Request

end MonicFactor
