import MonicFactor.Job.Request
import MonicFactor.Proofs.Options.Range
import MonicFactor.Proofs.Options.Readings

/-! The checks that a body goes through, one after another. A request is made of a body that
passes all of them, and carries what the body says; else the first check that fails is reported. -/

namespace MonicFactor

/-- A field of the options. There is none if the body has no options. -/
def Json.option? (body : Json) (field : String) : Option Json :=
  (body.get? "opts").bind (get? field)

inductive VerboseReads : Option Json → Bool → Prop
  | missing : VerboseReads none false
  | null : VerboseReads (some .null) false
  | bool (verbose : Bool) : VerboseReads (some (.bool verbose)) verbose
  | word {word : String} {verbose : Bool}
    (h : verbose = true ↔ String.ofList (word.toList.map Char.toLower) ∈ tickedWords) :
    VerboseReads (some (.string word)) verbose

inductive BodyCheck
  | polynomial
  | options
  | algorithm
  | precision
  | delta
  | precisionRange
  | deltaRange
  | verbose

def BodyCheck.all : List BodyCheck :=
  [.polynomial, .options, .algorithm, .precision, .delta, .precisionRange, .deltaRange, .verbose]

def BodyCheck.ofOptions : List BodyCheck :=
  [.options, .algorithm, .precision, .delta, .precisionRange, .deltaRange]

def BodyCheck.Passes (body : Json) : BodyCheck → Prop
  | .polynomial => ∃ expression, body.get? "poly" = some (.string expression)
  | .options =>
    ∀ value, body.get? "opts" = some value → value = .null ∨ ∃ members, value = .object members
  | .algorithm => ∃ algorithm, AlgorithmReads (body.option? "alg") algorithm
  | .precision => ∃ precision, PrecisionReads (body.option? "precision") precision
  | .delta => ∃ delta, DeltaReads (body.option? "delta") delta
  | .precisionRange =>
    ∃ precision, PrecisionReads (body.option? "precision") precision ∧ 32 ≤ precision.toNat
  | .deltaRange => ∃ delta, DeltaReads (body.option? "delta") delta ∧ InDeltaRange delta
  | .verbose => ∃ verbose, VerboseReads (body.get? "verbose") verbose

/-- What a check that fails is reported as. -/
def BodyCheck.Reports (body : Json) (failure : Failure) : BodyCheck → Prop
  | .polynomial => failure = .invalidRequest .missingPolynomial
  | .options => failure = .options .notAnObject
  | .algorithm =>
    ∃ value, body.option? "alg" = some value ∧ failure = .options value.algorithmFault
  | .precision =>
    ∃ value, body.option? "precision" = some value ∧
      failure = .options (.invalidField "precision" value.shown)
  | .delta =>
    ∃ value, body.option? "delta" = some value ∧
      failure = .options (.invalidField "delta" value.shown)
  | .precisionRange =>
    ∃ precision, PrecisionReads (body.option? "precision") precision ∧
      failure = .options (.precisionTooLow precision)
  | .deltaRange =>
    ∃ delta, DeltaReads (body.option? "delta") delta ∧ failure = .options (.deltaOutOfRange delta)
  | .verbose =>
    ∃ value, body.get? "verbose" = some value ∧
      failure = .invalidRequest (.invalidVerbose value.text)

/-- What a body says of its options, and within their ranges. -/
structure Options.Carries (options : Options) (body : Json) : Prop where
  given : BodyCheck.options.Passes body
  algorithm : AlgorithmReads (body.option? "alg") options.algorithm
  precision : PrecisionReads (body.option? "precision") options.precision
  delta : DeltaReads (body.option? "delta") options.delta
  precision_range : 32 ≤ options.precision.toNat
  delta_range : InDeltaRange options.delta

/-- The request has what the body says, and defaults for what it does not say. -/
structure Request.Carries (request : Request) (body : Json) : Prop where
  polynomial : body.get? "poly" = some (.string request.polynomial)
  options : request.options.Carries body
  verbose : VerboseReads (body.get? "verbose") request.verbose

section Settling

variable {body : Json} {α β : Type}

/-- The first of these checks that fails. -/
def FirstFailing (body : Json) (checks : List BodyCheck) (check : BodyCheck) : Prop :=
  ∃ before after, checks = before ++ check :: after ∧ (∀ c ∈ before, c.Passes body) ∧
    ¬check.Passes body

/-- A result that these checks decide, in this order. -/
inductive Settles (body : Json) (checks : List BodyCheck) (Carried : α → Prop) :
    Except Failure α → Prop
  | passed {a : α} (hp : ∀ c ∈ checks, c.Passes body) (ha : Carried a) :
    Settles body checks Carried (.ok a)
  | failed {check : BodyCheck} {failure : Failure} (hf : FirstFailing body checks check)
    (hr : check.Reports body failure) : Settles body checks Carried (.error failure)

variable {checks more : List BodyCheck} {check : BodyCheck} {Carried : α → Prop}

theorem Settles.of_passes {a : α} (hp : check.Passes body) (ha : Carried a) :
    Settles body [check] Carried (.ok a) :=
  .passed (by simpa using hp) ha

theorem Settles.of_not_passes {failure : Failure} (hf : ¬check.Passes body)
    (hr : check.Reports body failure) : Settles body [check] Carried (.error failure) :=
  .failed ⟨[], [], rfl, by simp, hf⟩ hr

/-- What is read next makes its checks behind those that have been passed. -/
theorem Settles.bind {Carried' : β → Prop} {x : Except Failure α} {f : α → Except Failure β}
    (hx : Settles body checks Carried x)
    (hf : ∀ a, Carried a → Settles body more Carried' (f a)) :
    Settles body (checks ++ more) Carried' (x >>= f) := by
  cases hx with
  | @passed a hp ha =>
    change Settles body (checks ++ more) Carried' (f a)
    have hnext := hf a ha
    generalize f a = result at hnext ⊢
    cases hnext with
    | passed hp' hb =>
      refine .passed (fun c hc => ?_) hb
      rcases List.mem_append.mp hc with hc | hc
      · exact hp c hc
      · exact hp' c hc
    | failed hfail hr =>
      obtain ⟨before, after, rfl, hbefore, hn⟩ := hfail
      refine .failed ⟨checks ++ before, after, by simp, fun c hc => ?_, hn⟩ hr
      rcases List.mem_append.mp hc with hc | hc
      · exact hp c hc
      · exact hbefore c hc
  | failed hfail hr =>
    obtain ⟨before, after, rfl, hbefore, hn⟩ := hfail
    exact .failed ⟨before, after ++ more, by simp, hbefore, hn⟩ hr

theorem head_eq_or_mem {a b : α} {mid after after' : List α}
    (h : a :: after = mid ++ b :: after') : a = b ∨ a ∈ mid := by
  cases mid with
  | nil => exact .inl (List.cons.inj h).1
  | cons c mid => exact .inr ((List.cons.inj h).1 ▸ List.mem_cons_self)

theorem FirstFailing.eq {check' : BodyCheck} (h : FirstFailing body checks check)
    (h' : FirstFailing body checks check') : check = check' := by
  obtain ⟨before, after, rfl, hp, hn⟩ := h
  obtain ⟨before', after', he, hp', hn'⟩ := h'
  -- if they are not the same, the earlier one stands among those that pass before the later one
  rcases List.append_eq_append_iff.mp he with ⟨mid, rfl, hrest⟩ | ⟨mid, rfl, hrest⟩
  · rcases head_eq_or_mem hrest with hc | hm
    · exact hc
    · exact absurd (hp' check (List.mem_append_right _ hm)) hn
  · rcases head_eq_or_mem hrest with hc | hm
    · exact hc.symm
    · exact absurd (hp check' (List.mem_append_right _ hm)) hn'

theorem BodyCheck.Reports.eq {failure failure' : Failure} (h : check.Reports body failure)
    (h' : check.Reports body failure') : failure = failure' := by
  cases check with
  | polynomial | options => exact h.trans h'.symm
  | algorithm | precision | delta | verbose =>
    obtain ⟨value, hv, rfl⟩ := h
    obtain ⟨value', hv', rfl⟩ := h'
    cases hv.symm.trans hv'
    rfl
  | precisionRange =>
    obtain ⟨precision, hp, rfl⟩ := h
    obtain ⟨precision', hp', rfl⟩ := h'
    rw [PrecisionReads.eq hp hp']
  | deltaRange =>
    obtain ⟨delta, hd, rfl⟩ := h
    obtain ⟨delta', hd', rfl⟩ := h'
    rw [DeltaReads.eq hd hd']

end Settling

section Carried

variable {body : Json} {request request' : Request}

theorem Options.Carries.passes {options : Options} (h : options.Carries body) :
    ∀ check ∈ BodyCheck.ofOptions, check.Passes body := by
  simp only [BodyCheck.ofOptions, List.forall_mem_cons, List.not_mem_nil, false_implies,
    implies_true, and_true]
  exact ⟨h.given, ⟨_, h.algorithm⟩, ⟨_, h.precision⟩, ⟨_, h.delta⟩,
    ⟨_, h.precision, h.precision_range⟩, ⟨_, h.delta, h.delta_range⟩⟩

theorem Request.Carries.passes (h : request.Carries body) :
    ∀ check ∈ BodyCheck.all, check.Passes body := by
  have hverbose : BodyCheck.verbose.Passes body := ⟨_, h.verbose⟩
  have hrest := List.forall_mem_append.mpr
    ⟨h.options.passes, List.forall_mem_singleton.mpr hverbose⟩
  exact List.forall_mem_cons.mpr ⟨⟨_, h.polynomial⟩, hrest⟩

theorem VerboseReads.eq {found : Option Json} {a b : Bool} (ha : VerboseReads found a)
    (hb : VerboseReads found b) : a = b := by
  cases ha with
  | missing | null | bool =>
    cases hb
    rfl
  | word h =>
    cases hb with
    | word h' => exact Bool.eq_iff_iff.mpr (h.trans h'.symm)

theorem Request.Carries.eq (h : request.Carries body) (h' : request'.Carries body) :
    request = request' := by
  obtain ⟨expression, ⟨algorithm, precision, delta⟩, verbose⟩ := request
  obtain ⟨expression', ⟨algorithm', precision', delta'⟩, verbose'⟩ := request'
  have hexpression : expression = expression' :=
    Json.string.inj (Option.some.inj (h.polynomial.symm.trans h'.polynomial))
  have halgorithm : algorithm = algorithm' := h.options.algorithm.eq h'.options.algorithm
  have hprecision : precision = precision' :=
    PrecisionReads.eq h.options.precision h'.options.precision
  have hdelta : delta = delta' := DeltaReads.eq h.options.delta h'.options.delta
  have hverbose : verbose = verbose' := h.verbose.eq h'.verbose
  rw [hexpression, halgorithm, hprecision, hdelta, hverbose]

theorem FirstFailing.not_passes {check : BodyCheck} (h : FirstFailing body BodyCheck.all check) :
    ¬∀ c ∈ BodyCheck.all, c.Passes body := by
  obtain ⟨before, after, hall, -, hn⟩ := h
  exact fun hp => hn (hp check (by rw [hall]; simp))

end Carried

end MonicFactor
