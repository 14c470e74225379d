import MonicFactor.Job.Run

/-! How a job ends. A request is refused before anything is started, and from then on the way its
program ends decides. -/

namespace MonicFactor

section Command

variable {settings : Settings} {request : Request}

/-- The polynomial is looked at before the options. -/
theorem Request.command_cases (settings : Settings) (request : Request) :
    (∃ error, Monic.read (some settings.maxDegree.toNat) request.polynomial = .error error ∧
      request.command settings = .error (.polynomial error)) ∨
    (∃ p error, Monic.read (some settings.maxDegree.toNat) request.polynomial = .ok p ∧
      request.options.validate = .error error ∧
      request.command settings = .error (.options error)) ∨
    ∃ p, Monic.read (some settings.maxDegree.toNat) request.polynomial = .ok p ∧
      request.options.validate = .ok () ∧
      request.command settings = .ok ⟨settings.programPath request.options.algorithm,
        request.options.arguments p settings.stopDegree⟩ := by
  cases hp : Monic.read (some settings.maxDegree.toNat) request.polynomial with
  | error error => exact .inl ⟨error, rfl, by simp only [command, hp]; rfl⟩
  | ok p =>
    cases hv : request.options.validate with
    | error error => exact .inr (.inl ⟨p, error, rfl, rfl, by simp only [command, hp, hv]; rfl⟩)
    | ok _ => exact .inr (.inr ⟨p, rfl, rfl, by simp only [command, hp, hv]; rfl⟩)

theorem Request.isUserError_of_command {failure : Failure}
    (h : request.command settings = .error failure) : failure.isUserError = true := by
  rcases request.command_cases settings with
    ⟨error, -, he⟩ | ⟨p, error, -, -, he⟩ | ⟨p, -, -, he⟩ <;> rw [he] at h
  · rw [← Except.error.inj h]
    rfl
  · rw [← Except.error.inj h]
    rfl
  · cases h

end Command

theorem Outcome.output_eq_error {outcome : Outcome} {settings : Settings} {command : Command}
    {failure : Failure} (h : outcome.output settings command = .error failure) :
    failure.isUserError = false ∧ ∀ output, failure ≠ .missingFactorization output := by
  cases outcome with
  | cannotStart reason =>
    rw [← Except.error.inj h]
    exact ⟨rfl, nofun⟩
  | outlives =>
    rw [← Except.error.inj h]
    exact ⟨rfl, nofun⟩
  | ends code stdout stderr =>
    rw [output] at h
    split at h
    · cases h
    · rw [← Except.error.inj h]
      exact ⟨rfl, nofun⟩

section Execute

variable {settings : Settings} {launch : Launch} {request : Request}

theorem Request.execute_of_refused {failure : Failure}
    (h : request.command settings = .error failure) (launch : Launch) :
    request.execute settings launch = .error failure := by
  rw [execute, h]
  rfl

theorem Request.execute_of_command {command : Command}
    (h : request.command settings = .ok command) (launch : Launch) :
    request.execute settings launch = (launch command).output settings command := by
  rw [execute, h]
  rfl

/-- That factors are missing is only found when a transcript is decoded. -/
theorem Request.ne_missingFactorization_of_execute {failure : Failure}
    (h : request.execute settings launch = .error failure) (output : String) :
    failure ≠ .missingFactorization output := by
  cases hc : request.command settings with
  | error refusal =>
    rw [execute_of_refused hc] at h
    cases h
    rintro rfl
    cases isUserError_of_command hc
  | ok command =>
    rw [execute_of_command hc] at h
    exact (Outcome.output_eq_error h).2 output

theorem Request.factor_of_error {failure : Failure}
    (h : request.execute settings launch = .error failure) :
    request.factor settings launch = .error failure := by
  rw [factor, h]
  rfl

theorem Request.factor_of_ok {transcript : String}
    (h : request.execute settings launch = .ok transcript) :
    request.factor settings launch =
      if (decode transcript).foundMarker then .ok (decode transcript)
      else .error (.missingFactorization transcript) := by
  rw [factor, h]
  rfl

theorem Request.factorPage_of_error {failure : Failure}
    (h : request.execute settings launch = .error failure) :
    request.factorPage settings launch =
      if failure.isUserError then .error failure else .ok (page failure.message true true) := by
  rw [factorPage, h]

theorem Request.factorPage_of_ok {transcript : String}
    (h : request.execute settings launch = .ok transcript) :
    request.factorPage settings launch =
      if (decode transcript).foundMarker then .ok (page transcript request.verbose false)
      else .ok (page transcript true true) := by
  rw [factorPage, h]

end Execute

end MonicFactor
