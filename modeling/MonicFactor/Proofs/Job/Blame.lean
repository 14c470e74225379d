import Mathlib.Data.List.TakeWhile
import MonicFactor.Proofs.Job.Ending

/-! Who is to blame when a job fails, and what its result can tell about the program. A request is
blamed only if nothing was started for it, and the two streams of a program are never mixed. -/

namespace MonicFactor

theorem trim_eq_nil_iff {cs : List Char} : trim cs = [] ↔ ∀ c ∈ cs, isBlank c = true := by
  rw [trim, trimEnd, List.reverse_eq_nil_iff, List.dropWhile_eq_nil_iff, trimStart]
  constructor
  · intro h
    cases hs : cs.dropWhile isBlank with
    | nil => exact List.dropWhile_eq_nil_iff.mp hs
    | cons c rest =>
      have hc : isBlank c = false := by
        simpa only [hs, List.head?_cons] using List.head?_dropWhile_not isBlank cs
      rw [hs] at h
      rw [h c (by simp)] at hc
      cases hc
  · intro h c hc
    exact h c ((List.dropWhile_suffix isBlank).subset (List.mem_reverse.mp hc))

theorem trimText_eq_empty_iff {text : String} : trimText text = "" ↔ isBlankText text = true := by
  rw [trimText, String.ofList_eq_empty_iff, trim_eq_nil_iff, isBlankText, List.all_eq_true]

section Output

variable {settings : Settings} {command : Command}

theorem Outcome.output_of_success (stdout stderr : Octets) :
    (ends (some 0) stdout stderr).output settings command = .ok (Utf8.decodeLossy stdout) := rfl

def diagnosis (stdout stderr : Octets) : String :=
  if isBlankText (Utf8.decodeLossy stderr) then Utf8.decodeLossy stdout
  else Utf8.decodeLossy stderr

theorem Outcome.output_of_failure {code : Option Int} (h : code ≠ some 0)
    (stdout stderr : Octets) :
    (ends code stdout stderr).output settings command =
      .error (.programFailed code (trimText (diagnosis stdout stderr))) := by
  rw [output, if_neg h]
  rfl

theorem diagnosis_of_shown {stderr : Octets}
    (h : ∃ c ∈ (Utf8.decodeLossy stderr).toList, isBlank c = false) (stdout : Octets) :
    diagnosis stdout stderr = Utf8.decodeLossy stderr := by
  obtain ⟨c, hc, hb⟩ := h
  refine if_neg fun ht => ?_
  have hall := List.all_eq_true.mp ht c hc
  rw [hb] at hall
  cases hall

theorem blank_of_trimText_diagnosis {stdout stderr : Octets}
    (h : trimText (diagnosis stdout stderr) = "") :
    isBlankText (Utf8.decodeLossy stdout) = true ∧
      isBlankText (Utf8.decodeLossy stderr) = true := by
  rw [trimText_eq_empty_iff, diagnosis] at h
  by_cases hb : isBlankText (Utf8.decodeLossy stderr) = true
  · rw [if_pos hb] at h
    exact ⟨h, hb⟩
  · rw [if_neg hb] at h
    exact absurd h hb

end Output

/-- No result of a job tells the two launches apart. -/
def Request.Alike (settings : Settings) (request : Request) (launch launch' : Launch) : Prop :=
  request.execute settings launch = request.execute settings launch' ∧
    request.factor settings launch = request.factor settings launch' ∧
    request.factorPage settings launch = request.factorPage settings launch'

section Request

variable {settings : Settings} {request : Request} {launch launch' : Launch}

/-- Factors and page are both made from the output alone. -/
theorem Request.alike_of_output_eq {command : Command}
    (hc : request.command settings = .ok command)
    (h : (launch command).output settings command = (launch' command).output settings command) :
    request.Alike settings launch launch' := by
  have he : request.execute settings launch = request.execute settings launch' := by
    rw [execute_of_command hc, execute_of_command hc, h]
  refine ⟨he, ?_, ?_⟩
  · rw [factor, factor, he]
  · rw [factorPage, factorPage, he]

theorem Request.factorPage_of_refused {failure : Failure}
    (h : request.command settings = .error failure) (launch : Launch) :
    request.factorPage settings launch = .error failure := by
  rw [factorPage_of_error (execute_of_refused h launch), isUserError_of_command h]
  rfl

theorem Request.not_isUserError_of_execute {command : Command} {failure : Failure}
    (hc : request.command settings = .ok command)
    (h : request.execute settings launch = .error failure) : failure.isUserError = false := by
  rw [execute_of_command hc] at h
  exact (Outcome.output_eq_error h).1

theorem Request.not_isUserError_of_factor {command : Command} {failure : Failure}
    (hc : request.command settings = .ok command)
    (h : request.factor settings launch = .error failure) : failure.isUserError = false := by
  cases he : request.execute settings launch with
  | error reason =>
    rw [factor_of_error he] at h
    exact Except.error.inj h ▸ not_isUserError_of_execute hc he
  | ok transcript =>
    rw [factor_of_ok he] at h
    split at h
    · cases h
    · rw [← Except.error.inj h]
      rfl

theorem Request.exists_factorPage {command : Command}
    (hc : request.command settings = .ok command) (launch : Launch) :
    ∃ text, request.factorPage settings launch = .ok text := by
  cases he : request.execute settings launch with
  | error reason =>
    rw [factorPage_of_error he, not_isUserError_of_execute hc he]
    exact ⟨_, rfl⟩
  | ok transcript =>
    rw [factorPage_of_ok he]
    split <;> exact ⟨_, rfl⟩

end Request

/-- A request that comes to no command is refused by the same failure in whatever way the program
would behave, and it is the user's. One that comes to a command is never blamed on the user, and
has a page. Then a program that ends well is judged by its output alone. One that does not has no
factors, whatever it printed; its output is not looked at if its error stream shows anything, and
its message is empty only if it left nothing to show in either stream. -/
theorem Request.blame_and_flow (settings : Settings) (request : Request) :
    (∀ failure, request.command settings = .error failure →
      failure.isUserError = true ∧
      ∀ launch, request.execute settings launch = .error failure ∧
        request.factor settings launch = .error failure ∧
        request.factorPage settings launch = .error failure) ∧
    ∀ command, request.command settings = .ok command →
      (∀ launch failure, request.execute settings launch = .error failure →
        failure.isUserError = false) ∧
      (∀ launch failure, request.factor settings launch = .error failure →
        failure.isUserError = false) ∧
      (∀ launch, ∃ text, request.factorPage settings launch = .ok text) ∧
      (∀ launch launch' stdout stderr stderr', launch command = .ends (some 0) stdout stderr →
        launch' command = .ends (some 0) stdout stderr' →
        request.Alike settings launch launch') ∧
      (∀ launch code stdout stderr, code ≠ some 0 → launch command = .ends code stdout stderr →
        (∀ decoded, request.factor settings launch ≠ .ok decoded) ∧
        ∃ message, request.execute settings launch = .error (.programFailed code message) ∧
          request.factor settings launch = .error (.programFailed code message) ∧
          (message = "" → isBlankText (Utf8.decodeLossy stdout) = true ∧
            isBlankText (Utf8.decodeLossy stderr) = true)) ∧
      ∀ launch launch' code stdout stdout' stderr, code ≠ some 0 →
        (∃ c ∈ (Utf8.decodeLossy stderr).toList, isBlank c = false) →
        launch command = .ends code stdout stderr → launch' command = .ends code stdout' stderr →
        request.Alike settings launch launch' := by
  constructor
  · intro failure h
    refine ⟨isUserError_of_command h, fun launch => ?_⟩
    have he := execute_of_refused h launch
    exact ⟨he, factor_of_error he, factorPage_of_refused h launch⟩
  · intro command hc
    refine ⟨?_, ?_, exists_factorPage hc, ?_, ?_, ?_⟩
    · intro launch failure h
      exact not_isUserError_of_execute hc h
    · intro launch failure h
      exact not_isUserError_of_factor hc h
    · intro launch launch' stdout stderr stderr' h h'
      apply alike_of_output_eq hc
      rw [h, h', Outcome.output_of_success, Outcome.output_of_success]
    · intro launch code stdout stderr hcode h
      have he := execute_of_command hc launch
      rw [h, Outcome.output_of_failure hcode] at he
      have hf := factor_of_error he
      refine ⟨fun decoded hd => ?_, _, he, hf, blank_of_trimText_diagnosis⟩
      rw [hf] at hd
      cases hd
    · intro launch launch' code stdout stdout' stderr hcode hs h h'
      apply alike_of_output_eq hc
      rw [h, h', Outcome.output_of_failure hcode, Outcome.output_of_failure hcode,
        diagnosis_of_shown hs, diagnosis_of_shown hs]

/-- A request that is refused; and one whose program prints a transcript but exits with 1, first
with a word in its error stream and then without, or exits well with a warning. -/
theorem Request.blame_and_flow_of_exit :
    let request : Request := ⟨"x^2-1", .default, false⟩
    let transcript := Utf8.encode "Factorization:\n(x-1)\nTime: 1".toList
    let word := Utf8.encode "no".toList
    let exits (code : Int) (stdout stderr : Octets) : Launch := fun _ =>
      .ends (some code) stdout stderr
    Request.factorPage .default (exits 0 transcript []) ⟨"x^2-y", .default, false⟩ =
      .error (.polynomial (.format (.unsupportedVariable 'y' 5))) ∧
    (∀ decoded, request.factor .default (exits 1 transcript word) ≠ .ok decoded) ∧
    request.Alike .default (exits 1 transcript word) (exits 1 [] word) ∧
    (∃ message, request.execute .default (exits 1 transcript []) =
      .error (.programFailed (some 1) message) ∧ message ≠ "") ∧
    request.Alike .default (exits 0 transcript word) (exits 0 transcript []) := by
  intro request transcript word exits
  have hrefused : Request.command .default ⟨"x^2-y", .default, false⟩ =
      .error (.polynomial (.format (.unsupportedVariable 'y' 5))) := by decide +kernel
  have hc : request.command .default = .ok ⟨"./bin/lll_factor",
      ["-1,0,1", "-d", "0.5", "-p", "64", "-t", "-v", "-newline", "-stop", "20"]⟩ := by
    decide +kernel
  obtain ⟨-, -, -, hsuccess, hfailure, hshown⟩ := (blame_and_flow .default request).2 _ hc
  have hcode : some (1 : Int) ≠ some 0 := by decide
  refine ⟨?_, ?_, ?_, ?_, ?_⟩
  · exact (((blame_and_flow .default _).1 _ hrefused).2 _).2.2
  · exact (hfailure (exits 1 transcript word) _ _ _ hcode rfl).1
  · exact hshown _ _ _ _ _ _ hcode ⟨'n', by decide +kernel, by decide⟩ rfl rfl
  · obtain ⟨-, message, he, -, hm⟩ := hfailure (exits 1 transcript []) _ _ _ hcode rfl
    refine ⟨message, he, fun h => ?_⟩
    have hblank : isBlankText (Utf8.decodeLossy transcript) = false := by decide +kernel
    rw [(hm h).1] at hblank
    cases hblank
  · exact hsuccess _ _ _ _ _ rfl rfl

end MonicFactor
