import Mathlib.Tactic.Common
import MonicFactor.Proofs.Job.Ending
import MonicFactor.Proofs.Page.Injection

/-! The page of a job shows what the job came to: it is determined by the factors or the failure
that the job has without a page, and it carries the banner exactly if that is a failure. -/

namespace MonicFactor

theorem occurrences_pos_of_infix {pattern text : List Char} (h : pattern <:+: text) :
    0 < occurrences pattern text := by
  obtain ⟨before, after, rfl⟩ := h
  rw [List.append_assoc]
  exact occurrences_pos (List.prefix_append _ _) before

theorem failureBanner_infix_page (transcript : String) (verbose failed : Bool) :
    failureBanner <:+: (page transcript verbose failed).toList ↔ failed = true := by
  constructor
  · intro h
    have hpos := occurrences_pos_of_infix h
    rw [occurrences_failureBanner] at hpos
    cases failed with
    | false => exact absurd hpos (Nat.lt_irrefl 0)
    | true => rfl
  · rintro rfl
    rw [page_eq_append, List.append_assoc]
    exact List.infix_append _ _ _

/-- The page for what a job came to. Output without factors is shown as it stands, any other
failure of the program by its message, and a request that was refused has no page. -/
def showResult (verbose : Bool) : Except Failure Decoded → Except Failure String
  | .ok decoded => .ok (page decoded.transcript verbose false)
  | .error (.missingFactorization output) => .ok (page output true true)
  | .error failure =>
    if failure.isUserError then .error failure else .ok (page failure.message true true)

theorem showResult_error {failure : Failure}
    (h : ∀ output, failure ≠ .missingFactorization output) (verbose : Bool) :
    showResult verbose (.error failure) =
      if failure.isUserError then .error failure else .ok (page failure.message true true) := by
  cases failure with
  | missingFactorization output => exact absurd rfl (h output)
  | _ => rfl

theorem Request.factorPage_eq_showResult (settings : Settings) (launch : Launch)
    (request : Request) :
    request.factorPage settings launch =
      showResult request.verbose (request.factor settings launch) := by
  cases he : request.execute settings launch with
  | ok transcript =>
    rw [factorPage_of_ok he, factor_of_ok he]
    by_cases hm : (decode transcript).foundMarker = true
    · rw [if_pos hm, if_pos hm]
      rfl
    · rw [if_neg hm, if_neg hm]
      rfl
  | error failure =>
    rw [factorPage_of_error he, factor_of_error he,
      showResult_error (ne_missingFactorization_of_execute he)]

theorem failureBanner_infix_showResult {verbose : Bool} {result : Except Failure Decoded}
    {text : String} (h : showResult verbose result = .ok text) :
    failureBanner <:+: text.toList ↔ ∃ failure, result = .error failure := by
  cases result with
  | ok decoded =>
    rw [← Except.ok.inj h, failureBanner_infix_page]
    simp
  | error failure =>
    have hpage : ∃ shown, text = page shown true true := by
      by_cases hm : ∃ output, failure = .missingFactorization output
      · obtain ⟨output, rfl⟩ := hm
        exact ⟨output, (Except.ok.inj h).symm⟩
      · rw [showResult_error fun output ho => hm ⟨output, ho⟩] at h
        split at h
        · cases h
        · exact ⟨_, (Except.ok.inj h).symm⟩
    obtain ⟨shown, rfl⟩ := hpage
    simp [failureBanner_infix_page]

/-- However the program behaves, a job has the same outcome with a page and without. The page
of a success shows its transcript, that of missing factors the output, that of any other failure
of the program its message; a request that was refused has no page but the same failure. The
banner tells which it was, and no output can forge it. -/
theorem Request.factorPage_agrees (settings : Settings) (launch : Launch) (request : Request) :
    (∀ decoded, request.factor settings launch = .ok decoded →
      request.factorPage settings launch =
        .ok (page decoded.transcript request.verbose false)) ∧
    (∀ output, request.factor settings launch = .error (.missingFactorization output) →
      request.factorPage settings launch = .ok (page output true true)) ∧
    (∀ failure, request.factor settings launch = .error failure → failure.isUserError = true →
      request.factorPage settings launch = .error failure) ∧
    (∀ failure, request.factor settings launch = .error failure → failure.isUserError = false →
      (∀ output, failure ≠ .missingFactorization output) →
      request.factorPage settings launch = .ok (page failure.message true true)) ∧
    ∀ text, request.factorPage settings launch = .ok text →
      (failureBanner <:+: text.toList ↔
        ∃ failure, request.factor settings launch = .error failure) := by
  rw [factorPage_eq_showResult]
  refine ⟨?_, ?_, ?_, ?_, fun text h => failureBanner_infix_showResult h⟩
  · intro decoded h
    rw [h]
    rfl
  · intro output h
    rw [h]
    rfl
  · intro failure h hu
    have hm : ∀ output, failure ≠ .missingFactorization output := by
      rintro output rfl
      cases hu
    rw [h, showResult_error hm, if_pos hu]
  · intro failure h hu hm
    rw [h, showResult_error hm, hu]
    rfl

/-- A program that prints the banner as its only factor, one that prints it in place of factors,
and one that is not waited for; and a request that is refused. -/
theorem Request.factorPage_agrees_on_forgery :
    let request : Request := ⟨"x^2-1", .default, true⟩
    let prints (transcript : String) : Launch := fun _ =>
      .ends (some 0) (Utf8.encode transcript.toList) []
    let forged := "Factorization:\n<h2> Factorization failed: </h2>\nTime: 1"
    let bare := "<h2> Factorization failed: </h2>"
    (request.factorPage .default (prints forged) = .ok (page forged true false) ∧
      ¬failureBanner <:+: (page forged true false).toList) ∧
    (request.factorPage .default (prints bare) = .ok (page bare true true) ∧
      failureBanner <:+: (page bare true true).toList) ∧
    request.factorPage .default (fun _ => .outlives) =
      .ok (page "Factorization timed out after 60s" true true) ∧
    Request.factorPage .default (prints forged) ⟨"x^", .default, false⟩ =
      .error (.polynomial (.format (.missingExponent 2))) := by
  intro request prints forged bare
  have hforged : request.factor .default (prints forged) =
      .ok ⟨["<h2> Factorization failed: </h2>"], "1", forged⟩ := by decide +kernel
  have hbare : request.factor .default (prints bare) = .error (.missingFactorization bare) := by
    decide +kernel
  have hforged' := (factorPage_agrees .default (prints forged) request).1 _ hforged
  have hbare' := (factorPage_agrees .default (prints bare) request).2.1 _ hbare
  refine ⟨⟨hforged', ?_⟩, ⟨hbare', ?_⟩, ?_, ?_⟩
  · rw [(factorPage_agrees .default (prints forged) request).2.2.2.2 _ hforged', hforged]
    simp
  · rw [(factorPage_agrees .default (prints bare) request).2.2.2.2 _ hbare']
    exact ⟨_, hbare⟩
  · exact (factorPage_agrees .default (fun _ => .outlives) request).2.2.2.1
      (.timedOut (.ofSeconds 60)) (by decide +kernel) rfl nofun
  · exact (factorPage_agrees .default (prints forged) ⟨"x^", .default, false⟩).2.2.1
      (.polynomial (.format (.missingExponent 2))) (by decide +kernel) rfl

end MonicFactor
