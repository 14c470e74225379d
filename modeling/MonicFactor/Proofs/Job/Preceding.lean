import Mathlib.Tactic.Common
import MonicFactor.Proofs.Job.Ending
import MonicFactor.Proofs.Text.Encoded
import MonicFactor.Proofs.Transcript.Listing

/-! What a program writes in front of its last list of factors changes neither the factors nor the
page that shows them alone. -/

namespace MonicFactor

theorem page_eq_of_factors_eq {transcript transcript' : String}
    (h : (decode transcript).factors = (decode transcript').factors) (failed : Bool) :
    page transcript false failed = page transcript' false failed := by
  simp only [page, h]
  rfl

section Request

variable {settings : Settings} {request : Request} {command : Command} {launch : Launch}

theorem Request.execute_of_success (hc : request.command settings = .ok command)
    {stdout stderr : Octets} (hl : launch command = .ends (some 0) stdout stderr) :
    request.execute settings launch = .ok (Utf8.decodeLossy stdout) := by
  rw [execute_of_command hc, hl]
  rfl

theorem Request.factor_of_marker {transcript : String}
    (he : request.execute settings launch = .ok transcript)
    (hm : marker <:+: transcript.toList) :
    request.factor settings launch = .ok (decode transcript) := by
  rw [factor_of_ok he, if_pos (foundMarker_iff.mpr hm)]

theorem Request.factorPage_of_marker {transcript : String}
    (he : request.execute settings launch = .ok transcript)
    (hm : marker <:+: transcript.toList) :
    request.factorPage settings launch = .ok (page transcript request.verbose false) := by
  rw [factorPage_of_ok he, if_pos (foundMarker_iff.mpr hm)]

/-- Any octets may stand in front, malformed ones that end inside a character and further markers
among them. -/
theorem Request.factor_of_preceded (hc : request.command settings = .ok command) {text : String}
    (hm : marker <:+: text.toList) (before : Octets) {stderr stderr' : Octets} {launch' : Launch}
    (hl : launch command = .ends (some 0) (before ++ Utf8.encode text.toList) stderr)
    (hl' : launch' command = .ends (some 0) (Utf8.encode text.toList) stderr') :
    (∃ decoded, request.factor settings launch = .ok decoded ∧
      decoded.factors = (decode text).factors ∧ decoded.elapsed = (decode text).elapsed) ∧
    (request.verbose = false → ∃ html, request.factorPage settings launch = .ok html ∧
      request.factorPage settings launch' = .ok html) := by
  obtain ⟨front, hfront⟩ := Utf8.exists_decodeLossy_append before text
  have he := execute_of_success hc hl
  have he' := execute_of_success hc hl'
  rw [hfront] at he
  rw [Utf8.decodeLossy_encode] at he'
  have hm' : marker <:+: (front ++ text).toList := by
    rw [String.toList_append]
    exact List.infix_append_of_infix_right hm
  obtain ⟨hfactors, helapsed⟩ := decode_append_of_marker hm front
  refine ⟨⟨_, factor_of_marker he hm', hfactors, helapsed⟩, fun hv => ?_⟩
  have hpage := factorPage_of_marker he' hm
  rw [hv] at hpage
  refine ⟨_, ?_, hpage⟩
  rw [factorPage_of_marker he hm', hv, page_eq_of_factors_eq hfactors]

end Request

/-- In front stand a marker, half of another, and the first two octets of a character. -/
theorem Request.factor_of_preceded_by_half :
    let request : Request := ⟨"x^2-1", .default, false⟩
    let text := "Factorization:\n(x-1)\n(x+1)\nTime: 1"
    let before := Utf8.encode "Factorization:\nx\nFactor".toList ++ [0xE2, 0x82]
    let prints (stdout : Octets) : Launch := fun _ => .ends (some 0) stdout []
    (∃ decoded, request.factor .default (prints (before ++ Utf8.encode text.toList)) = .ok decoded ∧
      decoded.factors = ["(x-1)", "(x+1)"] ∧ decoded.elapsed = "1") ∧
    ∃ html, request.factorPage .default (prints (before ++ Utf8.encode text.toList)) = .ok html ∧
      request.factorPage .default (prints (Utf8.encode text.toList)) = .ok html := by
  intro request text before prints
  have hc : request.command .default = .ok ⟨"./bin/lll_factor",
      ["-1,0,1", "-d", "0.5", "-p", "64", "-t", "-v", "-newline", "-stop", "20"]⟩ := by
    decide +kernel
  have hm : marker <:+: text.toList := ⟨[], "\n(x-1)\n(x+1)\nTime: 1".toList, by decide⟩
  have hd : decode text = ⟨["(x-1)", "(x+1)"], "1", text⟩ := by decide +kernel
  have hl (stdout : Octets) (command : Command) :
      prints stdout command = .ends (some 0) stdout [] := rfl
  have hh := factor_of_preceded hc hm before (hl (before ++ Utf8.encode text.toList) _)
    (hl (Utf8.encode text.toList) _)
  rw [hd] at hh
  exact ⟨hh.1, hh.2 rfl⟩

end MonicFactor
