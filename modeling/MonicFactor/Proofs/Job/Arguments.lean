import MonicFactor.Proofs.Job.Ending
import MonicFactor.Proofs.Options.Range
import MonicFactor.Proofs.Polynomial.CoefficientList
import MonicFactor.Proofs.Polynomial.Coefficients

/-! What of a request reaches the command line of the program: numbers that were checked, and
nothing else. -/

namespace MonicFactor

theorem Request.command_eq_ok_iff {settings : Settings} {request : Request} {command : Command} :
    request.command settings = .ok command ↔
      ∃ p, Monic.read (some settings.maxDegree.toNat) request.polynomial = .ok p ∧
        32 ≤ request.options.precision.toNat ∧ InDeltaRange request.options.delta ∧
        command = ⟨settings.programPath request.options.algorithm,
          request.options.arguments p settings.stopDegree⟩ := by
  rcases request.command_cases settings with
    ⟨error, hp, hc⟩ | ⟨p, error, hp, hv, hc⟩ | ⟨p, hp, hv, hc⟩
  · simp [hp, hc]
  · have hn : ¬(32 ≤ request.options.precision.toNat ∧ InDeltaRange request.options.delta) := by
      rw [← Options.validate_eq_ok_iff, hv]
      exact nofun
    constructor
    · intro h
      cases hc.symm.trans h
    · rintro ⟨_, -, hprecision, hdelta, -⟩
      exact absurd ⟨hprecision, hdelta⟩ hn
  · obtain ⟨hprecision, hdelta⟩ := Options.validate_eq_ok_iff.mp hv
    rw [hc]
    constructor
    · intro h
      exact ⟨p, hp, hprecision, hdelta, (Except.ok.inj h).symm⟩
    · rintro ⟨_, hread, -, -, rfl⟩
      cases hp.symm.trans hread
      rfl

/-- The program is the one in the directory of the settings, whatever is asked for. Its arguments
are the coefficients as decimal numbers of the word, the leading one last, a delta between a
quarter and one, a precision of 32 or more, the stop degree of the settings, and fixed flags. And
every request whose numbers are in range comes to a command. -/
theorem Request.command_arguments (settings : Settings) (request : Request) :
    (∀ command, request.command settings = .ok command →
      command.program = joinPath settings.binDir "lll_factor" ∧
      ∃ (entries : List Int) (list : String),
        list = ",".intercalate (entries.map toString) ∧ IsNumberList list.toList ∧
        entries.length ≤ min settings.maxDegree.toNat 65536 + 1 ∧
        (∀ n ∈ entries, FitsWord n) ∧ entries.getLast? = some 1 ∧
        InDeltaRange request.options.delta ∧ 32 ≤ request.options.precision.toNat ∧
        command.arguments = [list, "-d", request.options.delta.text,
          "-p", toString request.options.precision.toNat, "-t", "-v", "-newline",
          "-stop", toString settings.stopDegree.toNat]) ∧
    ∀ p, Monic.read (some settings.maxDegree.toNat) request.polynomial = .ok p →
      32 ≤ request.options.precision.toNat → InDeltaRange request.options.delta →
      ∃ command, request.command settings = .ok command := by
  constructor
  · intro command h
    obtain ⟨p, hread, hprecision, hdelta, rfl⟩ := command_eq_ok_iff.mp h
    obtain ⟨terms, -, hterms⟩ := Monic.read_eq_ok_iff.mp hread
    refine ⟨?_, p.coefficients, p.csv, rfl, p.isNumberList_csv,
      Monic.length_coefficients_of_ofTerms hterms, fun n hn => Monic.fitsWord_of_ofTerms hterms hn,
      p.getLast?_coefficients, hdelta, hprecision, rfl⟩
    cases request.options.algorithm
    rfl
  · intro p hread hprecision hdelta
    exact ⟨_, command_eq_ok_iff.mpr ⟨p, hread, hprecision, hdelta, rfl⟩⟩

/-- The least coefficient, the least precision and the bound on the degree, with a delta of three
quarters; and a delta that is no number. -/
theorem Request.command_arguments_at_limits :
    let settings : Settings := ⟨"/opt", 3, 20, .ofSeconds 60⟩
    let delta : Double := .finite false ⟨1022 * blockSize + blockSize / 2, by decide⟩
    (∃ command, Request.command settings
        ⟨"X^3 -9223372036854775807 -1", ⟨.lll, 32, delta⟩, false⟩ = .ok command ∧
      command.program = "/opt/lll_factor" ∧
      ∃ list, IsNumberList list.toList ∧ command.arguments.head? = some list) ∧
    ∀ command, Request.command settings ⟨"x", ⟨.lll, 32, .nan⟩, false⟩ ≠ .ok command := by
  intro settings delta
  constructor
  · have hread : Monic.read (some 3) "X^3 -9223372036854775807 -1" =
        .ok ⟨[-9223372036854775808, 0, 0]⟩ := by decide +kernel
    have hdelta : InDeltaRange delta := ⟨_, rfl, by decide +kernel, by decide +kernel⟩
    let request : Request := ⟨"X^3 -9223372036854775807 -1", ⟨.lll, 32, delta⟩, false⟩
    obtain ⟨command, hc⟩ :=
      (command_arguments settings request).2 _ hread (show 32 ≤ 32 by decide) hdelta
    obtain ⟨hprogram, entries, list, -, hlist, -, -, -, -, -, harguments⟩ :=
      (command_arguments settings request).1 command hc
    exact ⟨command, hc, hprogram.trans (by decide +kernel), list, hlist, by rw [harguments]; rfl⟩
  · intro command hc
    obtain ⟨-, -, -, -, -, -, -, -, hdelta, -, -⟩ := (command_arguments settings _).1 command hc
    obtain ⟨m, hm, -⟩ := hdelta
    cases hm

end MonicFactor
