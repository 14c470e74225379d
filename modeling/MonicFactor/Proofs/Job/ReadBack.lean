import MonicFactor.Proofs.Double.ReadBack
import MonicFactor.Proofs.Job.Arguments

/-! What the arguments of a command say of its request. Coefficients, precision and delta are read
back from them, so requests that differ in one of these come to different arguments. -/

namespace MonicFactor

theorem toString_uint32_injective {n n' : UInt32} (h : toString n = toString n') : n = n' := by
  have hint : toString (n.toNat : Int) = toString (n'.toNat : Int) := h
  have hnat : n.toNat = n'.toNat := Int.ofNat.inj (toString_injective hint)
  exact UInt32.toNat_inj.mp hnat

theorem Options.arguments_injective {options options' : Options} {p q : Monic}
    {stopDegree stopDegree' : UInt64}
    (h : options.arguments p stopDegree = options'.arguments q stopDegree') :
    p = q ∧ options.precision = options'.precision ∧ options.delta = options'.delta := by
  simp only [arguments, List.cons.injEq] at h
  obtain ⟨hcsv, -, hdelta, -, hprecision, -⟩ := h
  exact ⟨Monic.csv_injective hcsv, toString_uint32_injective hprecision,
    Double.text_injective hdelta⟩

/-- Cut at its commas, the first argument gives the coefficients of every polynomial that can be
read, one piece for each; no two polynomials share it. Requests that come to the same arguments
ask for the same polynomial, the same precision and the same delta. -/
theorem Request.command_arguments_injective (settings : Settings) :
    (∀ bound expression p, Monic.read bound expression = .ok p →
      (p.csv.toList.splitOn ',').length = p.degree + 1 ∧
      (∀ piece ∈ p.csv.toList.splitOn ',', piece ≠ []) ∧
      (p.csv.toList.splitOn ',').map (readInteger 0x8000000000000000 0x7FFFFFFFFFFFFFFF) =
        p.coefficients.map .ok) ∧
    (∀ p q : Monic, p.csv = q.csv → p = q) ∧
    ∀ (request request' : Request) (command command' : Command),
      request.command settings = .ok command → request'.command settings = .ok command' →
      command.arguments = command'.arguments →
      (∃ p, Monic.read (some settings.maxDegree.toNat) request.polynomial = .ok p ∧
        Monic.read (some settings.maxDegree.toNat) request'.polynomial = .ok p) ∧
      request.options.precision = request'.options.precision ∧
      request.options.delta = request'.options.delta := by
  refine ⟨?_, fun _ _ => Monic.csv_injective, ?_⟩
  · intro bound expression p hread
    obtain ⟨terms, -, hterms⟩ := Monic.read_eq_ok_iff.mp hread
    refine ⟨?_, ?_, Monic.readInteger_of_ofTerms hterms⟩
    · rw [p.splitOn_csv, List.length_map, Monic.coefficients, List.length_append]
      rfl
    · intro piece hp
      rw [p.splitOn_csv] at hp
      obtain ⟨n, -, rfl⟩ := List.mem_map.mp hp
      exact (isNumber_toString n).ne_nil
  · intro request request' command command' hc hc' harguments
    obtain ⟨p, hread, -, -, rfl⟩ := command_eq_ok_iff.mp hc
    obtain ⟨q, hread', -, -, rfl⟩ := command_eq_ok_iff.mp hc'
    obtain ⟨rfl, hprecision, hdelta⟩ := Options.arguments_injective harguments
    exact ⟨⟨p, hread, hread'⟩, hprecision, hdelta⟩

/-- A polynomial with both ends of the word among its coefficients, the least one only a sum, and
asked for in two ways. -/
theorem Request.command_arguments_injective_at_limits :
    let settings : Settings := ⟨"/opt", 3, 20, .ofSeconds 60⟩
    let options : Options := ⟨.lll, 32, defaultDelta⟩
    let request : Request := ⟨"X^3 + 9223372036854775807x -9223372036854775807 -1", options, false⟩
    let request' : Request := ⟨"-1 -9223372036854775807 +9223372036854775807*x +x^3", options, true⟩
    ("-9223372036854775808,9223372036854775807,0,1".toList.splitOn ',').map
        (readInteger 0x8000000000000000 0x7FFFFFFFFFFFFFFF) =
      [.ok (-9223372036854775808), .ok 9223372036854775807, .ok 0, .ok 1] ∧
    ∃ command command', request.command settings = .ok command ∧
      request'.command settings = .ok command' ∧ command.arguments = command'.arguments ∧
      ∃ p, Monic.read (some settings.maxDegree.toNat) request.polynomial = .ok p ∧
        Monic.read (some settings.maxDegree.toNat) request'.polynomial = .ok p := by
  intro settings options request request'
  let p : Monic := ⟨[-9223372036854775808, 9223372036854775807, 0]⟩
  have hread : Monic.read (some 3) request.polynomial = .ok p := by decide +kernel
  have hread' : Monic.read (some 3) request'.polynomial = .ok p := by decide +kernel
  have hdelta : InDeltaRange options.delta := inDeltaRange_iff.mpr (by decide +kernel)
  let command : Command :=
    ⟨settings.programPath options.algorithm, options.arguments p settings.stopDegree⟩
  have hc : request.command settings = .ok command :=
    command_eq_ok_iff.mpr ⟨p, hread, Nat.le_refl 32, hdelta, rfl⟩
  have hc' : request'.command settings = .ok command :=
    command_eq_ok_iff.mpr ⟨p, hread', Nat.le_refl 32, hdelta, rfl⟩
  obtain ⟨hpieces, -, hrequests⟩ := command_arguments_injective settings
  have hcsv : p.csv = "-9223372036854775808,9223372036854775807,0,1" := by decide +kernel
  have hp := (hpieces _ _ p hread).2.2
  rw [hcsv] at hp
  exact ⟨hp, _, _, hc, hc', rfl, (hrequests request request' _ _ hc hc' rfl).1⟩

end MonicFactor
