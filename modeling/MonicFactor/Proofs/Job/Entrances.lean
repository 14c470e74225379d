import Mathlib.Tactic.Common
import MonicFactor.Proofs.Job.Ending
import MonicFactor.Proofs.Options.Range
import MonicFactor.Proofs.Options.Readings

/-! The two entrances of a job, flags and a JSON body. They accept the same jobs and build the same
request, but the numbers in flags are only checked behind the polynomial. -/

namespace MonicFactor

theorem exists_of_bind_eq_ok {ε α β : Type} {x : Except ε α} {f : α → Except ε β} {b : β}
    (h : x >>= f = .ok b) : ∃ a, x = .ok a ∧ f a = .ok b := by
  cases x with
  | error e => cases h
  | ok a => exact ⟨a, rfl, h⟩

theorem eq_ok_of_mapError_eq_ok {ε ε' α : Type} {x : Except ε α} {f : ε → ε'} {a : α}
    (h : x.mapError f = .ok a) : x = .ok a := by
  cases x with
  | error e => cases h
  | ok b => exact congrArg Except.ok (Except.ok.inj h)

/-- A field is left out, or holds a number that reads as the value that is given. -/
def Json.Gives {α : Type} (object : Json) (field : String) (read : JsonNumber → Option α) :
    Option α → Prop
  | none => object.get? field = none
  | some a => ∃ n, object.get? field = some (.number n) ∧ read n = some a

/-- A body that asks for what is given by flags. -/
structure Json.AsksFor (body : Json) (polynomial : String) (precision : Option UInt32)
    (delta : Option Double) (verbose : Bool) : Prop where
  polynomial : body.get? "poly" = some (.string polynomial)
  verbose : body.get? "verbose" = some (.bool verbose)
  options : ∃ members, body.get? "opts" = some (.object members) ∧
    (object members).get? "alg" = none ∧
    (object members).Gives "precision" JsonNumber.toUInt32? precision ∧
    (object members).Gives "delta" (fun n => some n.toDouble) delta

/-- The numbers themselves as the options. -/
def Json.ofFlags (polynomial : String) (precision : Option UInt32)
    (delta : Option (Bool × Magnitude)) (verbose : Bool) : Json :=
  let delta := delta.map fun d => ("delta", number (.double d.1 d.2))
  let precision := precision.map fun n => ("precision", number (.integer n.toNat))
  .object [("opts", .object (delta.toList ++ precision.toList)), ("poly", .string polynomial),
    ("verbose", .bool verbose)]

theorem Json.asksFor_ofFlags (polynomial : String) (precision : Option UInt32)
    (delta : Option (Bool × Magnitude)) (verbose : Bool) :
    (ofFlags polynomial precision delta verbose).AsksFor polynomial precision
      (delta.map fun d => .finite d.1 d.2) verbose := by
  refine ⟨rfl, rfl, _, rfl, ?_⟩
  cases delta with
  | none =>
    cases precision with
    | none => exact ⟨rfl, rfl, rfl⟩
    | some n => exact ⟨rfl, ⟨_, rfl, JsonNumber.toUInt32?_integer n⟩, rfl⟩
  | some d =>
    cases precision with
    | none => exact ⟨rfl, rfl, _, rfl, rfl⟩
    | some n => exact ⟨rfl, ⟨_, rfl, JsonNumber.toUInt32?_integer n⟩, _, rfl, rfl⟩

section Options

variable {α : Type} {object : Json} {field : String} {ofNumber : JsonNumber → Option α}
  {given : Option α}

theorem readField_of_gives (h : object.Gives field ofNumber given) (default : α)
    (ofText : String → Option α) :
    readField object field default ofText ofNumber = .ok (given.getD default) := by
  cases given with
  | none =>
    have hf : object.get? field = none := h
    simp only [readField, hf]
    rfl
  | some a =>
    obtain ⟨n, hf, hn⟩ := h
    simp only [readField, hf, hn]
    rfl

theorem Options.ofJson_of_gives {members : List (String × Json)} {precision : Option UInt32}
    {delta : Option Double} (ha : (Json.object members).get? "alg" = none)
    (hp : (Json.object members).Gives "precision" JsonNumber.toUInt32? precision)
    (hd : (Json.object members).Gives "delta" (fun n => some n.toDouble) delta) :
    let default := Algorithm.default.options
    let options : Options :=
      ⟨.default, precision.getD default.precision, delta.getD default.delta⟩
    ofJson (.object members) = options.validate.map fun _ => options := by
  intro default options
  have halg : readAlgorithm (.object members) = .ok .default := by
    simp only [readAlgorithm, ha]
  simp only [ofJson, halg, readField_of_gives hp, readField_of_gives hd, bind, Except.bind]
  -- on both sides all that is left is to look at the ranges
  show options.validate.bind (fun _ => .ok options) = options.validate.map fun _ => options
  cases options.validate with
  | error error => rfl
  | ok _ => rfl

theorem exists_defaultDelta :
    ∃ m : Magnitude, defaultDelta = .finite false m ∧ 2 * m.units = unitsPerOne :=
  ⟨⟨1022 * blockSize, by decide⟩, by decide +kernel, by decide +kernel⟩

theorem Options.validate_default : default.validate = .ok () := by
  obtain ⟨m, hm, hhalf⟩ := exists_defaultDelta
  have hone : 0 < unitsPerOne := by decide +kernel
  have hdelta : InDeltaRange defaultDelta := ⟨m, hm, by omega, by omega⟩
  simp only [validate_eq_ok_iff, default, Algorithm.options]
  exact ⟨by decide, hdelta⟩

theorem Options.validate_of_ofJson {value : Json} {options : Options}
    (h : ofJson value = .ok options) : options.validate = .ok () := by
  cases value with
  | object members =>
    obtain ⟨algorithm, -, h⟩ := exists_of_bind_eq_ok h
    obtain ⟨precision, -, h⟩ := exists_of_bind_eq_ok h
    obtain ⟨delta, -, h⟩ := exists_of_bind_eq_ok h
    obtain ⟨_, hv, h⟩ := exists_of_bind_eq_ok h
    rw [← Except.ok.inj h]
    exact hv
  | _ => cases h

end Options

section Request

variable {settings : Settings} {request : Request} {body : String} {value : Json}

theorem validate_of_readOptions {options : Options} (h : readOptions value = .ok options) :
    options.validate = .ok () := by
  unfold readOptions at h
  split at h
  · rw [← Except.ok.inj h]
    exact Options.validate_default
  · rw [← Except.ok.inj h]
    exact Options.validate_default
  · exact Options.validate_of_ofJson (eq_ok_of_mapError_eq_ok h)

theorem Request.validate_of_read (h : read body = .ok request) :
    request.options.validate = .ok () := by
  obtain ⟨value, -, h⟩ := exists_of_bind_eq_ok h
  obtain ⟨polynomial, -, h⟩ := exists_of_bind_eq_ok h
  obtain ⟨options, ho, h⟩ := exists_of_bind_eq_ok h
  obtain ⟨verbose, -, h⟩ := exists_of_bind_eq_ok h
  rw [← Except.ok.inj h]
  exact validate_of_readOptions ho

theorem Request.command_ne_options (h : read body = .ok request) (error : OptionsError) :
    request.command settings ≠ .error (.options error) := by
  intro hc
  rcases request.command_cases settings with
    ⟨reason, -, he⟩ | ⟨p, reason, -, hv, -⟩ | ⟨p, -, -, he⟩
  · cases he.symm.trans hc
  · cases hv.symm.trans (validate_of_read h)
  · cases he.symm.trans hc

variable {polynomial : String} {precision : Option UInt32} {delta : Option Double} {verbose : Bool}

theorem Request.ofJson_of_asksFor (h : value.AsksFor polynomial precision delta verbose) :
    let flags := ofFlags polynomial .default precision delta verbose
    ofJson value = (flags.options.validate.map fun _ => flags).mapError .options := by
  intro flags
  obtain ⟨members, ho, ha, hp, hd⟩ := h.options
  have hoptions : readOptions value =
      (flags.options.validate.map fun _ => flags.options).mapError .options := by
    simp only [readOptions, ho]
    exact congrArg _ (Options.ofJson_of_gives ha hp hd)
  have hpolynomial : readPolynomial value = .ok polynomial := by
    simp only [readPolynomial, h.polynomial]
  have hverbose : readVerbose value = .ok verbose := by
    simp only [readVerbose, h.verbose]
  -- the flag is read last, so a refusal of the options comes first
  simp only [ofJson, hpolynomial, hoptions, hverbose, bind, Except.bind]
  cases flags.options.validate with
  | error error => rfl
  | ok _ => rfl

theorem Request.read_of_asksFor (hr : Json.read body = .ok value)
    (ha : value.AsksFor polynomial precision delta verbose) :
    let flags := ofFlags polynomial .default precision delta verbose
    read body = (flags.options.validate.map fun _ => flags).mapError .options := by
  have hbody : read body = ofJson value := by
    rw [read, hr]
    rfl
  rw [hbody]
  exact ofJson_of_asksFor ha

theorem Request.command_of_invalid (settings : Settings) (request : Request)
    {error : OptionsError} (hv : request.options.validate = .error error) :
    (∀ p, Monic.read (some settings.maxDegree.toNat) request.polynomial = .ok p →
      request.command settings = .error (.options error)) ∧
    ∀ reason, Monic.read (some settings.maxDegree.toNat) request.polynomial = .error reason →
      request.command settings = .error (.polynomial reason) := by
  rcases request.command_cases settings with
    ⟨reason, hp, hc⟩ | ⟨p, error', hp, hv', hc⟩ | ⟨p, -, hok, -⟩
  · rw [hp, hc]
    refine ⟨nofun, fun reason' h => ?_⟩
    rw [Except.error.inj h]
  · have he : error' = error := Except.error.inj (hv'.symm.trans hv)
    rw [hp, hc, he]
    exact ⟨fun _ _ => rfl, nofun⟩
  · cases hok.symm.trans hv

end Request

/-- A body is read as the request of the flags it stands for if the numbers are in range. If not,
it is refused for its options, and the flags come to no command for the same reason, or for their
polynomial if that cannot be read. No request that was read from a body is refused for its
options. -/
theorem Request.entrances_agree (settings : Settings) :
    (∀ polynomial precision delta verbose body value, Json.read body = .ok value →
      value.AsksFor polynomial precision delta verbose →
      let flags := ofFlags polynomial .default precision delta verbose
      (32 ≤ flags.options.precision.toNat ∧ InDeltaRange flags.options.delta →
        read body = .ok flags) ∧
      (¬(32 ≤ flags.options.precision.toNat ∧ InDeltaRange flags.options.delta) →
        ∃ error, read body = .error (.options error) ∧
          (∀ p, Monic.read (some settings.maxDegree.toNat) polynomial = .ok p →
            flags.command settings = .error (.options error)) ∧
          ∀ reason, Monic.read (some settings.maxDegree.toNat) polynomial = .error reason →
            flags.command settings = .error (.polynomial reason))) ∧
    ∀ body request, read body = .ok request →
      ∀ error, request.command settings ≠ .error (.options error) := by
  constructor
  · intro polynomial precision delta verbose body value hr ha flags
    have hread : read body = (flags.options.validate.map fun _ => flags).mapError .options :=
      read_of_asksFor hr ha
    rw [← Options.validate_eq_ok_iff]
    cases hv : flags.options.validate with
    | ok _ =>
      rw [hv] at hread
      exact ⟨fun _ => hread, fun hn => absurd rfl hn⟩
    | error error =>
      rw [hv] at hread
      exact ⟨nofun, fun _ => ⟨error, hread, command_of_invalid settings flags hv⟩⟩
  · intro body request h error
    exact command_ne_options h error

/-- Both numbers are given and in range; and a delta of one, with a polynomial that is none. -/
theorem Request.entrances_agree_at_limit :
    let delta : Magnitude := ⟨1022 * blockSize + blockSize / 2, by decide⟩
    let options : Options := ⟨.lll, 32, .finite false delta⟩
    let within := "\x7b\"opts\":\x7b\"precision\":32,\"delta\":0.75\x7d," ++
      "\"poly\":\"x\",\"verbose\":true\x7d"
    let beyond := "\x7b\"opts\":\x7b\"delta\":1\x7d,\"poly\":\"x^2-y\",\"verbose\":false\x7d"
    read within = .ok ⟨"x", options, true⟩ ∧
    (∀ error, Request.command .default ⟨"x", options, true⟩ ≠ .error (.options error)) ∧
    (∃ error, read beyond = .error (.options error)) ∧
    Request.command .default (ofFlags "x^2-y" .default none (some (.ofInt 1)) false) =
      .error (.polynomial (.format (.unsupportedVariable 'y' 5))) := by
  intro delta options within beyond
  let flags := ofFlags "x^2-y" .default none (some (.ofInt 1)) false
  have hdelta : InDeltaRange options.delta := ⟨_, rfl, by decide +kernel, by decide +kernel⟩
  have hone : ¬InDeltaRange flags.options.delta := by
    rw [inDeltaRange_iff]
    decide +kernel
  have hwithin : Json.read within =
      .ok (.ofFlags "x" (some 32) (some (false, ⟨1022 * blockSize + blockSize / 2, by decide⟩))
        true) := by
    decide +kernel
  have hbeyond : Json.read beyond = .ok (.object [("opts", .object
      [("delta", .number (.integer 1))]), ("poly", .string "x^2-y"),
      ("verbose", .bool false)]) := by
    decide +kernel
  have hp : Monic.read (some 300) "x^2-y" = .error (.format (.unsupportedVariable 'y' 5)) := by
    decide +kernel
  obtain ⟨hagree, hnever⟩ := entrances_agree .default
  have hread := (hagree _ _ _ _ _ _ hwithin (Json.asksFor_ofFlags _ _ _ _)).1
    ⟨by decide, hdelta⟩
  obtain ⟨error, herror, -, hreason⟩ := (hagree "x^2-y" none (some (.ofInt 1)) false _ _ hbeyond
    ⟨rfl, rfl, _, rfl, rfl, rfl, _, rfl, rfl⟩).2 fun h => hone h.2
  exact ⟨hread, hnever _ _ hread, ⟨error, herror⟩, hreason _ hp⟩

end MonicFactor
