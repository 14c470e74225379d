import MonicFactor.Json.Value
import MonicFactor.Polynomial.Monic

/-! How a polynomial is factored: the algorithm and its options, their ranges, and options as the
fields of a JSON object. A form submits every field as a string, so numbers may be given as strings
too. -/

namespace MonicFactor

inductive Algorithm
  | lll
deriving DecidableEq, Repr

inductive OptionsError
  | unknownAlgorithm (name : String)
  | precisionTooLow (precision : UInt32)
  | deltaOutOfRange (delta : Double)
  | invalidField (field value : String)
  | notAnObject
deriving DecidableEq, Repr

def Algorithm.all : List Algorithm := [.lll]

def Algorithm.default : Algorithm := .lll

def Algorithm.name : Algorithm → String
  | .lll => "LLL"

def Algorithm.program : Algorithm → String
  | .lll => "lll_factor"

/-- Names are known in capitals or not, and with blanks around them. -/
def Algorithm.ofText (text : String) : Except OptionsError Algorithm :=
  let lower (cs : List Char) := cs.map Char.toLower
  match all.find? fun algorithm => lower algorithm.name.toList = lower (trim text.toList) with
  | some algorithm => .ok algorithm
  | none => .error (.unknownAlgorithm text)

/-- A working precision in bits, and how far a lattice basis has to be reduced. -/
structure Options where
  algorithm : Algorithm
  precision : UInt32
  delta : Double
deriving DecidableEq, Repr

def leastPrecision : UInt32 := 32

def deltaFloor : Double := .ofMagnitude? false (Magnitude.ofRatio? 1 4)

def deltaCeiling : Double := .ofInt 1

def defaultDelta : Double := .ofMagnitude? false (Magnitude.ofRatio? 1 2)

def OptionsError.message : OptionsError → String
  | .unknownAlgorithm name => s!"Unrecognized algorithm {name}"
  | .precisionTooLow precision =>
    s!"Must have at least {leastPrecision} bits of precision, got {precision}"
  | .deltaOutOfRange delta => s!"delta parameter must be in (0.25,1), got {delta.text}"
  | .invalidField field value => s!"Invalid value {value} for option '{field}'"
  | .notAnObject => "Options must be a JSON object"

def Algorithm.options (algorithm : Algorithm) : Options := ⟨algorithm, 64, defaultDelta⟩

def Options.default : Options := Algorithm.default.options

/-- What is no number is out of range too. -/
def Options.validate (options : Options) : Except OptionsError Unit :=
  if options.precision < leastPrecision then .error (.precisionTooLow options.precision)
  else if deltaFloor.lt options.delta && options.delta.lt deltaCeiling then .ok ()
  else .error (.deltaOutOfRange options.delta)

def Options.text (options : Options) : String :=
  s!"{options.algorithm.name} (precision {options.precision}, delta {options.delta.text})"

/-- What the program is called with. It is always asked for its trace, the time, and one factor
on a line, since transcripts are read that way. -/
def Options.arguments (options : Options) (p : Monic) (stopDegree : UInt64) : List String :=
  [p.csv, "-d", options.delta.text, "-p", toString options.precision, "-t", "-v", "-newline",
    "-stop", toString stopDegree]

/-- A field that is missing, null or blank takes its default. A string is read without the
blanks around it, but an error shows all of it. -/
def readField {α : Type} (object : Json) (field : String) (default : α)
    (ofText : String → Option α) (ofNumber : JsonNumber → Option α) : Except OptionsError α :=
  let refuse (found : Option α) (value : String) : Except OptionsError α :=
    match found with
    | some value => .ok value
    | none => .error (.invalidField field value)
  match object.get? field with
  | none | some .null => .ok default
  | some (.string text) =>
    if isBlankText text then .ok default else refuse (ofText (trimText text)) text
  | some (.number n) => refuse (ofNumber n) n.render
  | some value => refuse none value.text

def readAlgorithm (object : Json) : Except OptionsError Algorithm :=
  match object.get? "alg" with
  | none | some .null => .ok .default
  | some (.string name) => Algorithm.ofText name
  | some value => .error (.invalidField "alg" value.text)

/-- Unknown fields are passed over, and the ranges are looked at when all fields have been read. -/
def Options.ofJson (value : Json) : Except OptionsError Options := do
  let .object _ := value | throw .notAnObject
  let algorithm ← readAlgorithm value
  let default := algorithm.options
  let precision ← readField value "precision" default.precision
    (fun text => (readUInt32 text).toOption) JsonNumber.toUInt32?
  let delta ← readField value "delta" default.delta Double.read? fun n => some n.toDouble
  let options : Options := ⟨algorithm, precision, delta⟩
  options.validate
  return options

end MonicFactor
