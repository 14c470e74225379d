import MonicFactor.Job.Failure
import MonicFactor.Json.Reader
import MonicFactor.Options.Basic

/-! What a job takes: the settings that hold for every job, and what is asked for, a polynomial, how
to factor it, and how much to show. -/

namespace MonicFactor

structure Settings where
  binDir : String
  maxDegree : UInt64
  stopDegree : UInt64
  timeout : Duration
deriving DecidableEq, Repr

def Settings.default : Settings := ⟨"./bin", 300, 20, .ofSeconds 60⟩

def joinPath (directory file : String) : String :=
  let cs := directory.toList
  if cs.isEmpty || cs.getLast? == some '/' then directory ++ file else directory ++ "/" ++ file

def Settings.programPath (settings : Settings) (algorithm : Algorithm) : String :=
  joinPath settings.binDir algorithm.program

structure Request where
  polynomial : String
  options : Options
  verbose : Bool
deriving DecidableEq, Repr

def Request.ofFlags (polynomial : String) (algorithm : Algorithm) (precision : Option UInt32)
    (delta : Option Double) (verbose : Bool) : Request :=
  let default := algorithm.options
  ⟨polynomial, ⟨algorithm, precision.getD default.precision, delta.getD default.delta⟩, verbose⟩

def readPolynomial (body : Json) : Except Failure String :=
  match body.get? "poly" with
  | some (.string expression) => .ok expression
  | _ => .error (.invalidRequest .missingPolynomial)

def readOptions (body : Json) : Except Failure Options :=
  match body.get? "opts" with
  | none | some .null => .ok .default
  | some value => (Options.ofJson value).mapError .options

/-- The words that a form sends for a box that is ticked. -/
def tickedWords : List String := ["on", "true", "1", "yes"]

def readVerbose (body : Json) : Except Failure Bool :=
  match body.get? "verbose" with
  | none | some .null => .ok false
  | some (.bool verbose) => .ok verbose
  | some (.string word) => .ok (tickedWords.contains (String.ofList (word.toList.map Char.toLower)))
  | some value => .error (.invalidRequest (.invalidVerbose value.text))

def Request.ofJson (body : Json) : Except Failure Request := do
  let polynomial ← readPolynomial body
  let options ← readOptions body
  let verbose ← readVerbose body
  return ⟨polynomial, options, verbose⟩

def Request.read (body : String) : Except Failure Request := do
  let value ← (Json.read body).mapError fun fault =>
    .invalidRequest (.malformed fault.kind (fault.place body.toList))
  Request.ofJson value

end MonicFactor
