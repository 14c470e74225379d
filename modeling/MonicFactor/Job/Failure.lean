import MonicFactor.Duration
import MonicFactor.Json.Fault
import MonicFactor.Options.Basic

/-! Why a job has no result. -/

namespace MonicFactor

inductive RequestFault
  | malformed (kind : FaultKind) (place : Place)
  | missingPolynomial
  | invalidVerbose (value : String)
deriving DecidableEq, Repr

def RequestFault.message : RequestFault → String
  | .malformed kind place =>
    s!"{kind.message} at line {place.line} column {place.column}"
  | .missingPolynomial => "missing string field 'poly'"
  | .invalidVerbose value => s!"invalid value {value} for 'verbose'"

inductive Failure
  | invalidRequest (fault : RequestFault)
  | polynomial (error : PolynomialError)
  | options (error : OptionsError)
  | cannotRun (program reason : String)
  | programFailed (code : Option Int) (message : String)
  | timedOut (limit : Duration)
  | missingFactorization (output : String)
deriving DecidableEq, Repr

/-- A program that was killed has no exit code. -/
def exitSuffix : Option Int → String
  | some code => s!" with exit code {code}"
  | none => ""

def Failure.message : Failure → String
  | .invalidRequest fault => s!"Invalid request: {fault.message}"
  | .polynomial error => error.message
  | .options error => s!"Invalid options: {error.message}"
  | .cannotRun program reason => s!"Could not run {program}: {reason}"
  | .programFailed code message => s!"Factorization program failed{exitSuffix code}: {message}"
  | .timedOut limit => s!"Factorization timed out after {limit.text}"
  | .missingFactorization _ => "Factorization output contains no factors"

def Failure.cause : Failure → Option String
  | .polynomial error => some error.cause
  | .options error => some error.message
  | .cannotRun _ reason => some reason
  | _ => none

def Failure.isUserError : Failure → Bool
  | .invalidRequest _ | .polynomial _ | .options _ => true
  | _ => false

end MonicFactor
