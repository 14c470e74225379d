import MonicFactor.Job.Request
import MonicFactor.Text.Utf8
import MonicFactor.Text.Markup

/-! Doing a job: the command it comes to, and what is made of the way the program ends. -/

namespace MonicFactor

structure Command where
  program : String
  arguments : List String
deriving DecidableEq, Repr

inductive Outcome
  | cannotStart (reason : String)
  | outlives
  /-- Without an exit code if the program was killed. -/
  | ends (code : Option Int) (stdout stderr : Octets)
deriving DecidableEq, Repr

abbrev Launch := Command → Outcome

def Request.command (settings : Settings) (request : Request) : Except Failure Command := do
  let p ← (Monic.read (some settings.maxDegree.toNat) request.polynomial).mapError .polynomial
  request.options.validate.mapError .options
  return ⟨settings.programPath request.options.algorithm,
    request.options.arguments p settings.stopDegree⟩

/-- What the program wrote, if it ended well. If not, its error stream is shown, or its output in
place of a blank one. -/
def Outcome.output (outcome : Outcome) (settings : Settings) (command : Command) :
    Except Failure String :=
  match outcome with
  | .cannotStart reason => .error (.cannotRun command.program reason)
  | .outlives => .error (.timedOut settings.timeout)
  | .ends code stdout stderr =>
    if code = some 0 then .ok (Utf8.decodeLossy stdout)
    else
      let diagnosis := Utf8.decodeLossy stderr
      let shown := if isBlankText diagnosis then Utf8.decodeLossy stdout else diagnosis
      .error (.programFailed code (trimText shown))

def Request.execute (settings : Settings) (launch : Launch) (request : Request) :
    Except Failure String := do
  let command ← request.command settings
  (launch command).output settings command

def Request.factor (settings : Settings) (launch : Launch) (request : Request) :
    Except Failure Decoded := do
  let transcript ← request.execute settings launch
  let decoded := decode transcript
  if decoded.foundMarker then return decoded else throw (.missingFactorization transcript)

/-- A page for every request that can be carried out, even if the program fails. -/
def Request.factorPage (settings : Settings) (launch : Launch) (request : Request) :
    Except Failure String :=
  match request.execute settings launch with
  | .ok transcript =>
    if (decode transcript).foundMarker then .ok (page transcript request.verbose false)
    else .ok (page transcript true true)
  | .error failure =>
    if failure.isUserError then .error failure else .ok (page failure.message true true)

end MonicFactor
