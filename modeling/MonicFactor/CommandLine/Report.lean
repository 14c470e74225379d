import MonicFactor.CommandLine.Invocation
import MonicFactor.Job.Run
import MonicFactor.Response.Basic

/-! What a command writes and how it exits. -/

namespace MonicFactor

structure Report where
  exit : UInt8
  output : String
  errors : String
deriving DecidableEq, Repr

def Report.success (output : String) : Report := ⟨0, output, ""⟩

/-- The error, and below it what caused it, if anything is known of that. -/
def Report.failure (message : String) (cause : Option String) : Report :=
  let causes := (cause.map fun cause => s!"\n\nCaused by:\n    {cause}").getD ""
  ⟨1, "", s!"Error: {message}{causes}\n"⟩

def Report.ofFailure (failure : Failure) : Report := .failure failure.message failure.cause

def reportParse (expression : String) (maxDegree : UInt64) : Report :=
  match Monic.read (some maxDegree.toNat) expression with
  | .ok p => .success (p.csv ++ "\n")
  | .error error => .failure error.message (some error.cause)

/-- The transcript on standard input has to be well-formed UTF-8. -/
def reportTranscript (input : Octets) (write : String → String) : Report :=
  match Utf8.decode? input with
  | some transcript => .success (write transcript ++ "\n")
  | none =>
    .failure "Failed to read transcript from stdin" (some "stream did not contain valid UTF-8")

def Response.pretty (response : Response) : String := response.render .pretty

def decodedText (transcript : String) : String := (Response.ofDecoded (decode transcript)).pretty

/-- The program's own output comes first if it is asked for. -/
def reportFactors (settings : Settings) (launch : Launch) (request : Request) : Report :=
  match request.factor settings launch with
  | .ok decoded =>
    .success ((if request.verbose then decoded.transcript else "") ++
      (Response.ofDecoded decoded).pretty ++ "\n")
  | .error failure => .ofFailure failure

def reportPage (settings : Settings) (launch : Launch) (request : Request) : Report :=
  match request.factorPage settings launch with
  | .ok html => .success (html ++ "\n")
  | .error failure => .ofFailure failure

def Invocation.report (input : Octets) (launch : Launch) : Invocation → Report
  | .version => .success "polyfactor 0.1.0\n"
  | .parse expression maxDegree => reportParse expression maxDegree
  | .decode => reportTranscript input decodedText
  | .render verbose failed => reportTranscript input fun text => page text verbose failed
  | .factor request settings html =>
    if html then reportPage settings launch request else reportFactors settings launch request

def Invocation.readsInput : Invocation → Bool
  | .decode | .render .. => true
  | .version | .parse .. | .factor .. => false

/-- A command line that cannot be understood is reported by its exit code alone. -/
def report (invocation : Except UsageError Invocation) (input : Octets) (launch : Launch) :
    Report :=
  match invocation with
  | .ok invocation => invocation.report input launch
  | .error _ => ⟨2, "", ""⟩

end MonicFactor
