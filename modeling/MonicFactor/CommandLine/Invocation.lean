import MonicFactor.CommandLine.Settings
import MonicFactor.Job.Request

/-! The commands that can be given, and what each is told. -/

namespace MonicFactor

inductive Invocation
  | version
  | parse (expression : String) (maxDegree : UInt64)
  | decode
  | render (verbose failed : Bool)
  | factor (request : Request) (settings : Settings) (html : Bool)
deriving DecidableEq, Repr

/-- What has been given of a command. A field that the grammar of a command has no name for
stays as it is. -/
structure Given where
  settings : GivenSettings
  expression : Option String
  algorithm : Option Algorithm
  precision : Option UInt32
  delta : Option Double
  flags : List String
deriving DecidableEq, Repr

def readAlgorithmName (text : String) : Except UsageError Algorithm :=
  (Algorithm.ofText text).mapError fun error => .unreadableValue error.message

/-- Read as a signed 64-bit number first, so zero may have a minus. -/
def readPrecision (text : String) : Except UsageError UInt32 := do
  let n ← (readInteger (maxMagnitude + 1) maxMagnitude text.toList).mapError numeralError
  if 0 ≤ n ∧ n.toNat < UInt32.size then return UInt32.ofNat n.toNat
  else throw (.unreadableValue s!"{n} is not in 0..={UInt32.size - 1}")

def readDelta (text : String) : Except UsageError Double :=
  match Double.read? text with
  | some delta => .ok delta
  | none => .error (.unreadableValue "invalid float literal")

def Given.setOption (given : Given) (name : String) (value : Option String) :
    Except UsageError Given :=
  match name with
  | "alg" =>
    (assign readAlgorithmName given.algorithm value).map fun v => { given with algorithm := v }
  | "precision" =>
    (assign readPrecision given.precision value).map fun v => { given with precision := v }
  | "delta" => (assign readDelta given.delta value).map fun v => { given with delta := v }
  | _ => (given.settings.set name value).map fun v => { given with settings := v }

def Given.enter (given : Given) : Entry → Except UsageError Given
  | .option name value => given.setOption name value
  | .flag name =>
    if given.flags.contains name then .error .repeatedOption
    else .ok { given with flags := name :: given.flags }
  | .position text => .ok { given with expression := some text }
  | .refused error => .error error

def Given.read (grammar : Grammar) (arguments : List String) : Except UsageError Given :=
  (grammar.entries arguments).foldlM Given.enter
    ⟨⟨none, none, none, none⟩, none, none, none, none, []⟩

def Given.theExpression (given : Given) : Except UsageError String :=
  match given.expression with
  | some expression => .ok expression
  | none => .error .missingArgument

def readParse (arguments : List String) : Except UsageError Invocation := do
  let given ← Given.read ⟨["max-degree"], [], 1⟩ arguments
  let expression ← given.theExpression
  return .parse expression (given.settings.maxDegree.getD Settings.default.maxDegree)

def readDecode (arguments : List String) : Except UsageError Invocation := do
  let _ ← Given.read ⟨[], [], 0⟩ arguments
  return .decode

def readRender (arguments : List String) : Except UsageError Invocation := do
  let given ← Given.read ⟨[], ["verbose", "failed"], 0⟩ arguments
  return .render (given.flags.contains "verbose") (given.flags.contains "failed")

def factorGrammar : Grammar where
  options := ["alg", "precision", "delta"] ++ GivenSettings.names
  flags := ["html", "verbose"]
  positions := 1

def readFactor (environment : Environment) (arguments : List String) :
    Except UsageError Invocation := do
  let given ← Given.read factorGrammar arguments
  let settings ← given.settings.complete environment
  let expression ← given.theExpression
  let request := Request.ofFlags expression (given.algorithm.getD .default) given.precision
    given.delta (given.flags.contains "verbose")
  return .factor request settings (given.flags.contains "html")

/-- The version is asked for by name or by a letter, whatever follows the letter. -/
def asksVersion (argument : String) : Bool :=
  argument == "--version" || "-V".toList.isPrefixOf argument.toList

def Invocation.read (environment : Environment) : List String → Except UsageError Invocation
  | [] => .error .missingCommand
  | "parse" :: arguments => readParse arguments
  | "decode" :: arguments => readDecode arguments
  | "render" :: arguments => readRender arguments
  | "factor" :: arguments => readFactor environment arguments
  | argument :: _ => if asksVersion argument then .ok .version else .error .missingCommand

end MonicFactor
