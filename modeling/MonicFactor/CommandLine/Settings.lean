import MonicFactor.CommandLine.Entry
import MonicFactor.Double.Decimal
import MonicFactor.Job.Request

/-! Settings from options, from variables of the environment, and from defaults, in this order. -/

namespace MonicFactor

structure GivenSettings where
  binDir : Option String
  maxDegree : Option UInt64
  stopDegree : Option UInt64
  timeout : Option Duration
deriving DecidableEq, Repr

def GivenSettings.names : List String := ["bin-dir", "max-degree", "stop-degree", "timeout-secs"]

def readDirectory (text : String) : Except UsageError String :=
  if text.isEmpty then .error .missingValue else .ok text

/-- Blanks around the number are passed over, but an error shows them. -/
def readTimeout (text : String) : Except UsageError Duration :=
  match Double.read? (trimText text) with
  | none => .error (.unreadableValue s!"'{text}' is not a number of seconds")
  | some seconds => (Duration.ofDouble seconds).mapError fun error => .unreadableValue error.message

def GivenSettings.set (given : GivenSettings) (name : String) (value : Option String) :
    Except UsageError GivenSettings :=
  match name with
  | "bin-dir" => (assign readDirectory given.binDir value).map fun v => { given with binDir := v }
  | "max-degree" =>
    (assign readCount given.maxDegree value).map fun v => { given with maxDegree := v }
  | "stop-degree" =>
    (assign readCount given.stopDegree value).map fun v => { given with stopDegree := v }
  | "timeout-secs" =>
    (assign readTimeout given.timeout value).map fun v => { given with timeout := v }
  | _ => .error .unknownArgument

def GivenSettings.has (given : GivenSettings) : String → Bool
  | "bin-dir" => given.binDir.isSome
  | "max-degree" => given.maxDegree.isSome
  | "stop-degree" => given.stopDegree.isSome
  | "timeout-secs" => given.timeout.isSome
  | _ => false

abbrev Environment := List (String × String)

/-- The variable for an option: its name in capitals. -/
def variableOf (name : String) : String :=
  "POLYFACTOR_" ++ name.map fun c => if c = '-' then '_' else c.toUpper

/-- A variable is only looked at if its option has not been given. -/
def GivenSettings.setFrom (environment : Environment) (given : GivenSettings) (name : String) :
    Except UsageError GivenSettings :=
  match environment.lookup (variableOf name) with
  | some value => if given.has name then .ok given else given.set name (some value)
  | none => .ok given

def GivenSettings.complete (given : GivenSettings) (environment : Environment) :
    Except UsageError Settings := do
  let given ← names.foldlM (GivenSettings.setFrom environment) given
  let default := Settings.default
  return {
    binDir := given.binDir.getD default.binDir
    maxDegree := given.maxDegree.getD default.maxDegree
    stopDegree := given.stopDegree.getD default.stopDegree
    timeout := given.timeout.getD default.timeout }

def GivenSettings.enter (given : GivenSettings) : Entry → Except UsageError GivenSettings
  | .option name value => given.set name value
  | .flag _ | .position _ => .error .unknownArgument
  | .refused error => .error error

def Settings.read (arguments : List String) (environment : Environment) :
    Except UsageError Settings := do
  let entries := Grammar.entries ⟨GivenSettings.names, [], 0⟩ arguments
  let given ← entries.foldlM GivenSettings.enter ⟨none, none, none, none⟩
  given.complete environment

end MonicFactor
