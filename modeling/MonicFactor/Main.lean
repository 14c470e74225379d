import MonicFactor.CommandLine.Report

/-! The command line. -/

namespace MonicFactor

/-- Starting a program is left to a caller that can. -/
def launchNothing : Launch := fun _ => .cannotStart "Operation not supported (os error 95)"

def readEnvironment : IO Environment :=
  GivenSettings.names.foldlM (fun environment name => do
    let value ← IO.getEnv (variableOf name)
    return (value.map fun value => (variableOf name, value)).toList ++ environment) []

def readInput (invocation : Except UsageError Invocation) : IO Octets := do
  match invocation.map Invocation.readsInput with
  | .ok true => return (← (← IO.getStdin).readBinToEnd).toList
  | _ => return []

end MonicFactor

open MonicFactor in
def main (arguments : List String) : IO UInt32 := do
  let invocation := Invocation.read (← readEnvironment) arguments
  let report := report invocation (← readInput invocation) launchNothing
  IO.print report.output
  IO.eprint report.errors
  return report.exit.toUInt32
