import MonicFactor.Job.Run

/-! Where a system finds the program of a command, and why it may refuse to start it. -/

namespace MonicFactor

inductive LaunchFault
  | notFound
  | permissionDenied
  | notDirectory
  | nameTooLong
  | argumentTooLong
  | nulCharacter
deriving DecidableEq, Repr

def LaunchFault.message : LaunchFault → String
  | .notFound => "No such file or directory (os error 2)"
  | .permissionDenied => "Permission denied (os error 13)"
  | .notDirectory => "Not a directory (os error 20)"
  | .nameTooLong => "File name too long (os error 36)"
  | .argumentTooLong => "Argument list too long (os error 7)"
  | .nulCharacter => "nul byte found in provided data"

inductive FileTree
  | file (executable : Bool)
  | directory (entries : List (String × FileTree))

abbrev Directory := List (String × FileTree)

/-- A directory, and those around it from the nearest outwards, up to the root. -/
structure Location where
  here : Directory
  around : List Directory

def Location.root (location : Location) : Location :=
  ⟨location.around.getLastD location.here, []⟩

/-- Around the root there is the root again. -/
def Location.outward : Location → Location
  | ⟨_, outer :: around⟩ => ⟨outer, around⟩
  | ⟨root, []⟩ => ⟨root, []⟩

def Location.inward (location : Location) (entries : Directory) : Location :=
  ⟨entries, location.here :: location.around⟩

/-- Why what a path leads to cannot be run. A name is measured before it is looked up, and only a
directory can be asked for one. -/
def Location.fault? : Location → List String → Option LaunchFault
  | _, [] => some .permissionDenied
  | location, name :: path =>
    if name == "" || name == "." then location.fault? path
    else if name == ".." then location.outward.fault? path
    else if 255 < Utf8.size name.toList then some .nameTooLong
    else match location.here.lookup name with
      | none => some .notFound
      | some (.directory entries) => (location.inward entries).fault? path
      | some (.file executable) =>
        if !path.isEmpty then some .notDirectory
        else if executable then none
        else some .permissionDenied

/-- The most octets of an argument, and of a path, with the mark of its end. -/
def argumentLimit : Nat := 131072

def pathLimit : Nat := 4096

/-- A path that starts with a slash leads from the root, any other from the working directory. A
name alone is looked up among installed programs, and there are none. -/
def Command.fault? (command : Command) (workingDirectory : Location) : Option LaunchFault :=
  let path := command.program.toList
  let tooLong (limit : Nat) (text : String) : Bool := limit ≤ Utf8.size text.toList
  let start := if path.head? == some '/' then workingDirectory.root else workingDirectory
  if (command.program :: command.arguments).any fun text => text.toList.contains '\x00' then
    some .nulCharacter
  else if tooLong pathLimit command.program then some .nameTooLong
  else if !path.contains '/' then some .notFound
  else match start.fault? (command.program.splitOn "/") with
    | some fault => some fault
    | none =>
      if command.arguments.any (tooLong argumentLimit) then some .argumentTooLong else none

/-- Every program that can be started at all ends in the same way. -/
def launchIn (workingDirectory : Location) (outcome : Outcome) : Launch :=
  fun command =>
    match command.fault? workingDirectory with
    | some fault => .cannotStart fault.message
    | none => outcome

end MonicFactor
