import MonicFactor.Numeral

/-! The entries of a command line: options with their values, flags, and arguments that stand for
themselves. -/

namespace MonicFactor

inductive UsageError
  | unknownArgument
  | repeatedOption
  /-- An option without a value, or with an empty one where it must not be empty. -/
  | missingValue
  | unreadableValue (message : String)
  | unwantedValue
  | missingArgument
  | missingCommand
deriving DecidableEq, Repr

/-- The options that take a value, the flags, and how many arguments stand for themselves. -/
structure Grammar where
  options : List String
  flags : List String
  positions : Nat
deriving DecidableEq, Repr

inductive Entry
  | option (name : String) (value : Option String)
  | flag (name : String)
  | position (text : String)
  | refused (error : UsageError)
deriving DecidableEq, Repr

/-- What an argument looks like before the end of the options is marked. -/
inductive Argument
  | endOfOptions
  | named (name : String) (value : Option String)
  | short
  | plain
deriving DecidableEq, Repr

/-- A lone `-` is a plain argument. -/
def Argument.ofText (text : String) : Argument :=
  match text.toList with
  | ['-', '-'] => .endOfOptions
  | '-' :: '-' :: cs =>
    let name := String.ofList (cs.takeWhile (· != '='))
    match cs.dropWhile (· != '=') with
    | '=' :: value => .named name (some (String.ofList value))
    | _ => .named name none
  | '-' :: _ :: _ => .short
  | _ => .plain

structure Reader where
  grammar : Grammar
  /-- The last option, if its value did not come with its name. It is entered when the next
  entry comes, so an argument that is refused before that hides it. -/
  pending : Option (String × Option String)
  room : Nat
  trailing : Bool
deriving DecidableEq, Repr

def Reader.settled (reader : Reader) : List Entry :=
  (reader.pending.map fun option => .option option.1 option.2).toList

/-- The entries that the rest of the command line adds. -/
def Reader.entries (reader : Reader) : List String → List Entry
  | [] => reader.settled
  | text :: rest =>
    let position : List Entry :=
      match reader.room with
      | 0 => [.refused .unknownArgument]
      | room + 1 =>
        reader.settled ++ .position text :: entries { reader with pending := none, room } rest
    if reader.trailing then position
    else match Argument.ofText text with
      | .endOfOptions => entries { reader with trailing := true } rest
      | .short => [.refused .unknownArgument]
      | .named name value =>
        if reader.grammar.options.contains name then
          match value with
          | some value => reader.settled ++ .option name (some value) ::
              entries { reader with pending := none } rest
          | none => reader.settled ++ entries { reader with pending := some (name, none) } rest
        else if reader.grammar.flags.contains name then
          match value with
          | some _ => [.refused .unwantedValue]
          | none => reader.settled ++ .flag name :: entries { reader with pending := none } rest
        else [.refused .unknownArgument]
      | .plain =>
        match reader.pending with
        | some (name, none) => entries { reader with pending := some (name, some text) } rest
        | _ => position

/-- The first argument that cannot be an entry ends the command line. -/
def Grammar.entries (grammar : Grammar) (arguments : List String) : List Entry :=
  Reader.entries ⟨grammar, none, grammar.positions, false⟩ arguments

def assign {α : Type} (read : String → Except UsageError α) (given : Option α)
    (value : Option String) : Except UsageError (Option α) :=
  match value with
  | none => .error .missingValue
  | some text => if given.isSome then .error .repeatedOption else (read text).map some

def numeralError (error : NumeralError) : UsageError := .unreadableValue error.message

def readCount (text : String) : Except UsageError UInt64 := (readUInt64 text).mapError numeralError

end MonicFactor
