/-! Whole numbers read from their decimal digits, up to a limit. -/

namespace MonicFactor

inductive NumeralError
  | empty
  | invalidDigit
  | tooLarge
deriving DecidableEq, Repr

def NumeralError.message : NumeralError → String
  | .empty => "cannot parse integer from empty string"
  | .invalidDigit => "invalid digit found in string"
  | .tooLarge => "number too large to fit in target type"

def digitValue (c : Char) : Nat := c.toNat - '0'.toNat

/-- Digits are taken from the left behind those worth `value`; the first character that is no
digit, or the first digit that goes past the limit, decides the error. -/
def readDigits (limit : Nat) : Nat → List Char → Except NumeralError Nat
  | value, [] => .ok value
  | value, c :: cs =>
    if c.isDigit then
      let value := 10 * value + digitValue c
      if value ≤ limit then readDigits limit value cs else .error .tooLarge
    else .error .invalidDigit

/-- One `+` may stand before the digits. -/
def readNatural (limit : Nat) : List Char → Except NumeralError Nat
  | [] => .error .empty
  | '+' :: c :: cs => readDigits limit 0 (c :: cs)
  | cs => readDigits limit 0 cs

/-- A signed number whose magnitude is at most `above`, or `below` when it has a `-`. -/
def readInteger (below above : Nat) : List Char → Except NumeralError Int
  | '-' :: c :: cs => (readDigits below 0 (c :: cs)).map fun n => -(n : Int)
  | cs => (readNatural above cs).map Int.ofNat

def readUInt32 (text : String) : Except NumeralError UInt32 :=
  (readNatural (UInt32.size - 1) text.toList).map UInt32.ofNat

def readUInt64 (text : String) : Except NumeralError UInt64 :=
  (readNatural (UInt64.size - 1) text.toList).map UInt64.ofNat

end MonicFactor
