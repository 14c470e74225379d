import MonicFactor.Text.Utf8

/-! Why a text is not JSON, and the place in it where that shows. -/

namespace MonicFactor

inductive FaultKind
  | endInValue
  | endInString
  | endInList
  | endInObject
  | expectedValue
  | expectedWord
  | invalidNumber
  | numberOutOfRange
  | controlCharacter
  | invalidEscape
  | loneSurrogate
  | unfinishedEscape
  | expectedCommaInList
  | expectedCommaInObject
  | expectedColon
  | expectedKey
  | trailingComma
  | trailingText
  | tooDeep
deriving DecidableEq, Repr

def FaultKind.message : FaultKind → String
  | .endInValue => "EOF while parsing a value"
  | .endInString => "EOF while parsing a string"
  | .endInList => "EOF while parsing a list"
  | .endInObject => "EOF while parsing an object"
  | .expectedValue => "expected value"
  | .expectedWord => "expected ident"
  | .invalidNumber => "invalid number"
  | .numberOutOfRange => "number out of range"
  | .controlCharacter => "control character (\\u0000-\\u001F) found while parsing a string"
  | .invalidEscape => "invalid escape"
  | .loneSurrogate => "lone leading surrogate in hex escape"
  | .unfinishedEscape => "unexpected end of hex escape"
  | .expectedCommaInList => "expected `,` or `]`"
  | .expectedCommaInObject => "expected `,` or `\x7d`"
  | .expectedColon => "expected `:`"
  | .expectedKey => "key must be a string"
  | .trailingComma => "trailing comma"
  | .trailingText => "trailing characters"
  | .tooDeep => "recursion limit exceeded"

def FaultKind.isEarlyEnd : FaultKind → Bool
  | .endInValue | .endInString | .endInList | .endInObject => true
  | _ => false

/-- A fault lies some octets behind the part of the text that stands before `rest`. -/
structure Fault where
  kind : FaultKind
  rest : List Char
  octets : Nat
deriving DecidableEq, Repr

/-- Lines are counted from one, and columns in octets from the last newline. -/
structure Place where
  line : Nat
  column : Nat
deriving DecidableEq, Repr

/-- Moves over a number of octets, which may end inside a character, or over all there are. -/
def Place.advance : Place → Nat → List Char → Place
  | place, _, [] => place
  | place, octets, c :: cs =>
    if octets < c.utf8Size then { place with column := place.column + octets }
    else if c = '\n' then advance ⟨place.line + 1, 0⟩ (octets - 1) cs
    else advance { place with column := place.column + c.utf8Size } (octets - c.utf8Size) cs

def Fault.place (fault : Fault) (text : List Char) : Place :=
  Place.advance ⟨1, 0⟩ (Utf8.size text - Utf8.size fault.rest + fault.octets) text

end MonicFactor
