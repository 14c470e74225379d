/-! Signed terms of a polynomial in one variable, and why an expression is refused. -/

namespace MonicFactor

/-- A term as it was written, before like terms are summed. -/
structure Term where
  coefficient : Int
  exponent : Nat
deriving DecidableEq, Repr

def maxMagnitude : Nat := 0x7FFFFFFFFFFFFFFF

/-- Columns count the characters of the expression from one, blanks included. -/
inductive FormatError
  | unexpectedCharacter (char : Char) (column : Nat)
  | unsupportedVariable (char : Char) (column : Nat)
  | repeatedVariable (column : Nat)
  | missingExponent (column : Nat)
  | nonIntegerExponent (column : Nat)
  | nonIntegerCoefficient (column : Nat)
  | exponentWithoutVariable (column : Nat)
  | missingVariable (column : Nat)
  | danglingSign (column : Nat)
  | outOfRange (column : Nat)
deriving DecidableEq, Repr

def FormatError.message : FormatError → String
  | .unexpectedCharacter char column => s!"unexpected character '{char}' at column {column}"
  | .unsupportedVariable char column =>
    s!"unsupported variable '{char}' at column {column}, only x is allowed"
  | .repeatedVariable column => s!"repeated variable at column {column}, write powers as x^n"
  | .missingExponent column => s!"missing exponent after '^' at column {column}"
  | .nonIntegerExponent column => s!"exponent at column {column} is not a non-negative integer"
  | .nonIntegerCoefficient column => s!"coefficient at column {column} is not an integer"
  | .exponentWithoutVariable column => s!"constant at column {column} cannot carry an exponent"
  | .missingVariable column => s!"expected x after '*' at column {column}"
  | .danglingSign column => s!"sign at column {column} is not followed by a term"
  | .outOfRange column => s!"integer at column {column} is too large"

inductive ConstraintError
  | notMonic (leading : Int)
  | degreeTooLarge (degree bound : Nat)
  | coefficientOverflow (exponent : Nat)
deriving DecidableEq, Repr

def ConstraintError.message : ConstraintError → String
  | .notMonic leading => s!"polynomial must be monic, but its leading coefficient is {leading}"
  | .degreeTooLarge degree bound => s!"polynomial degree {degree} exceeds the maximum of {bound}"
  | .coefficientOverflow exponent =>
    s!"coefficient of x^{exponent} does not fit in a 64-bit integer"

inductive PolynomialError
  | format (error : FormatError)
  | constraint (error : ConstraintError)
deriving DecidableEq, Repr

/-- The fault alone, without the words that say which kind of fault it is. -/
def PolynomialError.cause : PolynomialError → String
  | .format error => error.message
  | .constraint error => error.message

def PolynomialError.message : PolynomialError → String
  | .format error => s!"Invalid polynomial: {error.message}"
  | .constraint error => s!"Unsupported polynomial: {error.message}"

end MonicFactor
