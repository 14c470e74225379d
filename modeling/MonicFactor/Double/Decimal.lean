import MonicFactor.Double.Basic

/-! Decimal texts read as doubles. -/

namespace MonicFactor

structure Decimal where
  digits : Nat
  power : Int
deriving DecidableEq, Repr

/-- The number is at least ten to this power, since ten bits are worth three digits or more. -/
def Decimal.lowest (d : Decimal) : Int := d.power + 3 * d.digits.log2 / 10

/-- The number is below ten to this power, since three bits are worth less than a digit. -/
def Decimal.highest (d : Decimal) : Int := d.power + d.digits.log2 / 3 + 1

/-- The nearest magnitude. Numbers far out of range are told apart before a power is formed. -/
def Decimal.magnitude? (d : Decimal) : Option Magnitude :=
  if d.digits = 0 then some .zero
  else if 400 < d.lowest then none
  else if d.highest < -400 then some .zero
  else Magnitude.ofRatio? (d.digits * Nat.pow 10 d.power.toNat) (Nat.pow 10 (-d.power).toNat)

/-- The number behind the mark of an exponent, or none at the end of the text. -/
def readExponent? : List Char → Option Int
  | [] => some 0
  | mark :: cs =>
    let (negative, digits) := match cs with
      | '-' :: digits => (true, digits)
      | '+' :: digits => (false, digits)
      | digits => (false, digits)
    if (mark == 'e' || mark == 'E') && !digits.isEmpty && digits.all Char.isDigit then
      let exponent : Int := Nat.ofDigitChars 10 digits 0
      some (if negative then -exponent else exponent)
    else none

/-- Digits with at most one point, one digit at least, and perhaps an exponent. -/
def Decimal.read? (cs : List Char) : Option Decimal :=
  let whole := cs.takeWhile Char.isDigit
  let (fraction, rest) := match cs.dropWhile Char.isDigit with
    | '.' :: rest => (rest.takeWhile Char.isDigit, rest.dropWhile Char.isDigit)
    | rest => ([], rest)
  if whole.isEmpty && fraction.isEmpty then none
  else (readExponent? rest).map fun exponent =>
    ⟨Nat.ofDigitChars 10 (whole ++ fraction) 0, exponent - fraction.length⟩

/-- A sign may stand in front; infinity and NaN are known by name, in capitals or not. -/
def Double.read? (text : String) : Option Double :=
  let (negative, cs) := match text.toList with
    | '-' :: cs => (true, cs)
    | '+' :: cs => (false, cs)
    | cs => (false, cs)
  match Decimal.read? cs with
  | some decimal => some (.ofMagnitude? negative decimal.magnitude?)
  | none =>
    let name := String.ofList (cs.map Char.toLower)
    if name == "inf" || name == "infinity" then some (.infinite negative)
    else if name == "nan" then some .nan
    else none

end MonicFactor
