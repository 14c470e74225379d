import MonicFactor.Double.Decimal

/-! The fewest decimal digits that read back as a double, and how they are laid out. -/

namespace MonicFactor

inductive Tie
  | up
  | even
deriving DecidableEq, Repr

/-- The exponent of the leading digit. Scaled by `10 ^ 400` every magnitude but zero has a whole
part. -/
def Magnitude.exponent (m : Magnitude) : Int :=
  (Nat.toDigits 10 (m.units * Nat.pow 10 400 / unitsPerOne)).length - 401

def Magnitude.steps (m : Magnitude) (power : Int) : Nat × Nat :=
  (m.units * Nat.pow 10 (-power).toNat, unitsPerOne * Nat.pow 10 power.toNat)

/-- The nearer of the two multiples of a power of ten around a magnitude, among those that read
back as it. -/
def Magnitude.onGrid? (m : Magnitude) (tie : Tie) (power : Int) : Option Decimal :=
  let (num, den) := m.steps power
  let below : Decimal := ⟨num / den, power⟩
  let above : Decimal := ⟨num / den + 1, power⟩
  match below.magnitude? == some m, above.magnitude? == some m with
  | false, false => none
  | true, false => some below
  | false, true => some above
  | true, true =>
    let twice := 2 * (num % den)
    if twice < den then some below
    else if den < twice then some above
    else match tie with
      | .up => some above
      | .even => some (if below.digits % 2 = 0 then below else above)

/-- Powers of two have finite decimals, so every magnitude has an exact one. -/
def Magnitude.exact (m : Magnitude) : Decimal := ⟨m.units * Nat.pow 5 1074, -1074⟩

/-- The coarsest grid with a decimal that reads back has the fewest digits. -/
def Magnitude.shortest (m : Magnitude) (tie : Tie) : Decimal :=
  ((List.range 17).findSome? fun (n : Nat) => m.onGrid? tie (m.exponent - n)).getD m.exact

structure Layout where
  tie : Tie
  /-- Whether a number whose leading digit has this exponent is written without an exponent. -/
  plain : Int → Bool
  /-- What stands behind a number written without an exponent and without a fraction. -/
  wholeMark : String

/-- Digits without zeros at the end, and the exponent of the first of them. -/
def Magnitude.leadingDigits (m : Magnitude) (tie : Tie) : List Char × Int :=
  if m = .zero then (['0'], 0)
  else
    let decimal := m.shortest tie
    let digits := Nat.toDigits 10 decimal.digits
    ((digits.reverse.dropWhile (· == '0')).reverse, digits.length - 1 + decimal.power)

def plainDigits (digits : List Char) (exponent : Int) (wholeMark : String) : List Char :=
  if exponent < 0 then "0.".toList ++ List.replicate (-exponent - 1).toNat '0' ++ digits
  else
    let whole := exponent.toNat + 1
    if digits.length ≤ whole then
      digits ++ List.replicate (whole - digits.length) '0' ++ wholeMark.toList
    else digits.take whole ++ '.' :: digits.drop whole

def scientificDigits (digits : List Char) (exponent : Int) : List Char :=
  let fraction := digits.drop 1
  digits.take 1 ++ (if fraction.isEmpty then [] else '.' :: fraction) ++
    'e' :: (if exponent < 0 then '-' else '+') :: Nat.toDigits 10 exponent.natAbs

def Layout.magnitude (layout : Layout) (m : Magnitude) : List Char :=
  let (digits, exponent) := m.leadingDigits layout.tie
  if layout.plain exponent then plainDigits digits exponent layout.wholeMark
  else scientificDigits digits exponent

def Layout.number (layout : Layout) (negative : Bool) (m : Magnitude) : String :=
  String.ofList ((if negative then ['-'] else []) ++ layout.magnitude m)

def Double.layout : Layout where
  tie := .up
  plain _ := true
  wholeMark := ""

def Double.text : Double → String
  | .nan => "NaN"
  | .infinite negative => if negative then "-inf" else "inf"
  | .finite negative m => layout.number negative m

end MonicFactor
