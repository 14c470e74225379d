/-! Numbers of binary floating point with 53 significant bits, and rounding to them. -/

namespace MonicFactor

/-- Each block of so many magnitudes has steps of twice the size, the first two blocks apart. -/
def blockSize : Nat := 0x10000000000000

def magnitudeCount : Nat := 2047 * blockSize

/-- A finite magnitude, named by its place in the rising order of all of them. -/
abbrev Magnitude := Fin magnitudeCount

/-- Every magnitude is a whole number of units, and this many units make one. -/
def unitsPerOne : Nat := Nat.pow 2 1074

def Magnitude.units (m : Magnitude) : Nat :=
  if m.val < blockSize then m.val
  else (blockSize + m.val % blockSize) * Nat.pow 2 (m.val / blockSize - 1)

def Magnitude.zero : Magnitude := ⟨0, by decide⟩

/-- A quotient to the nearest whole number, a half to the even one. -/
def divideRounded (num den : Nat) : Nat :=
  let twice := 2 * (num % den)
  if twice < den then num / den
  else if den < twice then num / den + 1
  else num / den + num / den % 2

/-- The place of the magnitude nearest to a quotient, a tie to the even place. -/
def nearestPlace (num den : Nat) : Nat :=
  let units := num * unitsPerOne
  let block := (units / den).log2 - 52
  block * blockSize + divideRounded units (den * Nat.pow 2 block)

/-- A quotient beyond the last magnitude by half a step or more has no place. -/
def Magnitude.ofRatio? (num den : Nat) : Option Magnitude :=
  if h : nearestPlace num den < magnitudeCount then some ⟨nearestPlace num den, h⟩ else none

def Magnitude.mul? (a b : Magnitude) : Option Magnitude :=
  ofRatio? (a.units * b.units) (unitsPerOne * unitsPerOne)

def Magnitude.div? (a b : Magnitude) : Option Magnitude := ofRatio? a.units b.units

inductive Double
  | nan
  | infinite (negative : Bool)
  | finite (negative : Bool) (magnitude : Magnitude)
deriving DecidableEq, Repr

def Double.ofMagnitude? (negative : Bool) : Option Magnitude → Double
  | some m => .finite negative m
  | none => .infinite negative

def Double.ofInt (n : Int) : Double := ofMagnitude? (n < 0) (Magnitude.ofRatio? n.natAbs 1)

/-- The place of a number on the line, both zeros in the middle. -/
def Double.place : Double → Option Int
  | .nan => none
  | .infinite negative => some (if negative then -magnitudeCount else magnitudeCount)
  | .finite negative m => some (if negative then -m.val else m.val)

/-- False as soon as one side is no number. -/
def Double.lt (a b : Double) : Bool :=
  match a.place, b.place with
  | some a, some b => a < b
  | _, _ => false

end MonicFactor
