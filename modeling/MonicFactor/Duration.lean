import MonicFactor.Double.Basic

/-! Spans of time. -/

namespace MonicFactor

structure Duration where
  nanoseconds : Nat
deriving DecidableEq, Repr

inductive DurationError
  | negative
  | tooLong
deriving DecidableEq, Repr

def DurationError.message : DurationError → String
  | .negative => "cannot convert float seconds to Duration: value is negative"
  | .tooLong => "cannot convert float seconds to Duration: value is either too big or NaN"

def Duration.ofSeconds (seconds : Nat) : Duration := ⟨seconds * 1000000000⟩

/-- To the nearest nanosecond, a half to the even one. No span lasts for 2^64 seconds, and zero is
not negative, whatever its sign. -/
def Duration.ofDouble (seconds : Double) : Except DurationError Duration :=
  match seconds with
  | .nan | .infinite false => .error .tooLong
  | .infinite true => .error .negative
  | .finite negative m =>
    if negative && m ≠ .zero then .error .negative
    else if UInt64.size * unitsPerOne ≤ m.units then .error .tooLong
    else .ok ⟨divideRounded (m.units * 1000000000) unitsPerOne⟩

/-- In units of a power of ten of nanoseconds, without zeros at the end of the fraction. -/
def Duration.inUnits (d : Duration) (power : Nat) : String :=
  let digits := Nat.toDigits 10 (d.nanoseconds % Nat.pow 10 power)
  let padded := List.replicate (power - digits.length) '0' ++ digits
  let fraction := (padded.reverse.dropWhile (· == '0')).reverse
  toString (d.nanoseconds / Nat.pow 10 power) ++
    String.ofList (if fraction.isEmpty then [] else '.' :: fraction)

def Duration.text (d : Duration) : String :=
  if 1000000000 ≤ d.nanoseconds then d.inUnits 9 ++ "s"
  else if 1000000 ≤ d.nanoseconds then d.inUnits 6 ++ "ms"
  else if 1000 ≤ d.nanoseconds then d.inUnits 3 ++ "µs"
  else d.inUnits 0 ++ "ns"

end MonicFactor
