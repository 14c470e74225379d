import MonicFactor.Double.Shortest
import MonicFactor.Json.Found
import MonicFactor.Numeral

/-! Numbers in JSON. An integer that fits a 64-bit word, signed or not, is kept as it is; every
other number becomes a double, by one scaling of at most twenty digits. -/

namespace MonicFactor

inductive JsonNumber
  | integer (n : Int)
  | double (negative : Bool) (magnitude : Magnitude)
deriving DecidableEq, Repr

def JsonNumber.layout : Layout where
  tie := .even
  plain exponent := -5 ≤ exponent && exponent ≤ 15
  wholeMark := ".0"

def JsonNumber.render : JsonNumber → String
  | .integer n => toString n
  | .double negative m => layout.number negative m

def JsonNumber.toUInt32? : JsonNumber → Option UInt32
  | .integer (.ofNat n) => if n < UInt32.size then some (UInt32.ofNat n) else none
  | .integer (.negSucc _) | .double .. => none

def JsonNumber.toDouble : JsonNumber → Double
  | .integer n => .ofInt n
  | .double negative m => .finite negative m

/-- The parts of a number behind its minus, each a list of digits but for a sign of the exponent. -/
structure NumberText where
  whole : List Char
  fraction : Option (List Char)
  exponent : Option (Bool × List Char)
deriving DecidableEq, Repr

def readFraction (cs : List Char) : Reading 0 (Option (List Char)) cs :=
  match cs with
  | '.' :: rest =>
    let digits := readDigitRun rest
    if digits.value.isEmpty then
      .error ⟨if rest.isEmpty then .endInValue else .invalidNumber, rest, 1⟩
    else .ok ((digits.map some).behind '.').loose
  | cs => .ok (.here none cs)

def readSign (cs : List Char) : Found 0 Bool cs :=
  match cs with
  | '+' :: rest => ((Found.here false rest).behind '+').loose
  | '-' :: rest => ((Found.here true rest).behind '-').loose
  | cs => .here false cs

def readPower (cs : List Char) : Reading 0 (Option (Bool × List Char)) cs :=
  match cs with
  | [] => .ok (.here none [])
  | mark :: rest =>
    if mark == 'e' || mark == 'E' then
      let sign := readSign rest
      let digits := readDigitRun sign.rest
      if digits.value.isEmpty then
        .error (if sign.rest.isEmpty then ⟨.endInValue, [], 0⟩
          else ⟨.invalidNumber, sign.rest, 1⟩)
      else
        let power := digits.map fun digits => some (sign.value, digits)
        .ok ((sign.andThen power).behind mark).loose
    else .ok (.here none (mark :: rest))

/-- No digit may follow a zero that stands first. -/
def readWhole (cs : List Char) : Reading 1 (List Char) cs :=
  match cs with
  | [] => .error ⟨.endInValue, [], 0⟩
  | c :: rest =>
    if !c.isDigit then .error ⟨.invalidNumber, c :: rest, 1⟩
    else if c == '0' && rest.head?.any Char.isDigit then .error ⟨.invalidNumber, rest, 1⟩
    else .ok (((readDigitRun rest).map (c :: ·)).behind c)

def readNumberText (cs : List Char) : Reading 1 NumberText cs := do
  let whole ← readWhole cs
  let fraction ← readFraction whole.rest
  let power ← readPower fraction.rest
  return whole.andThen (fraction.andThen (power.map fun power =>
    ⟨whole.value, fraction.value, power⟩))

/-- Digits collected as long as they fit an unsigned 64-bit word, the power of ten they stand
for, and whether a digit has been left out. -/
structure Significand where
  value : Nat
  power : Int
  cut : Bool
deriving DecidableEq, Repr

def Significand.takes (s : Significand) (digit : Nat) : Bool :=
  !s.cut && 10 * s.value + digit < UInt64.size

def Significand.addWhole (s : Significand) (c : Char) : Significand :=
  if s.takes (digitValue c) then { s with value := 10 * s.value + digitValue c }
  else { s with power := s.power + 1, cut := true }

def Significand.addFraction (s : Significand) (c : Char) : Significand :=
  if s.takes (digitValue c) then
    { s with value := 10 * s.value + digitValue c, power := s.power - 1 }
  else { s with cut := true }

def powerOfTen? (n : Nat) : Option Magnitude := Magnitude.ofRatio? (Nat.pow 10 n) 1

/-- One product or quotient with a power of ten. Below the smallest such power the magnitude is
first brought down by the largest one, as often as it takes. -/
def Magnitude.scale? (m : Magnitude) (power : Int) : Option Magnitude :=
  if power.natAbs ≤ 308 then
    (powerOfTen? power.natAbs).bind fun ten => if power < 0 then m.div? ten else m.mul? ten
  else if m = .zero then some m
  else if 0 ≤ power then none
  else ((powerOfTen? 308).bind m.div?).bind fun m => m.scale? (power + 308)
termination_by power.natAbs

/-- The digits of an exponent behind the one that takes it past a signed 32-bit word. -/
def excessDigits? : Nat → List Char → Option (List Char)
  | _, [] => none
  | n, c :: cs =>
    if 10 * n + digitValue c < 0x80000000 then excessDigits? (10 * n + digitValue c) cs else some cs

def NumberText.significand (text : NumberText) : Significand :=
  let whole := text.whole.foldl Significand.addWhole ⟨0, 0, false⟩
  { (text.fraction.getD []).foldl Significand.addFraction { whole with cut := false } with
    cut := whole.cut }

/-- The magnitude of a number that is no integer. If it is out of range, the digits that are not
needed to see that. -/
def NumberText.magnitude (text : NumberText) : Except (List Char) Magnitude :=
  let s := text.significand
  let (negative, digits) := text.exponent.getD (false, [])
  match excessDigits? 0 digits with
  | some excess => if s.value = 0 || negative then .ok .zero else .error excess
  | none =>
    let exponent : Int := Nat.ofDigitChars 10 digits 0
    match (Magnitude.ofRatio? s.value 1).bind fun m =>
      m.scale? (s.power + if negative then -exponent else exponent) with
    | some m => .ok m
    | none => .error []

def NumberText.isInteger (text : NumberText) : Bool :=
  text.fraction.isNone && text.exponent.isNone && !text.significand.cut

/-- Zero behind a minus is a double, and so is a number below the least signed word. -/
def NumberText.number (text : NumberText) (negative : Bool) : Except (List Char) JsonNumber :=
  let n := text.significand.value
  if text.isInteger && !negative then .ok (.integer n)
  else if text.isInteger && 0 < n && n ≤ 0x8000000000000000 then .ok (.integer (-n))
  else text.magnitude.map (.double negative)

def readNumber (negative : Bool) (cs : List Char) : Reading 1 JsonNumber cs := do
  let text ← readNumberText cs
  match text.value.number negative with
  | .ok n => return text.map fun _ => n
  | .error excess => throw ⟨.numberOutOfRange, excess ++ text.rest, 0⟩

end MonicFactor
