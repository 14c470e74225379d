import MonicFactor.Numeral
import MonicFactor.Text.Character
import MonicFactor.Polynomial.Term

/-! Reading the terms of an expression. The reader takes one character at a time, and every
error is decided by the characters up to the one it is raised at. -/

namespace MonicFactor

structure Cell where
  column : Nat
  char : Char
deriving DecidableEq, Repr

/-- The characters that matter: blanks are passed over, capitals of ASCII are lowered. -/
def cells : Nat → List Char → List Cell
  | _, [] => []
  | column, c :: cs =>
    if isBlank c then cells (column + 1) cs else ⟨column, c.toLower⟩ :: cells (column + 1) cs

inductive Symbol
  | plus
  | minus
  | star
  | caret
  | dot
  | x
  | digit (value : Nat)
  | letter
  | other
deriving DecidableEq, Repr

def Cell.symbol (cell : Cell) : Symbol :=
  match cell.char with
  | '+' => .plus
  | '-' => .minus
  | '*' => .star
  | '^' => .caret
  | '.' => .dot
  | 'x' => .x
  | c => if c.isDigit then .digit (digitValue c) else if isLetter c then .letter else .other

inductive Mode
  /-- Nothing, or a minus at the given column that waits for its term. -/
  | idle (minus : Option Nat)
  | coefficient (negative : Bool) (start value : Nat)
  | star (coeff : Int) (column : Nat)
  | base (coeff : Int)
  | caret (coeff : Int) (column : Nat)
  | exponent (coeff : Int) (start value : Nat)
deriving DecidableEq, Repr

def signed (negative : Bool) (value : Nat) : Int := if negative then -value else value

def extend (start value digit : Nat) : Except FormatError Nat :=
  if 10 * value + digit ≤ maxMagnitude then .ok (10 * value + digit) else .error (.outOfRange start)

/-- The error of a character that can neither start a term nor end one. -/
def Cell.refusal (cell : Cell) : FormatError :=
  match cell.symbol with
  | .x => .repeatedVariable cell.column
  | .letter => .unsupportedVariable cell.char cell.column
  | _ => .unexpectedCharacter cell.char cell.column

/-- Behind a complete term only a sign may stand. -/
def Cell.close (cell : Cell) (term : Term) : Except FormatError (Option Term × Mode) :=
  match cell.symbol with
  | .plus => .ok (some term, .idle none)
  | .minus => .ok (some term, .idle (some cell.column))
  | _ => .error cell.refusal

/-- The term that a character completes, if it completes one, and the mode behind it. -/
def Mode.step (mode : Mode) (cell : Cell) : Except FormatError (Option Term × Mode) :=
  match mode, cell.symbol with
  | .idle (some column), .plus | .idle (some column), .minus => .error (.danglingSign column)
  | .idle none, .plus => .ok (none, .idle none)
  | .idle none, .minus => .ok (none, .idle (some cell.column))
  | .idle minus, .digit digit => .ok (none, .coefficient minus.isSome cell.column digit)
  | .idle minus, .x => .ok (none, .base (signed minus.isSome 1))
  | .idle _, .dot => .error (.nonIntegerCoefficient cell.column)
  | .idle _, _ => .error cell.refusal
  | .coefficient negative start value, .digit digit =>
    (extend start value digit).map fun value => (none, .coefficient negative start value)
  | .coefficient _ _ _, .dot => .error (.nonIntegerCoefficient cell.column)
  | .coefficient negative _ value, .star => .ok (none, .star (signed negative value) cell.column)
  | .coefficient negative _ value, .x => .ok (none, .base (signed negative value))
  | .coefficient _ _ _, .caret => .error (.exponentWithoutVariable cell.column)
  | .coefficient negative _ value, _ => cell.close ⟨signed negative value, 0⟩
  | .star coeff _, .x => .ok (none, .base coeff)
  | .star _ _, .letter => .error cell.refusal
  | .star _ column, _ => .error (.missingVariable column)
  | .base coeff, .caret => .ok (none, .caret coeff cell.column)
  | .base coeff, _ => cell.close ⟨coeff, 1⟩
  | .caret coeff _, .digit digit => .ok (none, .exponent coeff cell.column digit)
  | .caret _ _, .minus | .caret _ _, .dot => .error (.nonIntegerExponent cell.column)
  | .caret _ column, _ => .error (.missingExponent column)
  | .exponent coeff start value, .digit digit =>
    (extend start value digit).map fun value => (none, .exponent coeff start value)
  | .exponent _ start _, .dot => .error (.nonIntegerExponent start)
  | .exponent coeff _ value, _ => cell.close ⟨coeff, value⟩

def Mode.finish : Mode → Except FormatError (Option Term)
  | .idle none => .ok none
  | .idle (some column) => .error (.danglingSign column)
  | .coefficient negative _ value => .ok (some ⟨signed negative value, 0⟩)
  | .star _ column => .error (.missingVariable column)
  | .base coeff => .ok (some ⟨coeff, 1⟩)
  | .caret _ column => .error (.missingExponent column)
  | .exponent coeff _ value => .ok (some ⟨coeff, value⟩)

/-- Complete terms, the latest first, and the mode behind them. -/
structure Scan where
  terms : List Term
  mode : Mode
deriving DecidableEq, Repr

def Scan.step (scan : Scan) (cell : Cell) : Except FormatError Scan :=
  (scan.mode.step cell).map fun next => ⟨next.1.toList ++ scan.terms, next.2⟩

def Scan.finish (scan : Scan) : Except FormatError (List Term) :=
  scan.mode.finish.map fun last => (last.toList ++ scan.terms).reverse

def readTerms (expression : String) : Except FormatError (List Term) := do
  let scan ← (cells 1 expression.toList).foldlM Scan.step ⟨[], .idle none⟩
  scan.finish

end MonicFactor
