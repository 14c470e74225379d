import MonicFactor.Polynomial.Scan

/-! Monic polynomials with 64-bit coefficients, summed from terms. -/

namespace MonicFactor

/-- A monic polynomial: its coefficients below the leading one, lowest exponent first. -/
structure Monic where
  lower : List Int
deriving DecidableEq, Repr

def Monic.degree (p : Monic) : Nat := p.lower.length

def Monic.coefficients (p : Monic) : List Int := p.lower ++ [1]

theorem Monic.coefficients_ne_nil (p : Monic) : p.coefficients ≠ [] := by simp [coefficients]

def Monic.leading (p : Monic) : Int := p.coefficients.getLast p.coefficients_ne_nil

def Monic.csv (p : Monic) : String := ",".intercalate (p.coefficients.map toString)

def FitsWord (n : Int) : Prop := -0x8000000000000000 ≤ n ∧ n < 0x8000000000000000

instance (n : Int) : Decidable (FitsWord n) := inferInstanceAs (Decidable (_ ∧ _))

/-- Sums of coefficients by exponent, each exponent once and in falling order. -/
abbrev Sums := List (Nat × Int)

/-- Adds to the sum of one exponent, unless the new sum does not fit. -/
def Sums.add (exponent : Nat) (coefficient : Int) : Sums → Option Sums
  | [] => if FitsWord coefficient then some [(exponent, coefficient)] else none
  | (e, sum) :: rest =>
    if e < exponent then
      if FitsWord coefficient then some ((exponent, coefficient) :: (e, sum) :: rest) else none
    else if e = exponent then
      if FitsWord (sum + coefficient) then some ((e, sum + coefficient) :: rest) else none
    else (add exponent coefficient rest).map ((e, sum) :: ·)

def Sums.addTerm (sums : Sums) (term : Term) : Except ConstraintError Sums :=
  match sums.add term.exponent term.coefficient with
  | some sums => .ok sums
  | none => .error (.coefficientOverflow term.exponent)

/-- The largest exponent, though its sum may be zero, with its sum. -/
def Sums.top (sums : Sums) : Nat × Int := sums.head?.getD (0, 0)

/-- The sums of the exponents below a bound, lowest first, in front of `higher`. -/
def Sums.below : Nat → Sums → List Int → List Int
  | 0, _, higher => higher
  | n + 1, [], higher => below n [] (0 :: higher)
  | n + 1, (e, sum) :: rest, higher =>
    if e = n then below n rest (sum :: higher) else below n ((e, sum) :: rest) (0 :: higher)

/-- No polynomial has a larger degree, whatever bound is asked for. -/
def supportedDegree : Nat := 0x10000

def degreeBound (bound : Option Nat) : Nat := min (bound.getD supportedDegree) supportedDegree

/-- Sums are formed in the order of the terms, so a sum that leaves the word on the way is
reported even if later terms would bring it back. -/
def Monic.ofTerms (bound : Option Nat) (terms : List Term) : Except ConstraintError Monic := do
  let sums ← terms.foldlM Sums.addTerm []
  let (degree, leading) := Sums.top sums
  if degreeBound bound < degree then .error (.degreeTooLarge degree (degreeBound bound))
  else if leading ≠ 1 then .error (.notMonic leading)
  else .ok ⟨Sums.below degree sums.tail []⟩

/-- An error of format is reported before any constraint is looked at. -/
def Monic.read (bound : Option Nat) (expression : String) : Except PolynomialError Monic := do
  let terms ← (readTerms expression).mapError .format
  (Monic.ofTerms bound terms).mapError .constraint

end MonicFactor
