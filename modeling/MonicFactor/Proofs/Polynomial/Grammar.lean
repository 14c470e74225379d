import MonicFactor.Polynomial.Term

/-! The grammar of expressions, stated without a reader: derivation trees, the text that a tree
derives, and the terms that it denotes.

    Expression ::= '+'* [ ['-'] Term (Separator Term)* ] '+'*
    Separator  ::= '+'+ ['-'] | '-'
    Term       ::= Integer | [Integer ['*']] 'x' ['^' Integer] -/

namespace MonicFactor

/-- Decimal digits, leading zeros allowed, of a number that is not too large. -/
structure Numeral where
  digits : List Char
  digits_ne_nil : digits ≠ []
  isDigit : ∀ c ∈ digits, c.isDigit = true
  le_maxMagnitude : Nat.ofDigitChars 10 digits 0 ≤ maxMagnitude

def Numeral.value (n : Numeral) : Nat := Nat.ofDigitChars 10 n.digits 0

/-- A term without its sign: a number, or `x` with a coefficient and an exponent, both optional.
Behind the coefficient there may be a star. -/
inductive Monomial
  | constant (value : Numeral)
  | power (coefficient : Option (Numeral × Bool)) (exponent : Option Numeral)

/-- What stands between two terms: a plus, more of them, and a minus, or a minus alone. -/
inductive Separator
  | pluses (more : Nat) (negative : Bool)
  | minus

structure SignedSum where
  negative : Bool
  first : Monomial
  rest : List (Separator × Monomial)

/-- A derivation of an expression. Pluses may stand before and behind its sum, or alone. -/
structure Derivation where
  leading : Nat
  sum : Option SignedSum
  trailing : Nat

def signText (negative : Bool) : List Char := if negative then ['-'] else []

def coefficientText : Option (Numeral × Bool) → List Char
  | none => []
  | some (n, star) => n.digits ++ if star then ['*'] else []

def exponentText : Option Numeral → List Char
  | none => []
  | some n => '^' :: n.digits

def Monomial.text : Monomial → List Char
  | constant n => n.digits
  | power coefficient exponent => coefficientText coefficient ++ 'x' :: exponentText exponent

def Separator.text : Separator → List Char
  | pluses more negative => '+' :: List.replicate more '+' ++ signText negative
  | minus => ['-']

def linkText (link : Separator × Monomial) : List Char := link.1.text ++ link.2.text

def SignedSum.text (s : SignedSum) : List Char :=
  signText s.negative ++ s.first.text ++ s.rest.flatMap linkText

def Derivation.text (d : Derivation) : List Char :=
  List.replicate d.leading '+' ++ d.sum.elim [] SignedSum.text ++ List.replicate d.trailing '+'

/-- A coefficient that is not written is one, and so is an exponent behind `x`. -/
def Monomial.term (negative : Bool) : Monomial → Term
  | constant n => ⟨(if negative then -1 else 1) * n.value, 0⟩
  | power coefficient exponent =>
    ⟨(if negative then -1 else 1) * coefficient.elim 1 (fun c => c.1.value),
      exponent.elim 1 Numeral.value⟩

def Separator.negative : Separator → Bool
  | pluses _ negative => negative
  | minus => true

def linkTerm (link : Separator × Monomial) : Term := link.2.term link.1.negative

def SignedSum.terms (s : SignedSum) : List Term := s.first.term s.negative :: s.rest.map linkTerm

def Derivation.terms (d : Derivation) : List Term := d.sum.elim [] SignedSum.terms

end MonicFactor
