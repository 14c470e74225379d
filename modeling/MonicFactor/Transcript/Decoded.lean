import MonicFactor.Text.Character

/-! The lines of a transcript, and what the transcript of a factorization says: behind the last
marker stand the factors, one on a line, and then a line that closes with the elapsed time. -/

namespace MonicFactor

/-- A line without its line end, and whether a newline ended it. -/
structure Line where
  content : List Char
  ended : Bool
deriving DecidableEq, Repr

/-- A carriage return directly before the newline belongs to the line end. -/
def dropReturn : List Char → List Char
  | '\r' :: cs => cs
  | cs => cs

/-- The lines of a text behind the reversed beginning of its first line. A text that ends with
a newline, or is empty, has no line behind it. -/
def Line.splitFrom : List Char → List Char → List Line
  | [], [] => []
  | c :: current, [] => [⟨(c :: current).reverse, false⟩]
  | current, '\n' :: cs => ⟨(dropReturn current).reverse, true⟩ :: splitFrom [] cs
  | current, c :: cs => splitFrom (c :: current) cs

def Line.split (text : List Char) : List Line := splitFrom [] text

def Line.isBlank (line : Line) : Bool := line.content.all MonicFactor.isBlank

/-- Moves leftwards through a text, the part to the left reversed, until the pattern starts here. -/
def splitLastFrom (pattern : List Char) : List Char → List Char → Option (List Char × List Char)
  | [], after => if pattern.isPrefixOf after then some ([], after) else none
  | c :: before, after =>
    if pattern.isPrefixOf after then some ((c :: before).reverse, after)
    else splitLastFrom pattern before (c :: after)

def splitLast (pattern text : List Char) : Option (List Char × List Char) :=
  splitLastFrom pattern text.reverse []

theorem splitLastFrom_append {pattern before after left right : List Char}
    (h : splitLastFrom pattern before after = some (left, right)) :
    left ++ right = before.reverse ++ after := by
  induction before generalizing after with
  | nil =>
    simp only [splitLastFrom] at h
    split at h <;> simp_all
  | cons c before ih =>
    simp only [splitLastFrom] at h
    split at h
    · simp_all
    · simpa using ih h

theorem splitLast_append {pattern text left right : List Char}
    (h : splitLast pattern text = some (left, right)) : left ++ right = text := by
  simpa using splitLastFrom_append h

/-- All of a text if the character does not occur in it. -/
def afterLast (c : Char) (cs : List Char) : List Char := (cs.reverse.takeWhile (· != c)).reverse

def marker : List Char := "Factorization:".toList

structure Decoded where
  factors : List String
  elapsed : String
  transcript : String
deriving DecidableEq, Repr

/-- A line such as `Time: 2ms` tells the time behind its last colon. -/
def elapsedOf (line : List Char) : List Char := trim (afterLast ':' line)

/-- Without a marker there are no factors, and the time is read from the last line there is. -/
def decode (transcript : String) : Decoded :=
  let (listing, found) := match splitLast marker transcript.toList with
    | some (_, rest) => (rest.drop marker.length, true)
    | none => (transcript.toList, false)
  let lines := ((Line.split listing).filter fun line => !line.isBlank).map Line.content
  { factors := if found then lines.dropLast.map String.ofList else []
    elapsed := String.ofList ((lines.getLast?.map elapsedOf).getD [])
    transcript }

def Decoded.foundMarker (decoded : Decoded) : Bool :=
  (splitLast marker decoded.transcript.toList).isSome

end MonicFactor
