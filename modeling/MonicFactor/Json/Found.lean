import MonicFactor.Json.Fault

/-! Reading a text from its start: what was found there, and the text that is left. -/

namespace MonicFactor

/-- What was read from the start of a text, `least` characters or more, and the text behind it. -/
structure Found (least : Nat) (α : Type) (cs : List Char) where
  value : α
  rest : List Char
  within : rest.length + least ≤ cs.length

abbrev Reading (least : Nat) (α : Type) (cs : List Char) := Except Fault (Found least α cs)

namespace Found

variable {least more : Nat} {α β : Type} {cs : List Char}

def here (value : α) (cs : List Char) : Found 0 α cs := ⟨value, cs, Nat.le_refl _⟩

def map (f : α → β) (found : Found least α cs) : Found least β cs :=
  ⟨f found.value, found.rest, found.within⟩

def behind (c : Char) (found : Found least α cs) : Found 1 α (c :: cs) :=
  ⟨found.value, found.rest,
    Nat.succ_le_succ (Nat.le_trans (Nat.le_add_right _ _) found.within)⟩

/-- What is read next takes the place of what has been read. -/
def andThen (first : Found least α cs) (second : Found more β first.rest) : Found least β cs :=
  ⟨second.value, second.rest, Nat.le_trans
    (Nat.add_le_add_right (Nat.le_trans (Nat.le_add_right _ _) second.within) _) first.within⟩

def loose (found : Found least α cs) : Found 0 α cs :=
  ⟨found.value, found.rest, Nat.le_trans (Nat.le_add_right _ _) found.within⟩

/-- The text from the character on that has been found. -/
def onward (found : Found 1 Char cs) : List Char := found.value :: found.rest

/-- What is read with that character once more. -/
def again (next : Found 1 Char cs) (found : Found more β next.onward) : Found more β cs :=
  ⟨found.value, found.rest, Nat.le_trans found.within next.within⟩

end Found

def isGap (c : Char) : Bool := c == ' ' || c == '\n' || c == '\t' || c == '\r'

def skipGap (cs : List Char) : List Char := cs.dropWhile isGap

theorem length_dropWhile_le (p : Char → Bool) (cs : List Char) :
    (cs.dropWhile p).length ≤ cs.length :=
  (List.dropWhile_suffix p).length_le

theorem length_le_of_skipGap {cs rest : List Char} {c : Char} (h : skipGap cs = c :: rest) :
    rest.length + 1 ≤ cs.length := by
  have le := length_dropWhile_le isGap cs
  rw [show cs.dropWhile isGap = c :: rest from h] at le
  exact le

def readGap (cs : List Char) : Found 0 Unit cs := ⟨(), skipGap cs, length_dropWhile_le isGap cs⟩

def readNext? (cs : List Char) : Option (Found 1 Char cs) :=
  match h : skipGap cs with
  | [] => none
  | c :: rest => some ⟨c, rest, length_le_of_skipGap h⟩

def readDigitRun (cs : List Char) : Found 0 (List Char) cs :=
  ⟨cs.takeWhile Char.isDigit, cs.dropWhile Char.isDigit, length_dropWhile_le Char.isDigit cs⟩

end MonicFactor
