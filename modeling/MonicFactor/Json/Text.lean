import MonicFactor.Json.Found

/-! Strings as they are written in JSON. -/

namespace MonicFactor

/-- Quotes, backslashes and characters below a space are escaped, the common ones by a letter. -/
def quoteChar (c : Char) : List Char :=
  match c with
  | '"' => ['\\', '"']
  | '\\' => ['\\', '\\']
  | '\x08' => ['\\', 'b']
  | '\x0c' => ['\\', 'f']
  | '\n' => ['\\', 'n']
  | '\r' => ['\\', 'r']
  | '\t' => ['\\', 't']
  | c =>
    if c.toNat < 0x20 then
      ['\\', 'u', '0', '0', Nat.digitChar (c.toNat / 16), Nat.digitChar (c.toNat % 16)]
    else [c]

def quote (cs : List Char) : List Char := '"' :: cs.flatMap quoteChar ++ ['"']

def hexValue? (c : Char) : Option Nat :=
  if c.isDigit then some (c.toNat - '0'.toNat)
  else if 'a' ≤ c ∧ c ≤ 'f' then some (c.toNat - 'a'.toNat + 10)
  else if 'A' ≤ c ∧ c ≤ 'F' then some (c.toNat - 'A'.toNat + 10)
  else none

/-- An escape always takes four octets, if the text has as many, before they are looked at. -/
def faultyHex (cs : List Char) : Fault :=
  if Utf8.size (cs.take 4) < 4 then ⟨.endInString, [], 0⟩ else ⟨.invalidEscape, cs, 4⟩

def readHex (cs : List Char) : Reading 1 Nat cs :=
  match cs with
  | a :: b :: c :: d :: rest =>
    match hexValue? a, hexValue? b, hexValue? c, hexValue? d with
    | some p, some q, some r, some s =>
      let code := Found.here (((p * 16 + q) * 16 + r) * 16 + s) rest
      .ok ((((code.behind d).behind c).behind b).behind a)
    | _, _, _, _ => .error (faultyHex (a :: b :: c :: d :: rest))
  | cs => .error (faultyHex cs)

def isLeadingSurrogate (n : Nat) : Bool := 0xD800 ≤ n && n ≤ 0xDBFF

def isTrailingSurrogate (n : Nat) : Bool := 0xDC00 ≤ n && n ≤ 0xDFFF

/-- The text behind the `\u` that must follow a leading surrogate. -/
def readSecondEscape (cs : List Char) : Reading 1 Unit cs :=
  match cs with
  | '\\' :: 'u' :: rest => .ok (((Found.here () rest).behind 'u').behind '\\')
  | [] | ['\\'] => .error ⟨.endInString, [], 0⟩
  | '\\' :: cs => .error ⟨.unfinishedEscape, cs, 1⟩
  | cs => .error ⟨.unfinishedEscape, cs, 1⟩

/-- The character behind `\u`. Characters above U+FFFF are written as two surrogates. Where
nothing is kept of a string, `paired` is false, and any four digits will do. -/
def readUnicode (paired : Bool) (cs : List Char) : Reading 1 Char cs := do
  let first ← readHex cs
  if !paired then return first.map Char.ofNat
  if isTrailingSurrogate first.value then throw ⟨.loneSurrogate, first.rest, 0⟩
  if !isLeadingSurrogate first.value then return first.map Char.ofNat
  let mark ← readSecondEscape first.rest
  let second ← readHex mark.rest
  if !isTrailingSurrogate second.value then throw ⟨.loneSurrogate, second.rest, 0⟩
  let code := 0x10000 + (first.value - 0xD800) * 0x400 + (second.value - 0xDC00)
  return first.andThen (mark.andThen (second.map fun _ => Char.ofNat code))

def escapedChar? : Char → Option Char
  | '"' => some '"'
  | '\\' => some '\\'
  | '/' => some '/'
  | 'b' => some '\x08'
  | 'f' => some '\x0c'
  | 'n' => some '\n'
  | 'r' => some '\r'
  | 't' => some '\t'
  | _ => none

def readEscape (paired : Bool) (cs : List Char) : Reading 1 Char cs :=
  match cs with
  | [] => .error ⟨.endInString, [], 0⟩
  | 'u' :: rest => (readUnicode paired rest).map (·.behind 'u')
  | c :: rest =>
    match escapedChar? c with
    | some char => .ok ((Found.here char rest).behind c)
    | none => .error ⟨.invalidEscape, c :: rest, 1⟩

def readCharacter (paired : Bool) (c : Char) (cs : List Char) : Reading 1 Char (c :: cs) :=
  if c = '\\' then (readEscape paired cs).map (·.behind c)
  else if c.toNat < 0x20 then .error ⟨.controlCharacter, c :: cs, 1⟩
  else .ok ((Found.here c cs).behind c)

/-- The rest of a string, up to its closing quote; `read` holds its beginning, reversed. -/
def readString (paired : Bool) (read cs : List Char) : Reading 1 String cs :=
  match cs with
  | [] => .error ⟨.endInString, [], 0⟩
  | '"' :: rest => .ok ((Found.here (String.ofList read.reverse) rest).behind '"')
  | c :: rest => do
    let next ← readCharacter paired c rest
    let found ← readString paired (next.value :: read) next.rest
    return next.andThen found
termination_by cs.length
decreasing_by exact next.within

end MonicFactor
