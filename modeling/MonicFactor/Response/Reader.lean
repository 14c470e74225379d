import MonicFactor.Json.Skip
import MonicFactor.Response.Basic

/-! Reading a response from JSON text: an object with the factors and the time, or a list of the
two. The text is read from left to right, and the first problem met is reported. -/

namespace MonicFactor

/-- A text that is JSON may still not have the shape of a response. -/
inductive ResponseFault
  | shape
  | malformed (kind : FaultKind)
deriving DecidableEq, Repr

abbrev Shaped (least : Nat) (α : Type) (cs : List Char) := Except ResponseFault (Found least α cs)

/-- Where any JSON will do, only a malformed text is at fault. -/
def Reading.shaped {least : Nat} {α : Type} {cs : List Char} (reading : Reading least α cs) :
    Shaped least α cs :=
  reading.mapError fun fault => .malformed fault.kind

/-- Why a value is refused that starts like none of the kind asked for. A list or an object is
not looked into. -/
def misfit (cs : List Char) : ResponseFault :=
  match cs with
  | '[' :: _ | '{' :: _ => .shape
  | cs =>
    match readValue 0 cs with
    | .ok _ => .shape
    | .error fault => .malformed fault.kind

def readText (cs : List Char) : Shaped 1 String cs :=
  match cs with
  | '"' :: rest => (readString true [] rest).shaped.map (·.behind '"')
  | cs => .error (misfit cs)

/-- Texts up to the closing bracket, behind those read before, reversed. -/
def readTexts (texts : List String) (cs : List Char) : Shaped 1 (List String) cs := do
  let text ← readText cs
  let mark ← (readListMark text.rest).shaped
  if mark.value then
    let found ← readTexts (text.value :: texts) mark.rest
    return text.andThen (mark.andThen found)
  else return text.andThen (mark.map fun _ => (text.value :: texts).reverse)
termination_by cs.length
decreasing_by
  have := text.within
  have := mark.within
  omega

def readTextList (cs : List Char) : Shaped 1 (List String) cs :=
  match cs with
  | '[' :: rest =>
    match readNext? rest with
    | none => .error (.malformed .endInList)
    | some next =>
      if next.value = ']' then .ok ((next.map fun _ => []).behind '[')
      else (readTexts [] next.onward).map fun found => (next.again found).behind '['
  | cs => .error (misfit cs)

def readListEnd (cs : List Char) : Shaped 1 Unit cs :=
  match readNext? cs with
  | none => .error (.malformed .endInList)
  | some next =>
    if next.value = ']' then .ok (next.map fun _ => ()) else .error (.malformed .trailingText)

/-- The factors and the time as a list of two, from the factors on. -/
def readPair (cs : List Char) : Shaped 1 Response cs := do
  let factors ← readTextList cs
  let mark ← (readListMark factors.rest).shaped
  if !mark.value then throw .shape
  let time ← readText mark.rest
  let ending ← readListEnd time.rest
  return factors.andThen (mark.andThen (time.andThen (ending.map fun _ =>
    ⟨factors.value, time.value⟩)))

structure PartialResponse where
  factors : Option (List String)
  time : Option String
deriving DecidableEq, Repr

def PartialResponse.finish (response : PartialResponse) : Except ResponseFault Response :=
  match response.factors, response.time with
  | some factors, some time => .ok ⟨factors, time⟩
  | _, _ => .error .shape

/-- The colon and the value behind a key. A key that comes again is refused in front of its
colon, and what an unknown key holds is passed over. -/
def PartialResponse.readField (response : PartialResponse) (key : String) (cs : List Char) :
    Shaped 1 PartialResponse cs := do
  if (key == "factors" && response.factors.isSome) || (key == "time" && response.time.isSome) then
    throw .shape
  let colon ← (readColon cs).shaped
  if key == "factors" then
    let found ← readTextList colon.rest
    return colon.andThen (found.map fun factors => { response with factors := some factors })
  else if key == "time" then
    let found ← readText colon.rest
    return colon.andThen (found.map fun time => { response with time := some time })
  else
    let found ← (skipValue [] colon.rest).shaped
    return colon.andThen (found.map fun _ => response)

/-- Members up to the closing brace; the quote of the first key has been read. -/
def PartialResponse.readFields (response : PartialResponse) (cs : List Char) :
    Shaped 1 Response cs := do
  let key ← (readString true [] cs).shaped
  let field ← response.readField key.value key.rest
  let mark ← (readObjectMark field.rest).shaped
  if mark.value then
    let found ← field.value.readFields mark.rest
    return key.andThen (field.andThen (mark.andThen found))
  else
    let response ← field.value.finish
    return key.andThen (field.andThen (mark.map fun _ => response))
termination_by cs.length
decreasing_by
  have := key.within
  have := field.within
  have := mark.within
  omega

def readResponse (cs : List Char) : Shaped 1 Response cs :=
  match cs with
  | '[' :: rest =>
    match readNext? rest with
    | none => .error (.malformed .endInList)
    | some next =>
      if next.value = ']' then .error .shape
      else (readPair next.onward).map fun found => (next.again found).behind '['
  | '{' :: rest =>
    match readNext? rest with
    | none => .error (.malformed .endInObject)
    | some next =>
      if next.value = '}' then .error .shape
      else if next.value = '"' then
        (PartialResponse.readFields ⟨none, none⟩ next.rest).map fun found =>
          (next.andThen found).behind '{'
      else .error (.malformed .expectedKey)
  | cs => .error (misfit cs)

def Response.read (text : String) : Except ResponseFault Response := do
  let found ← readResponse (skipGap text.toList)
  match readNext? found.rest with
  | none => return found.value
  | some _ => throw (.malformed .trailingText)

end MonicFactor
