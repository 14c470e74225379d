import MonicFactor.Json.Value

/-! Reading JSON text. The first fault met from the left is reported. -/

namespace MonicFactor

def readWord : List Char → (cs : List Char) → Reading 0 Unit cs
  | [], cs => .ok (.here () cs)
  | _ :: _, [] => .error ⟨.endInValue, [], 0⟩
  | letter :: word, c :: cs =>
    if c = letter then (readWord word cs).map fun found => (found.behind c).loose
    else .error ⟨.expectedWord, c :: cs, 1⟩

def depthLimit : Nat := 127

def readColon (cs : List Char) : Reading 1 Unit cs :=
  match readNext? cs with
  | none => .error ⟨.endInObject, [], 1⟩
  | some next =>
    if next.value = ':' then .ok (next.andThen (readGap next.rest))
    else .error ⟨.expectedColon, next.onward, 1⟩

/-- What follows an item of a list: true in front of another item. -/
def readListMark (cs : List Char) : Reading 1 Bool cs :=
  match readNext? cs with
  | none => .error ⟨.endInList, [], 1⟩
  | some next =>
    if next.value = ']' then .ok (next.map fun _ => false)
    else if next.value = ',' then
      match readNext? next.rest with
      | none => .error ⟨.endInValue, [], 1⟩
      | some item =>
        if item.value = ']' then .error ⟨.trailingComma, item.onward, 1⟩
        else .ok (next.andThen ((readGap next.rest).map fun _ => true))
    else .error ⟨.expectedCommaInList, next.onward, 1⟩

/-- What follows a member of an object: true in front of another key, whose quote is read. -/
def readObjectMark (cs : List Char) : Reading 1 Bool cs :=
  match readNext? cs with
  | none => .error ⟨.endInObject, [], 1⟩
  | some next =>
    if next.value = '}' then .ok (next.map fun _ => false)
    else if next.value = ',' then
      match readNext? next.rest with
      | none => .error ⟨.endInValue, [], 1⟩
      | some key =>
        if key.value = '"' then .ok (next.andThen (key.map fun _ => true))
        else if key.value = '}' then .error ⟨.trailingComma, key.onward, 1⟩
        else .error ⟨.expectedKey, key.onward, 1⟩
    else .error ⟨.expectedCommaInObject, next.onward, 1⟩

mutual

/-- A value that starts right here, with room for so many lists and objects inside one another. -/
def readValue (room : Nat) (cs : List Char) : Reading 1 Json cs :=
  match cs with
  | [] => .error ⟨.endInValue, [], 1⟩
  | 'n' :: rest =>
    (readWord "ull".toList rest).map fun found => (found.map fun _ => .null).behind 'n'
  | 't' :: rest =>
    (readWord "rue".toList rest).map fun found => (found.map fun _ => .bool true).behind 't'
  | 'f' :: rest =>
    (readWord "alse".toList rest).map fun found => (found.map fun _ => .bool false).behind 'f'
  | '-' :: rest => (readNumber true rest).map fun found => (found.map .number).behind '-'
  | '"' :: rest => (readString true [] rest).map fun found => (found.map .string).behind '"'
  | '[' :: rest =>
    match room, readNext? rest with
    | 0, _ => .error ⟨.tooDeep, '[' :: rest, 1⟩
    | _ + 1, none => .error ⟨.endInList, [], 1⟩
    | room + 1, some next =>
      if next.value = ']' then .ok ((next.map fun _ => .list []).behind '[')
      else (readItems room [] next.onward).map fun found =>
        (next.again (found.map .list)).behind '['
  | '{' :: rest =>
    match room, readNext? rest with
    | 0, _ => .error ⟨.tooDeep, '{' :: rest, 1⟩
    | _ + 1, none => .error ⟨.endInObject, [], 1⟩
    | room + 1, some next =>
      if next.value = '}' then .ok ((next.map fun _ => .object []).behind '{')
      else if next.value = '"' then
        (readMembers room [] next.rest).map fun found =>
          (next.andThen (found.map .object)).behind '{'
      else .error ⟨.expectedKey, next.onward, 1⟩
  | c :: rest =>
    if c.isDigit then (readNumber false (c :: rest)).map fun found => found.map .number
    else .error ⟨.expectedValue, c :: rest, 1⟩
termination_by 2 * cs.length
decreasing_by
  all_goals
    have := next.within
    simp [Found.onward]
    omega

/-- Items up to the closing bracket, behind those read before, reversed. -/
def readItems (room : Nat) (items : List Json) (cs : List Char) : Reading 1 (List Json) cs := do
  let item ← readValue room cs
  let mark ← readListMark item.rest
  if mark.value then
    let found ← readItems room (item.value :: items) mark.rest
    return item.andThen (mark.andThen found)
  else return item.andThen (mark.map fun _ => (item.value :: items).reverse)
termination_by 2 * cs.length + 1
decreasing_by
  · omega
  · have := item.within
    have := mark.within
    omega

/-- Members up to the closing brace; the quote of the first key has been read. -/
def readMembers (room : Nat) (members : List (String × Json)) (cs : List Char) :
    Reading 1 (List (String × Json)) cs := do
  let key ← readString true [] cs
  let colon ← readColon key.rest
  let value ← readValue room colon.rest
  let mark ← readObjectMark value.rest
  let members := insertMember key.value value.value members
  let member := key.andThen (colon.andThen value)
  if mark.value then
    let found ← readMembers room members mark.rest
    return member.andThen (mark.andThen found)
  else return member.andThen (mark.map fun _ => members)
termination_by 2 * cs.length + 1
decreasing_by
  · have := key.within
    have := colon.within
    omega
  · have := key.within
    have := colon.within
    have := value.within
    have := mark.within
    omega

end

def Json.read (text : String) : Except Fault Json := do
  let found ← readValue depthLimit (skipGap text.toList)
  match readNext? found.rest with
  | none => return found.value
  | some next => throw ⟨.trailingText, next.onward, 1⟩

end MonicFactor
