import MonicFactor.Json.Reader

/-! Passing over a JSON value that nobody asked for. Its brackets may nest to any depth, its
numbers may be of any size, and its strings may hold half a pair of surrogates. -/

namespace MonicFactor

inductive Bracket
  | list
  | object
deriving DecidableEq, Repr

/-- A number that stops short is faulty here, not unfinished. -/
def skipNumber (cs : List Char) : Reading 1 Unit cs :=
  match readNumberText cs with
  | .ok found => .ok (found.map fun _ => ())
  | .error fault =>
    .error (if fault.kind = .endInValue then { fault with kind := .invalidNumber } else fault)

def skipScalar (cs : List Char) : Reading 1 Unit cs :=
  match cs with
  | [] => .error ⟨.endInValue, [], 1⟩
  | 'n' :: rest => (readWord "ull".toList rest).map (·.behind 'n')
  | 't' :: rest => (readWord "rue".toList rest).map (·.behind 't')
  | 'f' :: rest => (readWord "alse".toList rest).map (·.behind 'f')
  | '-' :: rest => (skipNumber rest).map (·.behind '-')
  | '"' :: rest => (readString false [] rest).map fun found => (found.map fun _ => ()).behind '"'
  | c :: rest =>
    if c.isDigit then skipNumber (c :: rest) else .error ⟨.expectedValue, c :: rest, 1⟩

mutual

/-- From the start of a value to the end of the outermost of the open brackets around it, or to
its own end if there are none. -/
def skipValue (opened : List Bracket) (cs : List Char) : Reading 1 Unit cs :=
  match cs with
  | '[' :: rest =>
    match readNext? rest with
    | none => .error ⟨.endInList, [], 1⟩
    | some next =>
      if next.value = ']' then
        (skipBehind opened next.rest).map fun found => (next.andThen found).behind '['
      else
        (skipValue (.list :: opened) next.onward).map fun found => (next.again found).behind '['
  | '{' :: rest =>
    match readNext? rest with
    | none => .error ⟨.endInObject, [], 1⟩
    | some next =>
      if next.value = '}' then
        (skipBehind opened next.rest).map fun found => (next.andThen found).behind '{'
      else if next.value = '"' then
        (skipMember opened next.rest).map fun found => (next.andThen found).behind '{'
      else .error ⟨.expectedKey, next.onward, 1⟩
  | cs => do
    let scalar ← skipScalar cs
    let found ← skipBehind opened scalar.rest
    return scalar.andThen found
termination_by 2 * cs.length
decreasing_by
  · have := next.within
    simp
    omega
  · have := next.within
    simp [Found.onward]
    omega
  · have := next.within
    simp
    omega
  · have := next.within
    simp
    omega
  · have := scalar.within
    omega

/-- From a key, behind its quote, in an open object. -/
def skipMember (opened : List Bracket) (cs : List Char) : Reading 1 Unit cs := do
  let key ← readString false [] cs
  let colon ← readColon key.rest
  let found ← skipValue (.object :: opened) colon.rest
  return key.andThen (colon.andThen found)
termination_by 2 * cs.length
decreasing_by
  have := key.within
  have := colon.within
  omega

/-- From the end of a value. -/
def skipBehind (opened : List Bracket) (cs : List Char) : Reading 0 Unit cs :=
  match opened with
  | [] => .ok (.here () cs)
  | .list :: outer => do
    let mark ← readListMark cs
    if mark.value then
      let found ← skipValue (.list :: outer) mark.rest
      return (mark.andThen found).loose
    else
      let found ← skipBehind outer mark.rest
      return (mark.andThen found).loose
  | .object :: outer => do
    let mark ← readObjectMark cs
    if mark.value then
      let found ← skipMember outer mark.rest
      return (mark.andThen found).loose
    else
      let found ← skipBehind outer mark.rest
      return (mark.andThen found).loose
termination_by 2 * cs.length
decreasing_by
  all_goals
    have := mark.within
    omega

end

end MonicFactor
