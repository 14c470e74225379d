/-! Characters out of octets. A malformed stretch stands for one unreadable character: the
longest run that begins some well-formed sequence, or a single octet that begins none. -/

namespace MonicFactor

abbrev Octets := List UInt8

/-- A decoder stands before a character, or inside one: the bits read so far, the range the
next octet must lie in, and how many octets follow that one. -/
inductive Utf8.State
  | start
  | inside (code low high more : Nat)
deriving DecidableEq, Repr

/-- The state behind an octet that stands where a character begins. A second octet of a
narrower range keeps out overlong forms, surrogates, and what lies beyond U+10FFFF. -/
def Utf8.first (octet : UInt8) : List (Option Char) × Utf8.State :=
  let n := octet.toNat
  if n < 0x80 then ([some (Char.ofNat n)], .start)
  else if n < 0xC2 then ([none], .start)
  else if n < 0xE0 then ([], .inside (n - 0xC0) 0x80 0xBF 0)
  else if n < 0xF0 then
    ([], .inside (n - 0xE0) (if n = 0xE0 then 0xA0 else 0x80) (if n = 0xED then 0x9F else 0xBF) 1)
  else if n < 0xF5 then
    ([], .inside (n - 0xF0) (if n = 0xF0 then 0x90 else 0x80) (if n = 0xF4 then 0x8F else 0xBF) 2)
  else ([none], .start)

def Utf8.step : Utf8.State → UInt8 → List (Option Char) × Utf8.State
  | .start, octet => first octet
  | .inside code low high more, octet =>
    let n := octet.toNat
    if low ≤ n ∧ n ≤ high then
      let code := code * 64 + (n - 0x80)
      match more with
      | 0 => ([some (Char.ofNat code)], .start)
      | more + 1 => ([], .inside code 0x80 0xBF more)
    else
      let (found, state) := first octet
      (none :: found, state)

def Utf8.finish : Utf8.State → List (Option Char)
  | .start => []
  | .inside .. => [none]

def Utf8.read : Utf8.State → Octets → List (Option Char)
  | state, [] => finish state
  | state, octet :: rest => (step state octet).1 ++ read (step state octet).2 rest

/-- Every unreadable character becomes U+FFFD. -/
def Utf8.decodeLossy (octets : Octets) : String :=
  String.ofList ((read .start octets).map fun c => c.getD '\uFFFD')

def Utf8.decode? (octets : Octets) : Option String :=
  ((read .start octets).mapM id).map String.ofList

def Utf8.encode (cs : List Char) : Octets := cs.flatMap String.utf8EncodeChar

def Utf8.size (cs : List Char) : Nat := cs.foldr (fun c n => c.utf8Size + n) 0

end MonicFactor
