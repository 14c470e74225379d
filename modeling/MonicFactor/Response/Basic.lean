import MonicFactor.Json.Text
import MonicFactor.Transcript.Decoded

/-! The answer to a job as JSON text, on one line or laid out over several. -/

namespace MonicFactor

structure Response where
  factors : List String
  time : String
deriving DecidableEq, Repr

def Response.ofDecoded (decoded : Decoded) : Response := ⟨decoded.factors, decoded.elapsed⟩

/-- The gaps between the parts of a JSON text: behind a colon, and in front of each part, by how
many brackets are open there. -/
structure Spacing where
  behindColon : List Char
  line : Nat → List Char

def Spacing.compact : Spacing := ⟨[], fun _ => []⟩

def Spacing.pretty : Spacing := ⟨[' '], fun depth => '\n' :: List.replicate (2 * depth) ' '⟩

/-- The texts behind the first one, and the bracket that closes their list. -/
def Spacing.renderTexts (spacing : Spacing) : List String → List Char
  | [] => spacing.line 1 ++ [']']
  | text :: texts => ',' :: spacing.line 2 ++ quote text.toList ++ renderTexts spacing texts

/-- An empty list has no gap inside. -/
def Spacing.renderList (spacing : Spacing) : List String → List Char
  | [] => ['[', ']']
  | text :: texts =>
    '[' :: spacing.line 2 ++ quote text.toList ++ spacing.renderTexts texts

def Spacing.renderKey (spacing : Spacing) (key : String) : List Char :=
  spacing.line 1 ++ quote key.toList ++ ':' :: spacing.behindColon

def Response.render (spacing : Spacing) (response : Response) : String :=
  String.ofList ('{' :: spacing.renderKey "factors" ++ spacing.renderList response.factors ++
    ',' :: spacing.renderKey "time" ++ quote response.time.toList ++ spacing.line 0 ++ ['}'])

end MonicFactor
