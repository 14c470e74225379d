import MonicFactor.Transcript.Decoded

/-! A transcript or a diagnostic text shown as a page. In the body of a page four characters are
written as entities, and lines and the steps of a trace are marked. -/

namespace MonicFactor

def escapeChar : Char → List Char
  | '&' => "&amp;".toList
  | '<' => "&lt;".toList
  | '>' => "&gt;".toList
  | '"' => "&quot;".toList
  | c => [c]

def escape (cs : List Char) : List Char := cs.flatMap escapeChar

theorem escape_append (s t : List Char) : escape (s ++ t) = escape s ++ escape t :=
  List.flatMap_append

/-- A step of the trace stands between two arrows. -/
inductive Piece
  | opening
  | closing
  | char (c : Char)
deriving DecidableEq, Repr

def Piece.split : List Char → List Piece
  | [] => []
  | '-' :: '-' :: '>' :: cs => .opening :: split cs
  | '<' :: '-' :: '-' :: cs => .closing :: split cs
  | c :: cs => .char c :: split cs

def Piece.render : Piece → List Char
  | .opening => "<b>&gt;&gt;&nbsp;".toList
  | .closing => "&nbsp; &lt;&lt;</b>".toList
  | .char c => escapeChar c

/-- Ten equals signs or more, and nothing else, divide a trace into parts. -/
def Line.isDivider (line : Line) : Bool :=
  10 ≤ line.content.length && line.content.all (· == '=')

/-- The newline of a divider is part of the rule that is drawn for it. -/
def Line.render (line : Line) : List Char :=
  if line.isDivider then "<hr>".toList
  else (Piece.split line.content).flatMap Piece.render ++ if line.ended then "<br>".toList else []

def renderLines (text : List Char) : List Char := (Line.split text).flatMap Line.render

/-- The whole transcript, with all from the last marker on in bold. -/
def renderTrace (text : List Char) : List Char :=
  match splitLast marker text with
  | some (trace, listing) =>
    renderLines trace ++ "<b>".toList ++ renderLines listing ++ "</b>".toList
  | none => renderLines text

def pageOpening : List Char :=
  "<html style=\"font-family: Courier New; font-size:12\">".toList

def failureBanner : List Char := "<h2> Factorization failed: </h2>".toList

def pageClosing : List Char := "</html>".toList

/-- A page shows the whole transcript, or its factors alone, one straight after the other. -/
def page (transcript : String) (verbose failed : Bool) : String :=
  let body :=
    if verbose then renderTrace transcript.toList
    else escape ((decode transcript).factors.flatMap String.toList)
  String.ofList (pageOpening ++ (if failed then failureBanner else []) ++ body ++ pageClosing)

end MonicFactor
