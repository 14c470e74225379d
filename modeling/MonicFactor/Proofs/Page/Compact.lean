import MonicFactor.Proofs.Page.Injection

/-! A compact page says what the factors of its transcript say, one straight after the other, and
nothing else of the transcript. -/

namespace MonicFactor

/-- One pass from the left: what comes of an entity is not looked at again. -/
def unescape : List Char → List Char
  | '&' :: 'a' :: 'm' :: 'p' :: ';' :: cs => '&' :: unescape cs
  | '&' :: 'l' :: 't' :: ';' :: cs => '<' :: unescape cs
  | '&' :: 'g' :: 't' :: ';' :: cs => '>' :: unescape cs
  | '&' :: 'q' :: 'u' :: 'o' :: 't' :: ';' :: cs => '"' :: unescape cs
  | c :: cs => c :: unescape cs
  | [] => []

theorem unescape_cons {c : Char} (h : c ≠ '&') (cs : List Char) :
    unescape (c :: cs) = c :: unescape cs := by
  rw [unescape]
  all_goals exact fun _ hc => absurd hc h

/-- Whatever follows the text of a character is not drawn into it. -/
theorem unescape_escapeChar_append (c : Char) (cs : List Char) :
    unescape (escapeChar c ++ cs) = c :: unescape cs := by
  unfold escapeChar
  split
  case h_5 hamp _ _ _ => exact unescape_cons hamp cs
  all_goals rfl

theorem unescape_escape (s : List Char) : unescape (escape s) = s := by
  induction s with
  | nil => rfl
  | cons c s ih =>
    change unescape (escapeChar c ++ escape s) = c :: s
    rw [unescape_escapeChar_append, ih]

example : unescape (escape "&amp;lt;".toList) = "&amp;lt;".toList := by decide

/-- The factors of a transcript, one straight after the other. -/
def factorText (transcript : String) : List Char :=
  (decode transcript).factors.flatMap String.toList

theorem page_compact (transcript : String) (failed : Bool) :
    (page transcript false failed).toList =
      pageOpening ++ (if failed then failureBanner else []) ++ escape (factorText transcript) ++
        pageClosing := page_eq_append transcript false failed

theorem page_compact_inj {transcript other : String} {failed : Bool} :
    page transcript false failed = page other false failed ↔
      factorText transcript = factorText other := by
  rw [← String.toList_inj, page_compact, page_compact, List.append_left_inj,
    List.append_right_inj]
  exact ⟨fun h => by rw [← unescape_escape (factorText transcript), h, unescape_escape],
    congrArg escape⟩

/-- Escaping loses nothing and goes character by character, so a compact page stands for the
factors of its transcript and is the same for two transcripts only if these list the same. -/
theorem compact_page_faithful :
    (∀ s, unescape (escape s) = s) ∧
    (∀ s t, escape (s ++ t) = escape s ++ escape t) ∧
    (∀ transcript failed, ∃ body,
      (page transcript false failed).toList =
        pageOpening ++ (if failed then failureBanner else []) ++ body ++ pageClosing ∧
      unescape body = factorText transcript) ∧
    ∀ transcript other failed, page transcript false failed = page other false failed ↔
      factorText transcript = factorText other :=
  ⟨unescape_escape, escape_append,
    fun transcript failed => ⟨_, page_compact transcript failed, unescape_escape _⟩,
    fun _ _ _ => page_compact_inj⟩

end MonicFactor
