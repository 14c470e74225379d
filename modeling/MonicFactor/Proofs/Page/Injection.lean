import MonicFactor.Proofs.Page.Lexeme

/-! A page has only the markup that its renderer puts there: no text of a transcript or of a
diagnostic adds a tag or an entity, or stands for the banner of a failure. -/

namespace MonicFactor

def escapeMark (c : Char) : Mark :=
  if c = '<' then .lt else if c = '>' then .gt else if c = '&' then .amp else .quot

def charLexeme (c : Char) : Lexeme :=
  if h : IsPlain c then .plain c h else .mark (escapeMark c)

theorem text_charLexeme (c : Char) : (charLexeme c).text = escapeChar c := by
  by_cases h : IsPlain c
  · have hne : c ≠ '<' ∧ c ≠ '>' ∧ c ≠ '&' ∧ c ≠ '"' := by simpa [IsPlain] using h
    rw [charLexeme, dif_pos h]
    unfold escapeChar
    split <;> simp_all [Lexeme.text]
  · have hm : c ∈ ['<', '>', '&', '"'] := Decidable.not_not.mp h
    simp only [List.mem_cons, List.not_mem_nil, or_false] at hm
    rcases hm with rfl | rfl | rfl | rfl <;> decide

def escapeLexemes (cs : List Char) : List Lexeme := cs.map charLexeme

theorem spell_escapeLexemes (cs : List Char) : spell (escapeLexemes cs) = escape cs := by
  induction cs with
  | nil => rfl
  | cons c cs ih =>
    rw [escapeLexemes, List.map_cons, spell_cons, text_charLexeme]
    exact congrArg _ ih

def Piece.lexemes : Piece → List Lexeme
  | opening => [.mark .bold, .mark .gt, .mark .gt, .mark .nbsp]
  | closing => [.mark .nbsp, .plain ' ' (by decide), .mark .lt, .mark .lt, .mark .endBold]
  | char c => [charLexeme c]

theorem Piece.spell_lexemes (piece : Piece) : spell piece.lexemes = piece.render := by
  cases piece with
  | opening => rfl
  | closing => rfl
  | char c =>
    change spell [charLexeme c] = escapeChar c
    rw [spell_cons, spell_nil, List.append_nil, text_charLexeme]

theorem spell_flatMap {α : Type} {f : α → List Lexeme} {g : α → List Char}
    (h : ∀ a, spell (f a) = g a) (as : List α) : spell (as.flatMap f) = as.flatMap g := by
  induction as with
  | nil => rfl
  | cons a as ih => simp [h, ih]

def Line.lexemes (line : Line) : List Lexeme :=
  if line.isDivider then [.mark .rule]
  else (Piece.split line.content).flatMap Piece.lexemes ++
    if line.ended then [.mark .lineBreak] else []

theorem Line.spell_lexemes (line : Line) : spell line.lexemes = line.render := by
  unfold lexemes render
  by_cases hd : line.isDivider = true
  · simp only [hd, if_true]
    decide
  · by_cases he : line.ended = true <;>
      simp only [hd, he, Bool.false_eq_true, if_true, if_false, spell_append,
        spell_flatMap Piece.spell_lexemes]
    · exact congrArg _ (by decide)
    · rfl

def lineLexemes (text : List Char) : List Lexeme := (Line.split text).flatMap Line.lexemes

theorem spell_lineLexemes (text : List Char) : spell (lineLexemes text) = renderLines text :=
  spell_flatMap Line.spell_lexemes _

def traceLexemes (text : List Char) : List Lexeme :=
  match splitLast marker text with
  | some (trace, listing) =>
    lineLexemes trace ++ [.mark .bold] ++ lineLexemes listing ++ [.mark .endBold]
  | none => lineLexemes text

theorem spell_traceLexemes (text : List Char) : spell (traceLexemes text) = renderTrace text := by
  unfold traceLexemes renderTrace
  cases splitLast marker text with
  | none => exact spell_lineLexemes text
  | some parts =>
    obtain ⟨trace, listing⟩ := parts
    have hb : spell [.mark .bold] = "<b>".toList := rfl
    have he : spell [.mark .endBold] = "</b>".toList := rfl
    simp only [spell_append, spell_lineLexemes, hb, he]

def bannerLexemes (failed : Bool) : List Lexeme :=
  if failed then
    .mark .heading :: (escapeLexemes " Factorization failed: ".toList ++ [.mark .endHeading])
  else []

def bodyLexemes (transcript : String) (verbose : Bool) : List Lexeme :=
  if verbose then traceLexemes transcript.toList
  else escapeLexemes ((decode transcript).factors.flatMap String.toList)

def pageLexemes (transcript : String) (verbose failed : Bool) : List Lexeme :=
  .mark .html :: (bannerLexemes failed ++ bodyLexemes transcript verbose ++ [.mark .endHtml])

theorem spell_bannerLexemes (failed : Bool) :
    spell (bannerLexemes failed) = if failed then failureBanner else [] := by
  cases failed <;> decide

theorem Mark.text_html : Mark.html.text = pageOpening := by decide

theorem Mark.text_endHtml : Mark.endHtml.text = pageClosing := by decide

theorem page_eq_append (transcript : String) (verbose failed : Bool) :
    (page transcript verbose failed).toList =
      pageOpening ++ (if failed then failureBanner else []) ++
        (if verbose then renderTrace transcript.toList
          else escape ((decode transcript).factors.flatMap String.toList)) ++ pageClosing := by
  rw [page, String.toList_ofList]

theorem spell_pageLexemes (transcript : String) (verbose failed : Bool) :
    spell (pageLexemes transcript verbose failed) = (page transcript verbose failed).toList := by
  have hbody : spell (bodyLexemes transcript verbose) =
      if verbose then renderTrace transcript.toList
      else escape ((decode transcript).factors.flatMap String.toList) := by
    cases verbose
    · exact spell_escapeLexemes _
    · exact spell_traceLexemes _
  rw [pageLexemes, spell_cons, spell_append, spell_append, hbody, spell_bannerLexemes,
    spell_cons, spell_nil, List.append_nil, Lexeme.text, Lexeme.text, Mark.text_html,
    Mark.text_endHtml, page_eq_append]
  simp only [List.append_assoc]

def bodyMarks (verbose : Bool) : List Mark :=
  if verbose then [.bold, .endBold, .lineBreak, .rule, .nbsp, .amp, .lt, .gt, .quot]
  else [.amp, .lt, .gt, .quot]

theorem escapeMark_mem_bodyMarks (c : Char) (verbose : Bool) :
    escapeMark c ∈ bodyMarks verbose := by
  unfold escapeMark
  repeat' split
  all_goals cases verbose <;> decide

theorem mem_bodyMarks_of_mem_escapeLexemes {m : Mark} {cs : List Char}
    (h : .mark m ∈ escapeLexemes cs) (verbose : Bool) : m ∈ bodyMarks verbose := by
  obtain ⟨c, -, hc⟩ := List.mem_map.mp h
  unfold charLexeme at hc
  split at hc
  · cases hc
  · cases hc
    exact escapeMark_mem_bodyMarks c verbose

theorem Piece.mem_bodyMarks {m : Mark} {piece : Piece} (h : .mark m ∈ piece.lexemes) :
    m ∈ bodyMarks true := by
  cases piece with
  | opening =>
    simp only [lexemes, List.mem_cons, Lexeme.mark.injEq, List.not_mem_nil, or_false] at h
    rcases h with rfl | rfl | rfl | rfl <;> decide
  | closing =>
    simp only [lexemes, List.mem_cons, Lexeme.mark.injEq, reduceCtorEq, List.not_mem_nil,
      or_false, false_or] at h
    rcases h with rfl | rfl | rfl | rfl <;> decide
  | char c => exact @mem_bodyMarks_of_mem_escapeLexemes m [c] h true

theorem Line.mem_bodyMarks {m : Mark} {line : Line} (h : .mark m ∈ line.lexemes) :
    m ∈ bodyMarks true := by
  unfold lexemes at h
  split at h
  · rw [Lexeme.mark.inj (List.mem_singleton.mp h)]
    decide
  · rcases List.mem_append.mp h with h | h
    · obtain ⟨piece, -, hp⟩ := List.mem_flatMap.mp h
      exact Piece.mem_bodyMarks hp
    · split at h
      · rw [Lexeme.mark.inj (List.mem_singleton.mp h)]
        decide
      · cases h

theorem mem_bodyMarks_of_mem_lineLexemes {m : Mark} {text : List Char}
    (h : .mark m ∈ lineLexemes text) : m ∈ bodyMarks true := by
  obtain ⟨line, -, hl⟩ := List.mem_flatMap.mp h
  exact Line.mem_bodyMarks hl

theorem mem_bodyMarks_of_mem_bodyLexemes {m : Mark} {transcript : String} {verbose : Bool}
    (h : .mark m ∈ bodyLexemes transcript verbose) : m ∈ bodyMarks verbose := by
  cases verbose with
  | false => exact mem_bodyMarks_of_mem_escapeLexemes h false
  | true =>
    change .mark m ∈ traceLexemes transcript.toList at h
    unfold traceLexemes at h
    split at h
    · simp only [List.mem_append, List.mem_singleton, Lexeme.mark.injEq] at h
      rcases h with ((h | rfl) | h) | rfl
      · exact mem_bodyMarks_of_mem_lineLexemes h
      · decide
      · exact mem_bodyMarks_of_mem_lineLexemes h
      · decide
    · exact mem_bodyMarks_of_mem_lineLexemes h

/-- A mark that no body has occurs in a page as often as in what is fixed around the body. -/
theorem occurrences_page {m : Mark} {verbose : Bool} (h : m ∉ bodyMarks verbose)
    (transcript : String) (failed : Bool) :
    occurrences m.text (page transcript verbose failed).toList =
      (Lexeme.mark .html :: (bannerLexemes failed ++ [.mark .endHtml])).count (.mark m) := by
  have hb : (bodyLexemes transcript verbose).count (.mark m) = 0 :=
    List.count_eq_zero.mpr fun hm => h (mem_bodyMarks_of_mem_bodyLexemes hm)
  rw [← spell_pageLexemes, occurrences_spell, pageLexemes]
  simp [List.count_cons, List.count_append, hb]

/-- Each place of the character begins one of the patterns. -/
def EveryBegins (c : Char) (patterns : List (List Char)) (text : List Char) : Prop :=
  ∀ before after, text = before ++ c :: after → ∃ pattern ∈ patterns, pattern <+: c :: after

def EveryEnds (c : Char) (patterns : List (List Char)) (text : List Char) : Prop :=
  ∀ before after, text = before ++ c :: after → ∃ pattern ∈ patterns, pattern <:+ before ++ [c]

def tagTexts : List (List Char) :=
  [pageOpening, "<h2>".toList, "</h2>".toList, "<b>".toList, "</b>".toList, "<br>".toList,
    "<hr>".toList, "</html>".toList]

def entityTexts : List (List Char) :=
  ["&amp;".toList, "&lt;".toList, "&gt;".toList, "&quot;".toList, "&nbsp;".toList]

theorem Mark.isTag_of_first {m : Mark} (h : m.first = '<') : m.isTag = true := by
  revert h
  cases m <;> decide

theorem Mark.not_isTag_of_first {m : Mark} (h : m.first = '&') : m.isTag = false := by
  revert h
  cases m <;> decide

theorem Mark.text_mem_tagTexts {m : Mark} (h : m.isTag = true) : m.text ∈ tagTexts := by
  cases m with
  | html =>
    rw [text_html]
    exact List.mem_cons_self
  | _ =>
    revert h
    decide

theorem Mark.text_mem_entityTexts {m : Mark} (h : m.isTag = false) : m.text ∈ entityTexts := by
  revert h
  cases m <;> decide

theorem everyBegins_spell {m : Mark} {patterns : List (List Char)}
    (h : ∀ m' : Mark, m'.first = m.first → m'.text ∈ patterns) (lexemes : List Lexeme) :
    EveryBegins m.first patterns (spell lexemes) := by
  intro before after he
  obtain ⟨m', hf, hp⟩ := spell_first he
  exact ⟨m'.text, h m' hf, hp⟩

theorem everyEnds_spell (lexemes : List Lexeme) : EveryEnds '>' tagTexts (spell lexemes) := by
  intro before after he
  obtain ⟨m, ht, hs⟩ := spell_gt he
  exact ⟨m.text, Mark.text_mem_tagTexts ht, hs⟩

theorem html_not_mem (transcript : String) (verbose failed : Bool) :
    Lexeme.mark .html ∉
      bannerLexemes failed ++ bodyLexemes transcript verbose ++ [.mark .endHtml] := by
  intro h
  simp only [List.mem_append, List.mem_singleton] at h
  rcases h with (h | h) | h
  · revert h
    cases failed <;> decide
  · have hm := mem_bodyMarks_of_mem_bodyLexemes h
    revert hm
    cases verbose <;> decide
  · exact absurd h (by decide)

theorem quote_in_pageOpening {transcript : String} {verbose failed : Bool}
    {before after : List Char}
    (h : (page transcript verbose failed).toList = before ++ '"' :: after) :
    ∃ rest, before ++ '"' :: rest = pageOpening := by
  rw [← spell_pageLexemes] at h
  obtain ⟨xs, x, ys, u, v, he, hx, rfl, -⟩ := spell_eq_append_cons h
  have hq := @Lexeme.eq_html_of_quote x (by rw [hx]; simp)
  subst hq
  cases xs with
  | nil => exact ⟨v, hx.symm.trans Mark.text_html⟩
  | cons y xs =>
    have hm : Lexeme.mark .html ∈ xs ++ Lexeme.mark .html :: ys := by simp
    rw [← show _ = xs ++ _ from (List.cons.inj he).2] at hm
    exact absurd hm (html_not_mem transcript verbose failed)

theorem occurrences_failureBanner (transcript : String) (verbose failed : Bool) :
    occurrences failureBanner (page transcript verbose failed).toList =
      if failed then 1 else 0 := by
  have hle := occurrences_le_of_isPrefix (show Mark.heading.text <+: failureBanner by decide)
    (page transcript verbose failed).toList
  rw [occurrences_page (by cases verbose <;> decide) transcript failed] at hle
  cases failed with
  | false => exact Nat.le_zero.mp hle
  | true =>
    have hpos : 0 < occurrences failureBanner (page transcript verbose true).toList := by
      rw [page_eq_append, List.append_assoc, List.append_assoc]
      exact occurrences_pos (List.prefix_append _ _) pageOpening
    exact Nat.le_antisymm hle hpos

/-- Whatever a transcript or a diagnostic says, the angle brackets and ampersands of its page
belong to fixed tags and to entities, quotes stand in the opening tag alone, the page has one
opening and one closing tag, and the banner and headings stand only on the page of a failure.
A page that is not verbose has no markup for a trace. -/
theorem page_markup (transcript : String) (verbose failed : Bool) :
    let text := (page transcript verbose failed).toList
    EveryBegins '<' tagTexts text ∧ EveryEnds '>' tagTexts text ∧
    EveryBegins '&' entityTexts text ∧
    (∀ before after, text = before ++ '"' :: after → ∃ rest, before ++ '"' :: rest = pageOpening) ∧
    (pageOpening <+: text ∧ occurrences pageOpening text = 1) ∧
    (pageClosing <:+ text ∧ occurrences pageClosing text = 1) ∧
    occurrences failureBanner text = (if failed then 1 else 0) ∧
    (failed = false → occurrences "<h2>".toList text = 0) ∧
    (verbose = false → ∀ pattern ∈ ["<b>", "</b>", "<br>", "<hr>", "&nbsp;"],
      occurrences pattern.toList text = 0) := by
  intro text
  have hspell : text = spell (pageLexemes transcript verbose failed) :=
    (spell_pageLexemes transcript verbose failed).symm
  have hcount (m : Mark) (h : m ∉ bodyMarks verbose) := occurrences_page h transcript failed
  refine ⟨?_, ?_, ?_, fun _ _ => quote_in_pageOpening, ⟨?_, ?_⟩, ⟨?_, ?_⟩,
    occurrences_failureBanner transcript verbose failed, ?_, ?_⟩
  · rw [hspell]
    exact @everyBegins_spell .html _
      (fun m h => Mark.text_mem_tagTexts (Mark.isTag_of_first h)) _
  · rw [hspell]
    exact everyEnds_spell _
  · rw [hspell]
    exact @everyBegins_spell .amp _
      (fun m h => Mark.text_mem_entityTexts (Mark.not_isTag_of_first h)) _
  · rw [show text = _ from page_eq_append _ _ _, List.append_assoc, List.append_assoc]
    exact List.prefix_append _ _
  · rw [← Mark.text_html, hcount _ (by cases verbose <;> decide)]
    cases failed <;> decide
  · rw [show text = _ from page_eq_append _ _ _]
    exact List.suffix_append _ _
  · rw [← Mark.text_endHtml, hcount _ (by cases verbose <;> decide)]
    cases failed <;> decide
  · rintro rfl
    exact hcount .heading (by cases verbose <;> decide)
  · rintro rfl pattern hp
    simp only [List.mem_cons, List.not_mem_nil, or_false] at hp
    rcases hp with rfl | rfl | rfl | rfl | rfl
    · exact (hcount .bold (by decide)).trans (by cases failed <;> decide)
    · exact (hcount .endBold (by decide)).trans (by cases failed <;> decide)
    · exact (hcount .lineBreak (by decide)).trans (by cases failed <;> decide)
    · exact (hcount .rule (by decide)).trans (by cases failed <;> decide)
    · exact (hcount .nbsp (by decide)).trans (by cases failed <;> decide)

theorem page_markup_forged :
    (∀ pattern ∈ ["<h2>", "</b>", "&nbsp;"], occurrences pattern.toList
      (page "<h2> Factorization failed: </h2>\nFactorization:\n</b>&nbsp;\nTime: 1"
        false false).toList = 0) ∧
    ∃ pattern ∈ tagTexts, pattern <+: "</html>".toList := by
  constructor
  · obtain ⟨-, -, -, -, -, -, -, hheading, htrace⟩ := page_markup
      "<h2> Factorization failed: </h2>\nFactorization:\n</b>&nbsp;\nTime: 1" false false
    intro pattern hp
    simp only [List.mem_cons, List.not_mem_nil, or_false] at hp
    rcases hp with rfl | rfl | rfl
    · exact hheading rfl
    · exact htrace rfl "</b>" (by decide)
    · exact htrace rfl "&nbsp;" (by decide)
  · have htext : (page "<b>\"" true false).toList =
        (pageOpening ++ "&lt;b&gt;&quot;".toList) ++ '<' :: "/html>".toList := by decide +kernel
    exact (page_markup "<b>\"" true false).1 _ _ htext

end MonicFactor
