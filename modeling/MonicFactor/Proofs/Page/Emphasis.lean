import MonicFactor.Proofs.Page.Injection
import MonicFactor.Proofs.Page.Pieces
import MonicFactor.Proofs.Transcript.Listing
import MonicFactor.Proofs.Transcript.WholeLine

/-! A verbose page puts the listing of a transcript in bold. The transcript is cut at its last
marker and each part is drawn by itself. That draws the lines of the whole transcript, except
where the marker stands behind what would be a divider if it were a line. -/

namespace MonicFactor

/-- The body of a verbose page. -/
def IsBody (transcript : String) (failed : Bool) (body : List Char) : Prop :=
  (page transcript true failed).toList =
    pageOpening ++ (if failed then failureBanner else []) ++ body ++ pageClosing

theorem isBody_iff {transcript : String} {failed : Bool} {body : List Char} :
    IsBody transcript failed body ↔ body = renderTrace transcript.toList := by
  rw [IsBody, page_eq_append, if_pos rfl, List.append_left_inj, List.append_right_inj, eq_comm]

section Cutting

def pieceLexemes (cs : List Char) : List Lexeme := (Piece.split cs).flatMap Piece.lexemes

theorem pieceLexemes_append {c : Char} (hd : c ≠ '-') (hg : c ≠ '>') (before after : List Char) :
    pieceLexemes (before ++ c :: after) = pieceLexemes before ++ pieceLexemes (c :: after) := by
  simp only [pieceLexemes, Piece.split_append hd hg, List.flatMap_append]

theorem Line.lexemes_of_isDivider {line : List Char} (h : IsDivider line) (ended : Bool) :
    (Line.mk line ended).lexemes = [.mark .rule] := by
  rw [lexemes, if_pos ((isDivider_iff ⟨line, ended⟩).mpr h)]

theorem Line.lexemes_of_not_isDivider {line : List Char} (h : ¬IsDivider line) (ended : Bool) :
    (Line.mk line ended).lexemes =
      pieceLexemes line ++ if ended then [.mark .lineBreak] else [] := by
  rw [lexemes, if_neg fun hh => h ((isDivider_iff ⟨line, ended⟩).mp hh)]
  rfl

theorem lineLexemes_last {line : List Char} (h : '\n' ∉ line) :
    lineLexemes line = (Line.mk line false).lexemes := by
  by_cases hne : line = []
  · rw [hne]
    rfl
  · rw [lineLexemes, Line.split_unended h hne, List.flatMap_singleton]

theorem lineLexemes_ended {line : List Char} (h : '\n' ∉ line) (rest : List Char) :
    lineLexemes (line ++ '\n' :: rest) =
      (Line.mk (withoutReturn line) true).lexemes ++ lineLexemes rest := by
  rw [lineLexemes, Line.split_ended h, List.flatMap_cons, lineLexemes]

theorem lineLexemes_append {before : List Char} (h : EndsLine before) (rest : List Char) :
    lineLexemes (before ++ rest) = lineLexemes before ++ lineLexemes rest := by
  rw [lineLexemes, Line.split_append h, List.flatMap_append, lineLexemes, lineLexemes]

theorem not_isDivider_of_mem {c : Char} {line : List Char} (h : c ∈ line) (hc : c ≠ '=') :
    ¬IsDivider line :=
  fun hh => hc (hh.2 c h)

theorem withoutReturn_append_cons {c : Char} (hc : c ≠ '\r') (line front : List Char) :
    withoutReturn (line ++ c :: front) = line ++ c :: withoutReturn front := by
  by_cases hf : front = []
  · have hne : (line ++ [c]).getLast? ≠ some '\r' := by simpa using hc
    rw [hf, withoutReturn, if_neg hne]
    rfl
  · have hl : (line ++ c :: front).getLast? = front.getLast? := by
      rw [List.getLast?_append, List.getLast?_cons_of_ne_nil hf, List.getLast?_eq_some_getLast hf,
        Option.some_or]
    by_cases hr : front.getLast? = some '\r'
    · rw [withoutReturn, withoutReturn, if_pos hr, if_pos (hl.trans hr),
        List.dropLast_append_of_ne_nil (List.cons_ne_nil _ _), List.dropLast_cons_of_ne_nil hf]
    · rw [withoutReturn, withoutReturn, if_neg hr, if_neg fun hh => hr (hl.symm.trans hh)]

/-- What stands in front of the marker in its line is drawn piece by piece, divider or not. -/
theorem lineLexemes_marker {line : List Char} (h : '\n' ∉ line) (after : List Char) :
    lineLexemes (line ++ (marker ++ after)) = pieceLexemes line ++ lineLexemes (marker ++ after) := by
  have hd : 'F' ≠ '-' := by decide
  have hg : 'F' ≠ '>' := by decide
  have he : 'F' ≠ '=' := by decide
  have hr : 'F' ≠ '\r' := by decide
  have hn : '\n' ≠ 'F' := by decide
  have hcons : marker ++ after = 'F' :: (marker.tail ++ after) := rfl
  have hline {cs : List Char} (hc : '\n' ∉ cs) : '\n' ∉ line ++ 'F' :: cs := by simp [h, hn, hc]
  have hfirst {cs : List Char} (hc : '\n' ∉ cs) : '\n' ∉ 'F' :: cs := by simp [hn, hc]
  have hmem (cs : List Char) : 'F' ∈ line ++ 'F' :: cs := by simp
  rw [hcons]
  by_cases hm : '\n' ∈ marker.tail ++ after
  · obtain ⟨front, back, hs, hf⟩ := List.eq_append_cons_of_mem hm
    have hback := lineLexemes_ended (hfirst hf) back
    have hwhole := lineLexemes_ended (hline hf) back
    rw [withoutReturn_append_cons hr, Line.lexemes_of_not_isDivider
      (not_isDivider_of_mem (hmem _) he), pieceLexemes_append hd hg] at hwhole
    have hfront : withoutReturn ('F' :: front) = 'F' :: withoutReturn front :=
      withoutReturn_append_cons hr [] front
    rw [hfront, Line.lexemes_of_not_isDivider
      (not_isDivider_of_mem List.mem_cons_self he)] at hback
    rw [hs, ← List.cons_append, ← List.append_assoc, hwhole, hback]
    simp only [List.append_assoc]
  · rw [lineLexemes_last (hline hm), lineLexemes_last (hfirst hm),
      Line.lexemes_of_not_isDivider (not_isDivider_of_mem (hmem _) he),
      Line.lexemes_of_not_isDivider (not_isDivider_of_mem List.mem_cons_self he),
      pieceLexemes_append hd hg]
    simp only [List.append_assoc]

end Cutting

section Rules

theorem rule_not_mem_pieceLexemes (cs : List Char) : Lexeme.mark .rule ∉ pieceLexemes cs := by
  intro h
  obtain ⟨piece, -, hp⟩ := List.mem_flatMap.mp h
  cases piece with
  | opening => simp [Piece.lexemes] at hp
  | closing => simp [Piece.lexemes] at hp
  | char c =>
    have hm : Mark.rule ∈ bodyMarks false :=
      @mem_bodyMarks_of_mem_escapeLexemes Mark.rule [c] hp false
    simp [bodyMarks] at hm

theorem exists_append_of_not_mem {α : Type} {front xs ys zs : List α} {a : α} (ha : a ∉ front)
    (h : front ++ zs = xs ++ a :: ys) : ∃ xs', xs = front ++ xs' ∧ zs = xs' ++ a :: ys := by
  rcases List.append_eq_append_iff.mp h with ⟨xs', hx, hz⟩ | ⟨cs, hf, hz⟩
  · exact ⟨xs', hx, hz⟩
  · cases cs with
    | nil => exact ⟨[], by simpa using hf.symm, by simpa using hz.symm⟩
    | cons c cs =>
      obtain ⟨rfl, -⟩ := List.cons.inj hz
      exact absurd (by rw [hf]; simp) ha

theorem spell_eq_append_mark {lexemes : List Lexeme} {front back : List Char} {m : Mark}
    (h : spell lexemes = front ++ (m.text ++ back)) :
    ∃ xs ys, lexemes = xs ++ .mark m :: ys ∧ spell xs = front ∧ spell ys = back := by
  obtain ⟨xs, x, ys, u, v, he, hx, hfront, hback⟩ := spell_eq_append_cons h
  obtain ⟨rfl, m', rfl, -⟩ := Lexeme.eq_mark_of_first hx
  rw [List.append_nil] at hfront
  have hrest : m'.text ++ spell ys = m.text ++ back := by
    have hv : m'.text = m.first :: v := hx
    rw [hv, List.cons_append, ← hback]
    rfl
  have hm : m = m' := (m.isPrefixOf_text m' (spell ys)).mp <| by
    rw [hrest]
    exact List.isPrefixOf_iff_prefix.mpr (List.prefix_append _ _)
  subst hm
  exact ⟨xs, ys, he, hfront.symm, List.append_cancel_left hrest⟩

theorem exists_line_of_rule {text : List Char} {xs ys : List Lexeme}
    (h : lineLexemes text = xs ++ .mark .rule :: ys) :
    ∃ before line after, IsLineOf text before line after ∧ IsDivider line ∧
      lineLexemes before = xs ∧ lineLexemes after = ys := by
  induction text using lines_induction generalizing xs with
  | last line hl =>
    rw [lineLexemes_last hl] at h
    by_cases hd : IsDivider line
    · rw [Line.lexemes_of_isDivider hd] at h
      cases xs with
      | nil => exact ⟨[], line, [], isLineOf_last hl, hd, rfl, (List.cons.inj h).2⟩
      | cons x xs => simp at h
    · rw [Line.lexemes_of_not_isDivider hd] at h
      have hm : Lexeme.mark .rule ∈ pieceLexemes line := by
        have hx : Lexeme.mark .rule ∈ xs ++ Lexeme.mark .rule :: ys := by simp
        rw [← h] at hx
        simpa using hx
      exact absurd hm (rule_not_mem_pieceLexemes line)
  | ended line rest hl ih =>
    rw [lineLexemes_ended hl] at h
    by_cases hd : IsDivider (withoutReturn line)
    · rw [Line.lexemes_of_isDivider hd] at h
      cases xs with
      | nil =>
        exact ⟨[], withoutReturn line, rest, isLineOf_ended hl rest, hd, rfl, (List.cons.inj h).2⟩
      | cons x xs =>
        obtain ⟨rfl, hrest⟩ := List.cons.inj h
        obtain ⟨before, line', after, hline, hd', hb, ha⟩ := ih hrest
        refine ⟨line ++ '\n' :: before, line', after, hline.append line, hd', ?_, ha⟩
        rw [lineLexemes_ended hl, Line.lexemes_of_isDivider hd, hb]
        rfl
    · have hm : Lexeme.mark .rule ∉ (Line.mk (withoutReturn line) true).lexemes := by
        rw [Line.lexemes_of_not_isDivider hd]
        simp [rule_not_mem_pieceLexemes]
      obtain ⟨xs', rfl, hrest⟩ := exists_append_of_not_mem hm h
      obtain ⟨before, line', after, hline, hd', hb, ha⟩ := ih hrest
      refine ⟨line ++ '\n' :: before, line', after, hline.append line, hd', ?_, ha⟩
      rw [lineLexemes_ended hl, hb]

theorem IsLineOf.lineLexemes_eq {text before line after : List Char}
    (h : IsLineOf text before line after) (hd : IsDivider line) :
    lineLexemes text = lineLexemes before ++ .mark .rule :: lineLexemes after := by
  have hr : line.getLast? ≠ some '\r' := by
    intro hr
    have hc := hd.2 _ (List.mem_of_getLast? hr)
    simp at hc
  rcases h.ends with ⟨rfl, rfl⟩ | ⟨e, rfl, -⟩
  · rw [lineLexemes_append h.starts, lineLexemes_last h.oneLine, Line.lexemes_of_isDivider hd]
    rfl
  · rw [lineLexemes_append h.starts, lineLexemes, lineLexemes,
      Line.split_append_of_ne h.oneLine hr, List.flatMap_cons, Line.lexemes_of_isDivider hd]
    rfl

/-- A rule is drawn for a whole line that is a divider, and for nothing else. -/
theorem renderLines_eq_append_rule_iff {text front back : List Char} :
    renderLines text = front ++ ("<hr>".toList ++ back) ↔
      ∃ before line after, IsLineOf text before line after ∧ IsDivider line ∧
        renderLines before = front ∧ renderLines after = back := by
  have hr : "<hr>".toList = Mark.rule.text := rfl
  simp only [← spell_lineLexemes, hr]
  constructor
  · intro h
    obtain ⟨xs, ys, he, rfl, rfl⟩ := spell_eq_append_mark h
    obtain ⟨before, line, after, hline, hd, rfl, rfl⟩ := exists_line_of_rule he
    exact ⟨before, line, after, hline, hd, rfl, rfl⟩
  · rintro ⟨before, line, after, hline, hd, rfl, rfl⟩
    rw [hline.lineLexemes_eq hd, spell_append, spell_cons]
    rfl

end Rules

section Emphasis

/-- The body shows the lines, with the last part of them in bold. -/
def Emphasises (body lines : List Char) : Prop :=
  ∃ plain bold, body = plain ++ "<b>".toList ++ bold ++ "</b>".toList ∧ plain ++ bold = lines

theorem exists_lineLexemes_cut (trace after : List Char) :
    ∃ front, lineLexemes trace = front ++ (Line.mk (afterLast '\n' trace) false).lexemes ∧
      lineLexemes (trace ++ (marker ++ after)) =
        front ++ pieceLexemes (afterLast '\n' trace) ++ lineLexemes (marker ++ after) := by
  have hlast := not_mem_afterLast '\n' trace
  obtain ⟨before, hb, he⟩ := exists_append_afterLast trace
  have htrace := lineLexemes_append hb (afterLast '\n' trace)
  rw [he, lineLexemes_last hlast] at htrace
  have hcut : before ++ (afterLast '\n' trace ++ (marker ++ after)) =
      trace ++ (marker ++ after) := by
    rw [← List.append_assoc, he]
  refine ⟨lineLexemes before, htrace, ?_⟩
  rw [← hcut, lineLexemes_append hb, lineLexemes_marker hlast, List.append_assoc]

theorem spell_pieceLexemes_of_equals {line : List Char} (h : ∀ c ∈ line, c = '=') :
    spell (pieceLexemes line) = line := by
  induction line with
  | nil => rfl
  | cons c line ih =>
    rw [List.forall_mem_cons] at h
    obtain ⟨rfl, hl⟩ := h
    have hs : spell (pieceLexemes ('=' :: line)) = (charLexeme '=').text ++ spell (pieceLexemes line) :=
      rfl
    rw [hs, ih hl, text_charLexeme]
    rfl

variable {text trace after : List Char}

theorem traceLexemes_of_lastMarkerAt (h : LastMarkerAt text trace after) :
    traceLexemes text =
      lineLexemes trace ++ [.mark .bold] ++ lineLexemes (marker ++ after) ++ [.mark .endBold] := by
  simp only [traceLexemes, splitLast_eq_some_iff_lastMarkerAt.mpr h]

theorem renderTrace_of_lastMarkerAt (h : LastMarkerAt text trace after) :
    renderTrace text =
      renderLines trace ++ "<b>".toList ++ renderLines (marker ++ after) ++ "</b>".toList := by
  simp only [renderTrace, splitLast_eq_some_iff_lastMarkerAt.mpr h]

theorem emphasises_of_not_isDivider (h : LastMarkerAt text trace after)
    (hd : ¬IsDivider (afterLast '\n' trace)) :
    Emphasises (renderTrace text) (renderLines text) := by
  obtain ⟨front, htrace, hwhole⟩ := exists_lineLexemes_cut trace after
  have hpieces := Line.lexemes_of_not_isDivider hd false
  rw [if_neg Bool.false_ne_true, List.append_nil] at hpieces
  refine ⟨renderLines trace, renderLines (marker ++ after), renderTrace_of_lastMarkerAt h, ?_⟩
  rw [← h.cut, ← spell_lineLexemes, ← spell_lineLexemes, ← spell_lineLexemes, ← spell_append,
    hwhole, htrace, hpieces]

/-- The rule that is drawn for the part of a line is shorter than the part itself. -/
theorem not_emphasises_of_isDivider (h : LastMarkerAt text trace after)
    (hd : IsDivider (afterLast '\n' trace)) :
    ¬Emphasises (renderTrace text) (renderLines text) := by
  rintro ⟨plain, bold, hbody, hlines⟩
  obtain ⟨front, htrace, hwhole⟩ := exists_lineLexemes_cut trace after
  have hlength := hd.1
  have hbold : "<b>".toList.length = 3 := rfl
  have hend : "</b>".toList.length = 4 := rfl
  have hrule : (Lexeme.mark .rule).text.length = 4 := rfl
  have hshown : (renderLines trace).length = (spell front).length + 4 := by
    rw [← spell_lineLexemes, htrace, Line.lexemes_of_isDivider hd, spell_append, spell_cons,
      spell_nil, List.append_nil, List.length_append, hrule]
  have hmeant : (renderLines text).length = (spell front).length +
      (afterLast '\n' trace).length + (renderLines (marker ++ after)).length := by
    rw [← h.cut, ← spell_lineLexemes, hwhole, spell_append, spell_append,
      spell_pieceLexemes_of_equals hd.2, spell_lineLexemes, List.length_append, List.length_append]
  have hbodyLength := congrArg List.length hbody
  have hlinesLength := congrArg List.length hlines
  rw [renderTrace_of_lastMarkerAt h] at hbodyLength
  simp only [List.length_append, hbold, hend, hshown] at hbodyLength
  rw [List.length_append, hmeant] at hlinesLength
  omega

theorem occurrences_rule_renderTrace (h : LastMarkerAt text trace after) :
    occurrences "<hr>".toList (renderTrace text) =
      occurrences "<hr>".toList (renderLines text) +
        if IsDivider (afterLast '\n' trace) then 1 else 0 := by
  obtain ⟨front, htrace, hwhole⟩ := exists_lineLexemes_cut trace after
  have hr : "<hr>".toList = Mark.rule.text := rfl
  have hnone : (pieceLexemes (afterLast '\n' trace)).count (.mark .rule) = 0 :=
    List.count_eq_zero.mpr (rule_not_mem_pieceLexemes _)
  rw [hr, ← spell_traceLexemes, ← spell_lineLexemes, occurrences_spell, occurrences_spell,
    traceLexemes_of_lastMarkerAt h, htrace, ← h.cut, hwhole]
  by_cases hd : IsDivider (afterLast '\n' trace)
  · rw [if_pos hd, Line.lexemes_of_isDivider hd]
    simp only [List.count_append, hnone]
    simp
    omega
  · rw [if_neg hd, Line.lexemes_of_not_isDivider hd]
    simp [List.count_append]

/-- The listing in bold changes nothing else of what is drawn exactly if the part of the marker's
line in front of the marker does not look like a divider; then the rules are those of the text,
and these stand for its dividers, whole lines of ten equals signs or more, and for nothing else. -/
theorem emphasises_iff {transcript : String} {failed : Bool} {body trace after : List Char}
    (hb : IsBody transcript failed body) (h : LastMarkerAt transcript.toList trace after) :
    (Emphasises body (renderLines transcript.toList) ↔ ¬IsDivider (afterLast '\n' trace)) ∧
    (occurrences "<hr>".toList body = occurrences "<hr>".toList (renderLines transcript.toList) ↔
      ¬IsDivider (afterLast '\n' trace)) ∧
    ∀ front back, renderLines transcript.toList = front ++ ("<hr>".toList ++ back) ↔
      ∃ before line next, IsLineOf transcript.toList before line next ∧ IsDivider line ∧
        renderLines before = front ∧ renderLines next = back := by
  rw [isBody_iff.mp hb]
  refine ⟨⟨fun he hd => not_emphasises_of_isDivider h hd he, emphasises_of_not_isDivider h⟩, ?_,
    fun front back => renderLines_eq_append_rule_iff⟩
  rw [occurrences_rule_renderTrace h]
  by_cases hd : IsDivider (afterLast '\n' trace)
  · simp [hd]
  · simp [hd]

theorem emphasises_iff_behind_short_rule :
    IsBody "a\n==========\r\n=Factorization:\n(x)" false
        "a<br><hr>=<b>Factorization:<br>(x)</b>".toList ∧
      Emphasises "a<br><hr>=<b>Factorization:<br>(x)</b>".toList
        (renderLines "a\n==========\r\n=Factorization:\n(x)".toList) ∧
      ∃ before line next,
        IsLineOf "a\n==========\r\n=Factorization:\n(x)".toList before line next ∧
          IsDivider line ∧ renderLines before = "a<br>".toList ∧
          renderLines next = "=Factorization:<br>(x)".toList := by
  have hb : IsBody "a\n==========\r\n=Factorization:\n(x)" false
      "a<br><hr>=<b>Factorization:<br>(x)</b>".toList := isBody_iff.mpr (by decide +kernel)
  have h : LastMarkerAt "a\n==========\r\n=Factorization:\n(x)".toList
      "a\n==========\r\n=".toList "\n(x)".toList :=
    splitLast_eq_some_iff_lastMarkerAt.mp (by decide +kernel)
  obtain ⟨hemphasis, -, hrules⟩ := emphasises_iff hb h
  exact ⟨hb, hemphasis.mpr (by decide), (hrules _ _).mp (by decide +kernel)⟩

/-- The rule in front of this marker stands for a part of the only line there is. -/
theorem not_emphasises_behind_long_rule :
    marker <:+: "==========Factorization:".toList ∧
      IsBody "==========Factorization:" false "<hr><b>Factorization:</b>".toList ∧
      ¬Emphasises "<hr><b>Factorization:</b>".toList
        (renderLines "==========Factorization:".toList) ∧
      ¬∃ before line next, IsLineOf "==========Factorization:".toList before line next ∧
        IsDivider line := by
  have hbody : "<hr><b>Factorization:</b>".toList = renderTrace "==========Factorization:".toList := by
    decide +kernel
  have h : LastMarkerAt "==========Factorization:".toList "==========".toList [] :=
    splitLast_eq_some_iff_lastMarkerAt.mp (by decide +kernel)
  have hfront : IsDivider (afterLast '\n' "==========".toList) :=
    (isDivider_iff ⟨_, false⟩).mp (by decide)
  refine ⟨⟨"==========".toList, [], by decide⟩, isBody_iff.mpr hbody, ?_, ?_⟩
  · rw [hbody]
    exact not_emphasises_of_isDivider h hfront
  · rintro ⟨before, line, next, hline, hd⟩
    have hrule := renderLines_eq_append_rule_iff.mpr ⟨before, line, next, hline, hd, rfl, rfl⟩
    have hmem : '<' ∈ renderLines "==========Factorization:".toList := by
      rw [hrule]
      simp
    exact absurd hmem (by decide +kernel)

end Emphasis

end MonicFactor
