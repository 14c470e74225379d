import MonicFactor.Proofs.Page.Pieces
import MonicFactor.Proofs.Transcript.NormalForm

/-! The lines of a page can be read back: what the page stands for is what the trace says, and
nothing else of the trace is left on the page. -/

namespace MonicFactor

/-- What is not written as itself: how it stands on a page, and what it stands for. -/
def codes : List (List Char × List Glyph) :=
  [("&amp;".toList, [.char '&']), ("&lt;".toList, [.char '<']), ("&gt;".toList, [.char '>']),
    ("&quot;".toList, [.char '"']), ("<br>".toList, [.char '\n']), ("<hr>".toList, [.divider]),
    ("<b>&gt;&gt;&nbsp;".toList, [.char '-', .char '-', .char '>']),
    ("&nbsp; &lt;&lt;</b>".toList, [.char '<', .char '-', .char '-'])]

/-- Reads a page behind the characters that are still to be skipped. -/
def readBackFrom : Nat → List Char → List Glyph
  | _, [] => []
  | skip + 1, _ :: cs => readBackFrom skip cs
  | 0, c :: cs =>
    match codes.find? fun code => code.1.isPrefixOf (c :: cs) with
    | some code => code.2 ++ readBackFrom (code.1.length - 1) cs
    | none => .char c :: readBackFrom 0 cs

def readBack (page : List Char) : List Glyph := readBackFrom 0 page

section Codes

theorem readBackFrom_append (passed rest : List Char) :
    readBackFrom passed.length (passed ++ rest) = readBack rest := by
  induction passed with
  | nil => rfl
  | cons c passed ih => exact ih

/-- No code begins another one. -/
theorem codes_apart {code code' : List Char × List Glyph} (h : code ∈ codes)
    (h' : code' ∈ codes) (hp : code.1 <+: code'.1) : code = code' := by
  have hall : codes.all (fun code => codes.all fun code' =>
      !code.1.isPrefixOf code'.1 || code == code') = true := by decide +kernel
  have hh := List.all_eq_true.mp (List.all_eq_true.mp hall code h) code' h'
  rw [List.isPrefixOf_iff_prefix.mpr hp] at hh
  exact eq_of_beq hh

theorem find?_codes {code : List Char × List Glyph} (h : code ∈ codes) (rest : List Char) :
    codes.find? (fun code' => code'.1.isPrefixOf (code.1 ++ rest)) = some code := by
  cases hf : codes.find? fun code' => code'.1.isPrefixOf (code.1 ++ rest) with
  | none =>
    have hn := List.find?_eq_none.mp hf code h
    exact absurd (List.isPrefixOf_iff_prefix.mpr (List.prefix_append _ _)) hn
  | some code' =>
    have hm := List.mem_of_find?_eq_some hf
    have hb : code'.1.isPrefixOf (code.1 ++ rest) = true := by simpa using List.find?_some hf
    have hp := List.isPrefixOf_iff_prefix.mp hb
    -- of two beginnings of one text, one begins the other
    rcases List.prefix_or_prefix_of_prefix hp (List.prefix_append code.1 rest) with hh | hh
    · rw [codes_apart hm h hh]
    · rw [codes_apart h hm hh]

theorem codes_ne_nil {code : List Char × List Glyph} (h : code ∈ codes) :
    ∃ c cs, code.1 = c :: cs ∧ (c = '<' ∨ c = '&') := by
  have hall : codes.all (fun code => code.1.head? == some '<' || code.1.head? == some '&') = true := by
    decide +kernel
  have hh := List.all_eq_true.mp hall code h
  rw [Bool.or_eq_true, beq_iff_eq, beq_iff_eq] at hh
  rcases hh with hh | hh
  · obtain ⟨cs, hc⟩ := List.head?_eq_some_iff.mp hh
    exact ⟨_, cs, hc, .inl rfl⟩
  · obtain ⟨cs, hc⟩ := List.head?_eq_some_iff.mp hh
    exact ⟨_, cs, hc, .inr rfl⟩

theorem readBack_code {code : List Char × List Glyph} (h : code ∈ codes) (rest : List Char) :
    readBack (code.1 ++ rest) = code.2 ++ readBack rest := by
  have hf := find?_codes h rest
  obtain ⟨c, cs, hc, -⟩ := codes_ne_nil h
  rw [hc, List.cons_append] at hf ⊢
  rw [readBack, readBackFrom, hf]
  change code.2 ++ readBackFrom (code.1.length - 1) (cs ++ rest) = _
  rw [hc, List.length_cons, Nat.add_sub_cancel, readBackFrom_append]

theorem readBack_cons {c : Char} (h : c ≠ '<' ∧ c ≠ '&') (rest : List Char) :
    readBack (c :: rest) = .char c :: readBack rest := by
  have hf : codes.find? (fun code => code.1.isPrefixOf (c :: rest)) = none := by
    rw [List.find?_eq_none]
    intro code hm hp
    obtain ⟨d, cs, hc, hd⟩ := codes_ne_nil hm
    rw [hc, List.isPrefixOf_cons_cons, Bool.and_eq_true, beq_iff_eq] at hp
    rw [hp.1] at hd
    rcases hd with hd | hd
    · exact h.1 hd
    · exact h.2 hd
  rw [readBack, readBackFrom, hf]
  rfl

end Codes

section Reading

theorem readBack_escapeChar (c : Char) (rest : List Char) :
    readBack (escapeChar c ++ rest) = .char c :: readBack rest := by
  unfold escapeChar
  split
  · exact @readBack_code ("&amp;".toList, [.char '&']) (by decide) rest
  · exact @readBack_code ("&lt;".toList, [.char '<']) (by decide) rest
  · exact @readBack_code ("&gt;".toList, [.char '>']) (by decide) rest
  · exact @readBack_code ("&quot;".toList, [.char '"']) (by decide) rest
  · rename_i ha hl hg hq
    exact readBack_cons ⟨hl, ha⟩ rest

theorem readBack_piece (piece : Piece) (rest : List Char) :
    readBack (piece.render ++ rest) = piece.source.map .char ++ readBack rest := by
  cases piece with
  | opening =>
    exact @readBack_code ("<b>&gt;&gt;&nbsp;".toList, [.char '-', .char '-', .char '>'])
      (by decide) rest
  | closing =>
    exact @readBack_code ("&nbsp; &lt;&lt;</b>".toList, [.char '<', .char '-', .char '-'])
      (by decide) rest
  | char c => exact readBack_escapeChar c rest

def drawContent (cs : List Char) : List Char := (Piece.split cs).flatMap Piece.render

theorem readBack_pieces (pieces : List Piece) (rest : List Char) :
    readBack (pieces.flatMap Piece.render ++ rest) =
      (pieces.flatMap Piece.source).map .char ++ readBack rest := by
  induction pieces with
  | nil => rfl
  | cons piece pieces ih =>
    rw [List.flatMap_cons, List.append_assoc, readBack_piece, ih, List.flatMap_cons,
      List.map_append, List.append_assoc]

theorem readBack_line (line : Line) (rest : List Char) :
    readBack (line.render ++ rest) = line.glyphs ++ readBack rest := by
  have hrule := @readBack_code ("<hr>".toList, [.divider]) (by decide) rest
  have hbreak := @readBack_code ("<br>".toList, [.char '\n']) (by decide) rest
  have hpieces := readBack_pieces (Piece.split line.content)
  rw [flatMap_source_split] at hpieces
  unfold Line.render Line.glyphs glyphs
  by_cases hd : line.isDivider = true
  · rw [if_pos hd, if_pos ((isDivider_iff line).mp hd)]
    exact hrule
  · rw [if_neg hd, if_neg fun hh => hd ((isDivider_iff line).mpr hh), List.append_assoc, hpieces,
      List.append_assoc]
    by_cases he : line.ended = true
    · rw [if_pos he, if_pos he]
      exact congrArg _ hbreak
    · rw [if_neg he, if_neg he]
      rfl

theorem readBack_renderLines (text : List Char) : readBack (renderLines text) = normalForm text := by
  rw [normalForm_eq, renderLines]
  induction Line.split text with
  | nil => rfl
  | cons line lines ih => rw [List.flatMap_cons, List.flatMap_cons, readBack_line, ih]

end Reading

section Drawing

/-- Draws glyphs behind the reversed beginning of a line. -/
def drawFrom : List Char → List Glyph → List Char
  | current, [] => drawContent current.reverse
  | current, .divider :: rest => drawContent current.reverse ++ "<hr>".toList ++ drawFrom [] rest
  | current, .char c :: rest =>
    if c = '\n' then drawContent current.reverse ++ "<br>".toList ++ drawFrom [] rest
    else drawFrom (c :: current) rest

theorem drawFrom_line {line : List Char} (h : '\n' ∉ line) (current : List Char)
    (rest : List Glyph) :
    drawFrom current (line.map .char ++ rest) = drawFrom (line.reverse ++ current) rest := by
  induction line generalizing current with
  | nil => rfl
  | cons c line ih =>
    rw [List.mem_cons, not_or] at h
    rw [List.map_cons, List.cons_append, drawFrom, if_neg (Ne.symm h.1), ih h.2]
    simp

theorem drawFrom_glyphs {line : List Char} (h : '\n' ∉ line) {ended : Bool} {rest : List Glyph}
    (hr : ended = false → rest = []) :
    drawFrom [] (glyphs ended line ++ rest) = (Line.mk line ended).render ++ drawFrom [] rest := by
  unfold glyphs Line.render
  by_cases hd : IsDivider line
  · rw [if_pos hd, if_pos ((isDivider_iff ⟨line, ended⟩).mpr hd)]
    rfl
  · rw [if_neg hd, if_neg fun hh => hd ((isDivider_iff ⟨line, ended⟩).mp hh), List.append_assoc,
      drawFrom_line h, List.append_nil]
    cases ended with
    | false =>
      rw [hr rfl]
      change drawFrom line.reverse [] = _
      rw [drawFrom, List.reverse_reverse]
      exact ((List.append_nil _).trans (List.append_nil _)).symm
    | true =>
      change drawFrom line.reverse (.char '\n' :: rest) = _
      rw [drawFrom, if_pos rfl, List.reverse_reverse]
      rfl

theorem drawFrom_normalForm (text : List Char) :
    drawFrom [] (normalForm text) = renderLines text := by
  induction text using lines_induction with
  | last line h =>
    have hd := @drawFrom_glyphs line h false [] fun _ => rfl
    rw [List.append_nil, ← normalForm_last h] at hd
    rw [hd]
    by_cases hne : line = []
    · rw [hne]
      rfl
    · rw [renderLines, Line.split_unended h hne]
      rfl
  | ended line rest h ih =>
    rw [normalForm_ended h, drawFrom_glyphs (not_mem_withoutReturn h) (by simp), ih, renderLines,
      renderLines, Line.split_ended h, List.flatMap_cons]

end Drawing

/-- The lines of a page say what the trace says: it can be read back from them, and they are the
same for two traces only if these say the same. -/
theorem renderLines_faithful :
    (∀ text, readBack (renderLines text) = normalForm text) ∧
    ∀ text other, renderLines text = renderLines other ↔ normalForm text = normalForm other := by
  refine ⟨readBack_renderLines, fun text other => ⟨fun h => ?_, fun h => ?_⟩⟩
  · rw [← readBack_renderLines, h, readBack_renderLines]
  · rw [← drawFrom_normalForm, h, drawFrom_normalForm]

end MonicFactor
