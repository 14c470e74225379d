import Mathlib.Data.List.Infix
import MonicFactor.Proofs.Page.Emphasis

/-! Bold markup nests properly whenever the arrows of a trace do. The tags of a verbose page are
the arrows of the text in order, and one more pair around those from the last marker on. -/

namespace MonicFactor

inductive Turn
  | opening
  | closing
deriving DecidableEq, Repr

/-- Nothing is closed that is not open, and nothing is left open. -/
structure Balanced (turns : List Turn) : Prop where
  opened : ∀ front, front <+: turns → front.count .closing ≤ front.count .opening
  settled : turns.count .opening = turns.count .closing

/-- The arrows of a line from left to right, each as soon as it is complete. -/
def lineArrows : List Char → List Turn
  | [] => []
  | '-' :: '-' :: '>' :: cs => .opening :: lineArrows cs
  | '<' :: '-' :: '-' :: cs => .closing :: lineArrows cs
  | _ :: cs => lineArrows cs

def arrows (text : List Char) : List Turn := (text.splitOn '\n').flatMap lineArrows

def boldTags : List Char → List Turn
  | [] => []
  | '<' :: 'b' :: '>' :: cs => .opening :: boldTags cs
  | '<' :: '/' :: 'b' :: '>' :: cs => .closing :: boldTags cs
  | _ :: cs => boldTags cs

section Balance

instance (turns : List Turn) : Decidable (Balanced turns) :=
  decidable_of_iff ((∀ front ∈ turns.inits, front.count .closing ≤ front.count .opening) ∧
      turns.count .opening = turns.count .closing)
    ⟨fun ⟨ho, hs⟩ => ⟨fun front hp => ho front ((List.mem_inits _ _).mpr hp), hs⟩,
      fun h => ⟨fun front hm => h.opened front ((List.mem_inits _ _).mp hm), h.settled⟩⟩

/-- A pair around the end of a balanced list opens one more level there. -/
theorem Balanced.enclose {before after : List Turn} (h : Balanced (before ++ after)) :
    Balanced (before ++ .opening :: (after ++ [.closing])) := by
  have hsettled := h.settled
  rw [List.count_append, List.count_append] at hsettled
  constructor
  · rintro front ⟨rest, hr⟩
    rcases List.append_eq_append_iff.mp hr with ⟨xs, hb, -⟩ | ⟨xs, rfl, hx⟩
    · refine h.opened front ?_
      rw [hb, List.append_assoc]
      exact List.prefix_append _ _
    · cases xs with
      | nil =>
        rw [List.append_nil]
        exact h.opened before (List.prefix_append _ _)
      | cons turn xs =>
        obtain ⟨rfl, he⟩ := List.cons.inj hx
        rcases List.prefix_concat_iff.mp ⟨rest, he.symm⟩ with rfl | hp
        · simp
          omega
        · have ho := h.opened (before ++ xs) ((List.prefix_append_right_inj before).mpr hp)
          rw [List.count_append, List.count_append] at ho
          simp
          omega
  · simp
    omega

end Balance

section Arrows

def Piece.turn : Piece → Option Turn
  | .opening => some .opening
  | .closing => some .closing
  | .char _ => none

theorem lineArrows_eq (cs : List Char) : lineArrows cs = (Piece.split cs).filterMap Piece.turn := by
  fun_induction Piece.split cs with
  | case1 => rfl
  | case2 cs ih => exact congrArg (Turn.opening :: ·) ih
  | case3 cs ih => exact congrArg (Turn.closing :: ·) ih
  | case4 c cs hopening hclosing ih =>
    rw [lineArrows, ih]
    · rfl
    · exact hopening
    · exact hclosing

theorem lineArrows_append {c : Char} (hd : c ≠ '-') (hg : c ≠ '>') (before after : List Char) :
    lineArrows (before ++ c :: after) = lineArrows before ++ lineArrows (c :: after) := by
  simp only [lineArrows_eq, Piece.split_append hd hg, List.filterMap_append]

theorem lineArrows_of_equals {line : List Char} (h : ∀ c ∈ line, c = '=') :
    lineArrows line = [] := by
  induction line with
  | nil => rfl
  | cons c line ih =>
    rw [List.forall_mem_cons] at h
    obtain ⟨rfl, hl⟩ := h
    exact ih hl

theorem lineArrows_withoutReturn (line : List Char) :
    lineArrows (withoutReturn line) = lineArrows line := by
  by_cases h : line.getLast? = some '\r'
  · obtain ⟨front, rfl⟩ := List.getLast?_eq_some_iff.mp h
    have hreturn : lineArrows ['\r'] = [] := rfl
    rw [withoutReturn, if_pos h, List.dropLast_concat, lineArrows_append (by decide) (by decide),
      hreturn, List.append_nil]
  · rw [withoutReturn, if_neg h]

theorem arrows_last {line : List Char} (h : '\n' ∉ line) : arrows line = lineArrows line := by
  rw [arrows, List.splitOn_eq_singleton h, List.flatMap_singleton]

theorem arrows_ended {line : List Char} (h : '\n' ∉ line) (rest : List Char) :
    arrows (line ++ '\n' :: rest) = lineArrows line ++ arrows rest := by
  simp only [arrows, List.splitOn_append_cons_self_of_not_mem h, List.flatMap_cons]

theorem arrows_eq_lineArrows (text : List Char) : arrows text = lineArrows text := by
  induction text using lines_induction with
  | last line h => exact arrows_last h
  | ended line rest h ih =>
    have hnewline : lineArrows ('\n' :: rest) = lineArrows rest := rfl
    rw [arrows_ended h, ih, lineArrows_append (by decide) (by decide), hnewline]

theorem LastMarkerAt.arrows_eq {text trace after : List Char} (h : LastMarkerAt text trace after) :
    arrows text = arrows trace ++ arrows (marker ++ after) := by
  have hcons : marker ++ after = 'F' :: (marker.tail ++ after) := rfl
  rw [← h.cut, arrows_eq_lineArrows, arrows_eq_lineArrows, arrows_eq_lineArrows, hcons,
    lineArrows_append (by decide) (by decide)]

end Arrows

section Tags

def Lexeme.turn : Lexeme → Option Turn
  | .mark .bold => some .opening
  | .mark .endBold => some .closing
  | _ => none

theorem boldTags_cons {c : Char} (h : c ≠ '<') (cs : List Char) : boldTags (c :: cs) = boldTags cs := by
  rw [boldTags]
  · exact fun _ hc => absurd hc h
  · exact fun _ hc => absurd hc h

theorem boldTags_spell (lexemes : List Lexeme) :
    boldTags (spell lexemes) = lexemes.filterMap Lexeme.turn := by
  induction lexemes with
  | nil => rfl
  | cons x lexemes ih =>
    cases x with
    | plain c h =>
      have hc : c ≠ '<' := by
        rintro rfl
        simp [IsPlain] at h
      exact (boldTags_cons hc _).trans ih
    | mark m =>
      rw [spell_cons]
      cases m with
      | bold => exact congrArg (Turn.opening :: ·) ih
      | endBold => exact congrArg (Turn.closing :: ·) ih
      | _ => exact ih

theorem turn_charLexeme (c : Char) : (charLexeme c).turn = none := by
  cases hx : charLexeme c with
  | plain d h => rfl
  | mark m =>
    have hm : m ∈ bodyMarks false :=
      @mem_bodyMarks_of_mem_escapeLexemes m [c] (by simp [escapeLexemes, hx]) false
    simp only [bodyMarks, Bool.false_eq_true, if_false, List.mem_cons, List.not_mem_nil,
      or_false] at hm
    rcases hm with rfl | rfl | rfl | rfl <;> rfl

theorem filterMap_turn_pieceLexemes (cs : List Char) :
    (pieceLexemes cs).filterMap Lexeme.turn = lineArrows cs := by
  rw [lineArrows_eq, pieceLexemes]
  induction Piece.split cs with
  | nil => rfl
  | cons piece pieces ih =>
    rw [List.flatMap_cons, List.filterMap_append, ih]
    cases piece with
    | opening => rfl
    | closing => rfl
    | char c =>
      have hc : (Piece.char c).lexemes.filterMap Lexeme.turn = [] := by
        simp [Piece.lexemes, turn_charLexeme]
      rw [hc]
      rfl

theorem filterMap_turn_line (line : List Char) (ended : Bool) :
    (Line.mk line ended).lexemes.filterMap Lexeme.turn = lineArrows line := by
  by_cases hd : IsDivider line
  · rw [Line.lexemes_of_isDivider hd, lineArrows_of_equals hd.2]
    rfl
  · rw [Line.lexemes_of_not_isDivider hd, List.filterMap_append, filterMap_turn_pieceLexemes]
    cases ended with
    | false => exact List.append_nil _
    | true => exact List.append_nil _

theorem boldTags_renderLines (text : List Char) : boldTags (renderLines text) = arrows text := by
  rw [← spell_lineLexemes, boldTags_spell]
  induction text using lines_induction with
  | last line h => rw [lineLexemes_last h, filterMap_turn_line, arrows_last h]
  | ended line rest h ih =>
    rw [lineLexemes_ended h, List.filterMap_append, filterMap_turn_line, ih, arrows_ended h,
      lineArrows_withoutReturn]

theorem LastMarkerAt.boldTags_eq {text trace after : List Char}
    (h : LastMarkerAt text trace after) :
    boldTags (renderTrace text) =
      arrows trace ++ .opening :: (arrows (marker ++ after) ++ [.closing]) := by
  have hlines (text : List Char) : (lineLexemes text).filterMap Lexeme.turn = arrows text := by
    rw [← boldTags_spell, spell_lineLexemes, boldTags_renderLines]
  rw [← spell_traceLexemes, boldTags_spell, traceLexemes_of_lastMarkerAt h]
  simp only [List.filterMap_append, hlines, List.append_assoc]
  rfl

theorem renderTrace_of_not_marker {text : List Char} (h : ¬ marker <:+: text) :
    renderTrace text = renderLines text := by
  simp only [renderTrace, (splitLast_eq_none_iff marker_ne_nil).mpr h]

end Tags

/-- If the arrows of a text are balanced, so are the bold tags of its page, wherever the marker
stands. Without a marker they are balanced only if the arrows are. -/
theorem balanced_boldTags {transcript : String} {failed : Bool} {body : List Char}
    (hb : IsBody transcript failed body) :
    (Balanced (arrows transcript.toList) → Balanced (boldTags body)) ∧
    (¬ marker <:+: transcript.toList → Balanced (boldTags body) →
      Balanced (arrows transcript.toList)) := by
  rw [isBody_iff.mp hb]
  constructor
  · intro h
    by_cases hm : marker <:+: transcript.toList
    · obtain ⟨trace, after, hcut⟩ := exists_lastMarkerAt hm
      rw [hcut.arrows_eq] at h
      rw [hcut.boldTags_eq]
      exact h.enclose
    · rw [renderTrace_of_not_marker hm, boldTags_renderLines]
      exact h
  · intro hm h
    rw [renderTrace_of_not_marker hm, boldTags_renderLines] at h
    exact h

theorem balanced_boldTags_across_marker :
    Balanced (arrows "-->\nFactorization:\n(x) <--".toList) ∧
      Balanced (boldTags
        "<b>&gt;&gt;&nbsp;<br><b>Factorization:<br>(x) &nbsp; &lt;&lt;</b></b>".toList) ∧
      ¬ marker <:+: "--> a <--".toList ∧
      Balanced (boldTags "<b>&gt;&gt;&nbsp; a &nbsp; &lt;&lt;</b>".toList) ∧
      Balanced (arrows "--> a <--".toList) := by
  have hmarked : IsBody "-->\nFactorization:\n(x) <--" true
      "<b>&gt;&gt;&nbsp;<br><b>Factorization:<br>(x) &nbsp; &lt;&lt;</b></b>".toList :=
    isBody_iff.mpr (by decide +kernel)
  have hplain : IsBody "--> a <--" false "<b>&gt;&gt;&nbsp; a &nbsp; &lt;&lt;</b>".toList :=
    isBody_iff.mpr (by decide +kernel)
  have harrows : Balanced (arrows "-->\nFactorization:\n(x) <--".toList) := by decide +kernel
  have hunmarked : ¬ marker <:+: "--> a <--".toList := fun h => absurd h.length_le (by decide)
  have htags : Balanced (boldTags "<b>&gt;&gt;&nbsp; a &nbsp; &lt;&lt;</b>".toList) := by
    decide +kernel
  exact ⟨harrows, (balanced_boldTags hmarked).1 harrows, hunmarked, htags,
    (balanced_boldTags hplain).2 hunmarked htags⟩

end MonicFactor
