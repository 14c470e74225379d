import Mathlib.Data.List.DropRight
import MonicFactor.Proofs.Transcript.Listing
import MonicFactor.Proofs.Transcript.WholeLine

/-! Decoding neither loses nor duplicates nor reorders what a transcript shows. Blanks aside, what
stands behind the last marker is the factors and then the line that tells the time, whatever the
layout of the text. -/

namespace MonicFactor

def shownText (cs : List Char) : List Char := cs.filter fun c => !isBlank c

/-- The last line of a text that is not blank. -/
def IsLastShownLine (text line : List Char) : Prop :=
  ∃ before after, IsLineOf text before line after ∧ shownText line ≠ [] ∧ shownText after = []

/-- The time a line tells stands behind its last colon, or is the line if it has none. -/
def ReadsElapsed (line elapsed : List Char) : Prop :=
  (∃ front value, line = front ++ ':' :: value ∧ ':' ∉ value ∧ elapsed = trim value) ∨
    (':' ∉ line ∧ elapsed = trim line)

/-- Blanks aside, a listing is its factors and then the line that tells the time. -/
def Accounts (decoded : Decoded) (listing : List Char) : Prop :=
  (shownText listing = [] ∧ decoded.factors = [] ∧ decoded.elapsed = "") ∨
    ∃ line, IsLastShownLine listing line ∧
      shownText listing = shownText (decoded.factors.flatMap String.toList ++ line) ∧
      ReadsElapsed line decoded.elapsed.toList

section ShownText

theorem shownText_append (xs ys : List Char) :
    shownText (xs ++ ys) = shownText xs ++ shownText ys := List.filter_append _ _

theorem shownText_eq_nil_iff {cs : List Char} :
    shownText cs = [] ↔ ∀ c ∈ cs, isBlank c = true := by
  simp [shownText]

theorem shownText_ne_nil_iff {cs : List Char} :
    shownText cs ≠ [] ↔ ∃ c ∈ cs, isBlank c = false := by
  simp [shownText_eq_nil_iff]

theorem shownText_cons_blank {c : Char} (h : isBlank c = true) (cs : List Char) :
    shownText (c :: cs) = shownText cs :=
  List.filter_cons_of_neg (by simp [h])

theorem shownText_withoutReturn (line : List Char) :
    shownText (withoutReturn line) = shownText line := by
  by_cases h : line.getLast? = some '\r'
  · obtain ⟨front, rfl⟩ := List.getLast?_eq_some_iff.mp h
    have hr : shownText ['\r'] = [] := shownText_cons_blank (by decide) []
    rw [withoutReturn, if_pos h, List.dropLast_concat, shownText_append, hr, List.append_nil]
  · rw [withoutReturn, if_neg h]

theorem shownText_ended (line rest : List Char) :
    shownText (line ++ '\n' :: rest) = shownText line ++ shownText rest := by
  rw [shownText_append, shownText_cons_blank (by decide)]

end ShownText

section ShownLines

theorem Line.isBlank_iff (line : Line) : line.isBlank = true ↔ shownText line.content = [] := by
  rw [isBlank, List.all_eq_true, shownText_eq_nil_iff]

theorem shownLines_last {line : List Char} (h : '\n' ∉ line) :
    shownLines line = if shownText line = [] then [] else [line] := by
  by_cases hs : shownText line = []
  · by_cases hne : line = []
    · rw [hne]
      rfl
    · have hb := (Line.isBlank_iff ⟨line, false⟩).mpr hs
      simp [shownLines, Line.split_unended h hne, hb, hs]
  · rw [if_neg hs, shownLines_unended (shownText_ne_nil_iff.mp hs) h]

theorem shownLines_ended {line : List Char} (h : '\n' ∉ line) (rest : List Char) :
    shownLines (line ++ '\n' :: rest) =
      (if shownText line = [] then [] else [withoutReturn line]) ++ shownLines rest := by
  have hb := Line.isBlank_iff ⟨withoutReturn line, true⟩
  rw [shownText_withoutReturn] at hb
  by_cases hs : shownText line = []
  · simp [shownLines, Line.split_ended h, hb.mpr hs, hs]
  · simp [shownLines, Line.split_ended h, mt hb.mp hs, hs]

theorem shownText_flatten_shownLines (text : List Char) :
    shownText (shownLines text).flatten = shownText text := by
  induction text using lines_induction with
  | last line h =>
    rw [shownLines_last h]
    by_cases hs : shownText line = []
    · rw [if_pos hs, hs]
      rfl
    · rw [if_neg hs, List.flatten_singleton]
  | ended line rest h ih =>
    rw [shownLines_ended h, List.flatten_append, shownText_append, ih, shownText_ended]
    by_cases hs : shownText line = []
    · rw [if_pos hs, hs]
      rfl
    · rw [if_neg hs, List.flatten_singleton, shownText_withoutReturn]

theorem exists_isLineOf_of_mem_shownLines {text line : List Char} (h : line ∈ shownLines text) :
    shownText line ≠ [] ∧ ∃ before after, IsLineOf text before line after := by
  induction text using lines_induction with
  | last front hf =>
    rw [shownLines_last hf, List.mem_ite_nil_left, List.mem_singleton] at h
    obtain ⟨hs, rfl⟩ := h
    exact ⟨hs, [], [], isLineOf_last hf⟩
  | ended front rest hf ih =>
    rw [shownLines_ended hf, List.mem_append] at h
    rcases h with h | h
    · rw [List.mem_ite_nil_left, List.mem_singleton] at h
      obtain ⟨hs, rfl⟩ := h
      rw [shownText_withoutReturn]
      exact ⟨hs, [], rest, isLineOf_ended hf rest⟩
    · obtain ⟨hs, before, after, hline⟩ := ih h
      exact ⟨hs, front ++ '\n' :: before, after, hline.append front⟩

theorem shownLines_eq_nil_iff {text : List Char} : shownLines text = [] ↔ shownText text = [] := by
  rw [← shownText_flatten_shownLines text]
  constructor
  · intro h
    rw [h]
    rfl
  · intro h
    rw [List.eq_nil_iff_forall_not_mem]
    intro line hl
    obtain ⟨c, hc, hb⟩ := shownText_ne_nil_iff.mp (exists_isLineOf_of_mem_shownLines hl).1
    have hblank := shownText_eq_nil_iff.mp h c (List.mem_flatten_of_mem hl hc)
    simp [hb] at hblank

theorem isLastShownLine_of_getLast? {text line : List Char}
    (h : (shownLines text).getLast? = some line) : IsLastShownLine text line := by
  induction text using lines_induction with
  | last front hf =>
    have hm := List.mem_of_getLast? h
    rw [shownLines_last hf, List.mem_ite_nil_left, List.mem_singleton] at hm
    obtain ⟨hs, rfl⟩ := hm
    exact ⟨[], [], isLineOf_last hf, hs, rfl⟩
  | ended front rest hf ih =>
    rw [shownLines_ended hf, List.getLast?_append, Option.or_eq_some_iff] at h
    rcases h with h | ⟨hrest, h⟩
    · obtain ⟨before, after, hline, hs, ha⟩ := ih h
      exact ⟨front ++ '\n' :: before, after, hline.append front, hs, ha⟩
    · have hblank := shownLines_eq_nil_iff.mp (List.getLast?_eq_none_iff.mp hrest)
      have hm := List.mem_of_getLast? h
      rw [List.mem_ite_nil_left, List.mem_singleton] at hm
      obtain ⟨hs, rfl⟩ := hm
      refine ⟨[], rest, isLineOf_ended hf rest, ?_, hblank⟩
      rwa [shownText_withoutReturn]

theorem IsLineOf.infix {text before line after : List Char} (h : IsLineOf text before line after) :
    line <:+: text := by
  rcases h.ends with ⟨rfl, -⟩ | ⟨e, rfl, -⟩
  · exact (List.suffix_append _ _).isInfix
  · exact ⟨before, e.text ++ after, List.append_assoc _ _ _⟩

end ShownLines

section Elapsed

theorem trim_trim (cs : List Char) : trim (trim cs) = trim cs := by
  have hp : trim cs <+: trimStart cs := List.rdropWhile_prefix _ _
  have hstart : trimStart (trim cs) = trim cs := by
    rw [trimStart, List.dropWhile_eq_self_iff]
    intro hl
    have hfirst := List.dropWhile_eq_self_iff.mp
      (List.dropWhile_idempotent isBlank cs) (Nat.lt_of_lt_of_le hl hp.length_le)
    rwa [hp.getElem hl]
  rw [trim, hstart]
  exact List.rdropWhile_idempotent _ _

theorem trim_subset (cs : List Char) : trim cs ⊆ cs := by
  have hp : trim cs <+: trimStart cs := List.rdropWhile_prefix _ _
  exact fun _ hc => (List.dropWhile_suffix _).subset (hp.subset hc)

theorem afterLast_subset (c : Char) (cs : List Char) : afterLast c cs ⊆ cs := by
  have hs : afterLast c cs <:+ cs := by
    rw [afterLast, ← List.reverse_prefix, List.reverse_reverse]
    exact List.takeWhile_prefix _
  exact hs.subset

theorem readsElapsed_elapsedOf (line : List Char) : ReadsElapsed line (elapsedOf line) := by
  by_cases h : ':' ∈ line
  · obtain ⟨value, front, hr, hv⟩ := List.eq_append_cons_of_mem (List.mem_reverse.mpr h)
    have hl : line = front.reverse ++ ':' :: value.reverse := by
      rw [← List.reverse_reverse line, hr]
      simp
    have hn : ':' ∉ value.reverse := by rwa [List.mem_reverse]
    refine .inl ⟨front.reverse, value.reverse, hl, hn, ?_⟩
    rw [elapsedOf, hl, afterLast_append_cons hn]
  · have hall : line.reverse.takeWhile (· != ':') = line.reverse := by
      rw [List.takeWhile_eq_self_iff]
      intro c hc
      rw [bne_iff_ne]
      rintro rfl
      exact h (List.mem_reverse.mp hc)
    refine .inr ⟨h, ?_⟩
    rw [elapsedOf, afterLast, hall, List.reverse_reverse]

theorem isElapsed_elapsedOf {line : List Char} (h : '\n' ∉ line) :
    IsElapsed (String.ofList (elapsedOf line)) where
  noColon := by
    rw [String.toList_ofList]
    exact fun hm => not_mem_afterLast ':' line (trim_subset _ hm)
  oneLine := by
    rw [String.toList_ofList]
    exact fun hm => h (afterLast_subset ':' line (trim_subset _ hm))
  trimmed := by
    rw [trimText, String.toList_ofList]
    exact congrArg String.ofList (trim_trim _)

theorem isElapsed_empty : IsElapsed "" where
  noColon := by simp
  oneLine := by simp
  trimmed := rfl

end Elapsed

section Decoding

def lastElapsed (text : List Char) : String :=
  String.ofList (((shownLines text).getLast?.map elapsedOf).getD [])

theorem shownLines_cases (text : List Char) :
    (shownText text = [] ∧ shownLines text = [] ∧ lastElapsed text = "") ∨
      ∃ front line, IsLastShownLine text line ∧ shownLines text = front ++ [line] ∧
        lastElapsed text = String.ofList (elapsedOf line) := by
  cases hl : (shownLines text).getLast? with
  | none =>
    have hnil := List.getLast?_eq_none_iff.mp hl
    refine .inl ⟨shownLines_eq_nil_iff.mp hnil, hnil, ?_⟩
    rw [lastElapsed, hl]
    rfl
  | some line =>
    obtain ⟨front, hf⟩ := List.getLast?_eq_some_iff.mp hl
    refine .inr ⟨front, line, isLastShownLine_of_getLast? hl, hf, ?_⟩
    rw [lastElapsed, hl]
    rfl

theorem isElapsed_lastElapsed (text : List Char) : IsElapsed (lastElapsed text) := by
  rcases shownLines_cases text with ⟨-, -, he⟩ | ⟨_, line, ⟨_, _, hline, -⟩, -, he⟩
  · rw [he]
    exact isElapsed_empty
  · rw [he]
    exact isElapsed_elapsedOf hline.oneLine

theorem decode_of_unmarked {transcript : String} (h : ¬ marker <:+: transcript.toList) :
    decode transcript = ⟨[], lastElapsed transcript.toList, transcript⟩ := by
  simp [decode, (splitLast_eq_none_iff marker_ne_nil).mpr h, shownLines, lastElapsed]

theorem decode_of_lastMarkerAt {transcript : String} {before listing : List Char}
    (h : LastMarkerAt transcript.toList before listing) :
    decode transcript =
      ⟨(shownLines listing).dropLast.map String.ofList, lastElapsed listing, transcript⟩ :=
  decode_of_splitLast (splitLast_eq_some_iff_lastMarkerAt.mpr h)

theorem accounts_of_lastMarkerAt {transcript : String} {before listing : List Char}
    (h : LastMarkerAt transcript.toList before listing) :
    Accounts (decode transcript) listing := by
  rw [decode_of_lastMarkerAt h]
  rcases shownLines_cases listing with ⟨hs, hnil, he⟩ | ⟨front, line, hlast, hlines, he⟩
  · rw [hnil]
    exact .inl ⟨hs, rfl, he⟩
  · rw [hlines, List.dropLast_concat, he]
    have hfactors : (front.map String.ofList).flatMap String.toList = front.flatten := by
      rw [List.flatMap_map]
      simp [List.flatMap]
    have hshown := shownText_flatten_shownLines listing
    rw [hlines, List.flatten_append, List.flatten_singleton, ← hfactors] at hshown
    refine .inr ⟨line, hlast, hshown.symm, ?_⟩
    rw [String.toList_ofList]
    exact readsElapsed_elapsedOf line

theorem shown_oneLine_unmarked_of_mem_factors {transcript factor : String}
    (h : factor ∈ (decode transcript).factors) :
    shownText factor.toList ≠ [] ∧ '\n' ∉ factor.toList ∧ ¬ marker <:+: factor.toList := by
  by_cases hm : marker <:+: transcript.toList
  · obtain ⟨before, listing, hlast⟩ := exists_lastMarkerAt hm
    rw [decode_of_lastMarkerAt hlast, List.mem_map] at h
    obtain ⟨line, hl, rfl⟩ := h
    obtain ⟨hs, _, _, hline⟩ := exists_isLineOf_of_mem_shownLines (List.dropLast_subset _ hl)
    rw [String.toList_ofList]
    exact ⟨hs, hline.oneLine, fun hi => hlast.unmarked (hi.trans hline.infix)⟩
  · rw [decode_of_unmarked hm] at h
    exact absurd h List.not_mem_nil

theorem isElapsed_decode (transcript : String) : IsElapsed (decode transcript).elapsed := by
  by_cases hm : marker <:+: transcript.toList
  · obtain ⟨before, listing, hlast⟩ := exists_lastMarkerAt hm
    rw [decode_of_lastMarkerAt hlast]
    exact isElapsed_lastElapsed listing
  · rw [decode_of_unmarked hm]
    exact isElapsed_lastElapsed transcript.toList

/-- Whatever the text, what is decoded accounts for all that its listing shows. -/
theorem decode_accounts (transcript : String) :
    ((∃ before listing, LastMarkerAt transcript.toList before listing ∧
          Accounts (decode transcript) listing) ∨
        (¬ marker <:+: transcript.toList ∧ (decode transcript).factors = [] ∧
          ((shownText transcript.toList = [] ∧ (decode transcript).elapsed = "") ∨
            ∃ line, IsLastShownLine transcript.toList line ∧
              ReadsElapsed line (decode transcript).elapsed.toList))) ∧
      (∀ factor ∈ (decode transcript).factors, shownText factor.toList ≠ [] ∧
        '\n' ∉ factor.toList ∧ ¬ marker <:+: factor.toList) ∧
      IsElapsed (decode transcript).elapsed := by
  refine ⟨?_, fun _ => shown_oneLine_unmarked_of_mem_factors, isElapsed_decode transcript⟩
  by_cases hm : marker <:+: transcript.toList
  · left
    obtain ⟨before, listing, hlast⟩ := exists_lastMarkerAt hm
    exact ⟨before, listing, hlast, accounts_of_lastMarkerAt hlast⟩
  · right
    rw [decode_of_unmarked hm]
    refine ⟨hm, rfl, ?_⟩
    rcases shownLines_cases transcript.toList with ⟨hs, -, he⟩ | ⟨_, line, hlast, -, he⟩
    · exact .inl ⟨hs, he⟩
    · refine .inr ⟨line, hlast, ?_⟩
      rw [he, String.toList_ofList]
      exact readsElapsed_elapsedOf line

end Decoding

end MonicFactor
