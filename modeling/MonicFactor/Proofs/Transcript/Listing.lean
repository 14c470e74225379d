import MonicFactor.Proofs.Transcript.LastOccurrence
import MonicFactor.Proofs.Transcript.Lines
import MonicFactor.Transcript.Decoded

/-! Decoding undoes the layout of a transcript: any text, the last marker, the factors and then
the time, one to a line, with blank lines between them. -/

namespace MonicFactor

structure IsBlankLine (line : List Char) : Prop where
  blank : ∀ c ∈ line, isBlank c = true
  oneLine : '\n' ∉ line

structure IsFactorLine (factor : String) : Prop where
  shown : ∃ c ∈ factor.toList, isBlank c = false
  oneLine : '\n' ∉ factor.toList
  unmarked : ¬ marker <:+: factor.toList
  noReturn : factor.toList.getLast? ≠ some '\r'

structure IsElapsed (elapsed : String) : Prop where
  noColon : ':' ∉ elapsed.toList
  oneLine : '\n' ∉ elapsed.toList
  trimmed : trimText elapsed = elapsed

def timeLine (elapsed : String) : List Char :=
  ['T', 'i', 'm', 'e', ':', ' '] ++ elapsed.toList

inductive BlankLines : List Char → Prop
  | nil : BlankLines []
  | cons {line text : List Char} (e : LineEnd) (hb : IsBlankLine line) (h : BlankLines text) :
    BlankLines (line ++ (e.text ++ text))

/-- What may stand behind the line of the marker. The line of the time may lack its line end if
nothing follows it. -/
inductive Listing (elapsed : String) : List String → List Char → Prop
  | blank {factors : List String} {line text : List Char} (e : LineEnd) (hb : IsBlankLine line)
    (h : Listing elapsed factors text) : Listing elapsed factors (line ++ (e.text ++ text))
  | factor {factors : List String} {text : List Char} (factor : String) (e : LineEnd)
    (h : Listing elapsed factors text) :
    Listing elapsed (factor :: factors) (factor.toList ++ (e.text ++ text))
  | time {text : List Char} (e : LineEnd) (h : BlankLines text) :
    Listing elapsed [] (timeLine elapsed ++ (e.text ++ text))
  | last : Listing elapsed [] (timeLine elapsed)

def layout (before : String) (e : LineEnd) (listing : List Char) : String :=
  before ++ String.ofList (marker ++ (e.text ++ listing))

theorem timeLine_eq (elapsed : String) :
    timeLine elapsed = ['T', 'i', 'm', 'e'] ++ ':' :: ' ' :: elapsed.toList := rfl

theorem exists_shown_timeLine (elapsed : String) : ∃ c ∈ timeLine elapsed, isBlank c = false :=
  ⟨'T', List.mem_append_left _ (by decide), by decide⟩

theorem IsElapsed.oneLine_timeLine {elapsed : String} (h : IsElapsed elapsed) :
    '\n' ∉ timeLine elapsed := by
  rw [timeLine, List.mem_append, not_or]
  exact ⟨by decide, h.oneLine⟩

theorem getLast?_trimEnd {cs : List Char} {c : Char} (h : (trimEnd cs).getLast? = some c) :
    isBlank c = false := by
  have hh := List.head?_dropWhile_not isBlank cs.reverse
  rw [trimEnd, List.getLast?_reverse] at h
  rwa [h] at hh

theorem IsElapsed.toList_trim {elapsed : String} (h : IsElapsed elapsed) :
    trim elapsed.toList = elapsed.toList := by
  have ht := congrArg String.toList h.trimmed
  rwa [trimText, String.toList_ofList] at ht

theorem IsElapsed.noReturn_timeLine {elapsed : String} (h : IsElapsed elapsed) :
    (timeLine elapsed).getLast? ≠ some '\r' := by
  intro hr
  rw [timeLine, List.getLast?_append, Option.or_eq_some_iff] at hr
  rcases hr with hr | ⟨-, hr⟩
  · rw [← h.toList_trim] at hr
    exact absurd (getLast?_trimEnd hr) (by decide)
  · exact absurd hr (by decide)

theorem IsElapsed.elapsedOf_timeLine {elapsed : String} (h : IsElapsed elapsed) :
    elapsedOf (timeLine elapsed) = elapsed.toList := by
  have hc : ':' ∉ ' ' :: elapsed.toList := by
    rw [List.mem_cons, not_or]
    exact ⟨by decide, h.noColon⟩
  have hs : trimStart (' ' :: elapsed.toList) = trimStart elapsed.toList :=
    List.dropWhile_cons_of_pos (by decide)
  rw [timeLine_eq, elapsedOf, afterLast_append_cons hc, trim, hs]
  exact h.toList_trim

theorem BlankLines.shownLines_eq {text : List Char} (h : BlankLines text) :
    shownLines text = [] := by
  induction h with
  | nil => rfl
  | cons e hb _ ih => rw [shownLines_blank hb.blank hb.oneLine, ih]

theorem Listing.shownLines_eq {elapsed : String} {factors : List String} {text : List Char}
    (ht : IsElapsed elapsed) (hf : ∀ f ∈ factors, IsFactorLine f)
    (h : Listing elapsed factors text) :
    shownLines text = factors.map String.toList ++ [timeLine elapsed] := by
  induction h with
  | blank e hb _ ih => rw [shownLines_blank hb.blank hb.oneLine, ih hf]
  | factor factor e _ ih =>
    have hl := hf factor List.mem_cons_self
    rw [shownLines_append hl.shown hl.oneLine hl.noReturn,
      ih fun f hm => hf f (List.mem_cons_of_mem _ hm), List.map_cons, List.cons_append]
  | time e hb =>
    rw [shownLines_append (exists_shown_timeLine elapsed) ht.oneLine_timeLine
      ht.noReturn_timeLine, hb.shownLines_eq, List.map_nil, List.nil_append]
  | last =>
    rw [shownLines_unended (exists_shown_timeLine elapsed) ht.oneLine_timeLine, List.map_nil,
      List.nil_append]

theorem marker_ne_nil : marker ≠ [] := by decide

theorem not_marker_infix_append_end {line text : List Char} (hl : ¬ marker <:+: line)
    (ht : ¬ marker <:+: text) (e : LineEnd) : ¬ marker <:+: line ++ (e.text ++ text) := by
  have hn : '\n' ∉ marker := by decide
  have hr : '\r' ∉ marker := by decide
  cases e with
  | newline => exact not_infix_append_cons hn hl ht
  | returnNewline =>
    have hnil : ¬ marker <:+: [] := by simpa using marker_ne_nil
    exact not_infix_append_cons hr hl (not_infix_append_cons hn hnil ht)

theorem IsBlankLine.unmarked {line : List Char} (h : IsBlankLine line) :
    ¬ marker <:+: line := by
  intro hm
  have hb := h.blank 'F' (hm.subset (by decide))
  exact absurd hb (by decide)

theorem BlankLines.unmarked {text : List Char} (h : BlankLines text) : ¬ marker <:+: text := by
  induction h with
  | nil => simpa using marker_ne_nil
  | cons e hb _ ih => exact not_marker_infix_append_end hb.unmarked ih e

/-- The colon that ends the marker is the colon of the line, and too little stands before it. -/
theorem IsElapsed.unmarked_timeLine {elapsed : String} (h : IsElapsed elapsed) :
    ¬ marker <:+: timeLine elapsed := by
  have hc : ':' ∈ marker := by decide
  rw [timeLine, List.infix_append_iff_ne_nil]
  rintro (hm | hm | ⟨first, second, -, hs, he, -, hp⟩)
  · exact absurd hm.length_le (by decide)
  · exact h.noColon (hm.subset hc)
  · have hl : second.getLast hs = ':' := by
      have hg := congrArg List.getLast? he
      rw [List.getLast?_append, List.getLast?_eq_some_getLast hs, Option.some_or] at hg
      exact (Option.some.inj hg).symm
    exact h.noColon (hp.subset (hl ▸ List.getLast_mem hs))

theorem Listing.unmarked {elapsed : String} {factors : List String} {text : List Char}
    (ht : IsElapsed elapsed) (hf : ∀ f ∈ factors, IsFactorLine f)
    (h : Listing elapsed factors text) : ¬ marker <:+: text := by
  induction h with
  | blank e hb _ ih => exact not_marker_infix_append_end hb.unmarked (ih hf) e
  | factor factor e _ ih =>
    have hl := hf factor List.mem_cons_self
    have hrest := ih fun f hm => hf f (List.mem_cons_of_mem _ hm)
    exact not_marker_infix_append_end hl.unmarked hrest e
  | time e hb => exact not_marker_infix_append_end ht.unmarked_timeLine hb.unmarked e
  | last => exact ht.unmarked_timeLine

theorem splitLast_layout {before : String} {e : LineEnd} {listing : List Char}
    (h : ¬ marker <:+: listing) :
    splitLast marker (layout before e listing).toList =
      some (before.toList, marker ++ (e.text ++ listing)) := by
  have hself : ¬ marker <:+: marker.tail := fun hm => absurd hm.length_le (by decide)
  rw [splitLast_eq_some_iff marker_ne_nil]
  refine ⟨by simp [layout], List.prefix_append _ _, ?_⟩
  rw [List.tail_append_of_ne_nil marker_ne_nil]
  exact not_marker_infix_append_end hself h e

/-- The text is cut at its last marker. -/
structure LastMarkerAt (text before after : List Char) : Prop where
  cut : before ++ (marker ++ after) = text
  last : ¬ marker <:+: marker.tail ++ after

theorem splitLast_eq_some_iff_lastMarkerAt {text before after : List Char} :
    splitLast marker text = some (before, marker ++ after) ↔ LastMarkerAt text before after := by
  rw [splitLast_eq_some_iff marker_ne_nil, List.tail_append_of_ne_nil marker_ne_nil]
  exact ⟨fun ⟨hc, _, hl⟩ => ⟨hc, hl⟩, fun ⟨hc, hl⟩ => ⟨hc, List.prefix_append _ _, hl⟩⟩

theorem exists_lastMarkerAt {text : List Char} (h : marker <:+: text) :
    ∃ before after, LastMarkerAt text before after := by
  obtain ⟨before, after, hs, -⟩ := splitLast_append_of_infix marker_ne_nil h []
  exact ⟨before, after, splitLast_eq_some_iff_lastMarkerAt.mp hs⟩

theorem LastMarkerAt.unmarked {text before after : List Char}
    (h : LastMarkerAt text before after) : ¬ marker <:+: after :=
  fun hm => h.last (List.infix_append_of_infix_right hm)

theorem shownLines_end (e : LineEnd) (text : List Char) :
    shownLines (e.text ++ text) = shownLines text := by
  have hb : ∀ c ∈ ([] : List Char), isBlank c = true := fun _ hc => absurd hc List.not_mem_nil
  simpa using shownLines_blank hb List.not_mem_nil e text

theorem decode_of_splitLast {transcript : String} {before rest : List Char}
    (h : splitLast marker transcript.toList = some (before, marker ++ rest)) :
    decode transcript =
      { factors := (shownLines rest).dropLast.map String.ofList
        elapsed := String.ofList (((shownLines rest).getLast?.map elapsedOf).getD [])
        transcript } := by
  simp [decode, h, shownLines]

theorem foundMarker_iff {transcript : String} :
    (decode transcript).foundMarker = true ↔ marker <:+: transcript.toList := by
  have hn := @splitLast_eq_none_iff marker transcript.toList marker_ne_nil
  have hd : (decode transcript).transcript = transcript := rfl
  rw [Decoded.foundMarker, hd, Option.isSome_iff_ne_none, ne_eq, hn, Decidable.not_not]

/-- Only what stands behind the last marker is decoded. -/
theorem decode_append_of_marker {transcript : String} (h : marker <:+: transcript.toList)
    (front : String) :
    (decode (front ++ transcript)).factors = (decode transcript).factors ∧
      (decode (front ++ transcript)).elapsed = (decode transcript).elapsed := by
  obtain ⟨before, rest, hs, hf⟩ := splitLast_append_of_infix marker_ne_nil h front.toList
  rw [← String.toList_append] at hf
  rw [decode_of_splitLast hs, decode_of_splitLast hf]
  exact ⟨rfl, rfl⟩

theorem decode_layout {elapsed : String} {factors : List String} {listing : List Char}
    (before : String) (e : LineEnd) (ht : IsElapsed elapsed)
    (hf : ∀ f ∈ factors, IsFactorLine f) (h : Listing elapsed factors listing) :
    decode (layout before e listing) = ⟨factors, elapsed, layout before e listing⟩ ∧
      (decode (layout before e listing)).foundMarker = true := by
  have hs : splitLast marker (layout before e listing).toList = _ :=
    splitLast_layout (h.unmarked ht hf)
  have hd := decode_of_splitLast hs
  rw [shownLines_end, h.shownLines_eq ht hf, List.dropLast_concat, List.getLast?_concat,
    Option.map_some, Option.getD_some, ht.elapsedOf_timeLine, String.ofList_toList,
    List.map_map] at hd
  have hid : factors.map (String.ofList ∘ String.toList) = factors := by simp
  rw [hid] at hd
  refine ⟨hd, ?_⟩
  rw [hd, Decoded.foundMarker, hs, Option.isSome_some]

theorem decode_layout_after_partial_marker :
    IsElapsed "2 ms" ∧ (∀ f ∈ ["x + 1", "Factor: x"], IsFactorLine f) ∧
      decode "Factorization:\nFactorFactorization:\r\n \nx + 1\r\n\r\nFactor: x\nTime: 2 ms" =
        ⟨["x + 1", "Factor: x"], "2 ms",
          "Factorization:\nFactorFactorization:\r\n \nx + 1\r\n\r\nFactor: x\nTime: 2 ms"⟩ := by
  have ht : IsElapsed "2 ms" := ⟨by decide, by decide, by decide⟩
  have hf : ∀ f ∈ ["x + 1", "Factor: x"], IsFactorLine f := by
    rw [List.forall_mem_cons, List.forall_mem_singleton]
    constructor
    · exact ⟨⟨'x', by decide, by decide⟩, by decide, fun h => absurd h.length_le (by decide),
        by decide⟩
    · exact ⟨⟨'x', by decide, by decide⟩, by decide, fun h => absurd h.length_le (by decide),
        by decide⟩
  have hspace : IsBlankLine [' '] := ⟨List.all_eq_true.mp (by decide), by decide⟩
  have hempty : IsBlankLine [] := ⟨List.all_eq_true.mp (by decide), by decide⟩
  have h := Listing.blank .newline hspace <| .factor "x + 1" .returnNewline <|
    .blank .returnNewline hempty <| .factor "Factor: x" .newline <| @Listing.last "2 ms"
  have hd := (decode_layout "Factorization:\nFactor" .returnNewline ht hf h).1
  have hl : layout "Factorization:\nFactor" .returnNewline
      ([' '] ++ (LineEnd.newline.text ++ ("x + 1".toList ++ (LineEnd.returnNewline.text ++
        ([] ++ (LineEnd.returnNewline.text ++ ("Factor: x".toList ++
          (LineEnd.newline.text ++ timeLine "2 ms")))))))) =
      "Factorization:\nFactorFactorization:\r\n \nx + 1\r\n\r\nFactor: x\nTime: 2 ms" := by
    decide +kernel
  rw [hl] at hd
  exact ⟨ht, hf, hd⟩

end MonicFactor
