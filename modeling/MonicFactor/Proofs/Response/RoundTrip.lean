import MonicFactor.CommandLine.Report
import MonicFactor.Proofs.Json.Quoted
import MonicFactor.Proofs.Text.Encoded
import MonicFactor.Response.Reader

/-! The JSON text of a response reads back as that response, on one line or laid out over several,
and so does what is printed for a transcript. -/

namespace MonicFactor

theorem Yields.shaped {α : Type} {least : Nat} {cs : List Char} {reading : Reading least α cs}
    {value : α} {rest : List Char} (h : Yields reading value rest) :
    Yields reading.shaped value rest := by
  obtain ⟨within, rfl⟩ := h
  exact ⟨within, rfl⟩

/-- Only gaps stand between the parts. -/
structure Spacing.IsGaps (spacing : Spacing) : Prop where
  behindColon : ∀ c ∈ spacing.behindColon, isGap c = true
  line : ∀ depth, ∀ c ∈ spacing.line depth, isGap c = true

theorem Spacing.isGaps_compact : compact.IsGaps where
  behindColon _ h := absurd h List.not_mem_nil
  line _ _ h := absurd h List.not_mem_nil

theorem Spacing.isGaps_pretty : pretty.IsGaps where
  behindColon c h := by
    rw [List.mem_singleton.mp h]
    rfl
  line depth c h := by
    rcases List.mem_cons.mp h with rfl | h
    · rfl
    · rw [List.eq_of_mem_replicate h]
      rfl

theorem skipGap_of_not_isGap {c : Char} (hc : isGap c = false) (rest : List Char) :
    skipGap (c :: rest) = c :: rest :=
  List.dropWhile_cons_of_neg (by simp [hc])

theorem quote_append (cs rest : List Char) :
    quote cs ++ rest = '"' :: (cs.flatMap quoteChar ++ '"' :: rest) := by
  simp [quote]

theorem skipGap_quote {gap : List Char} (hg : ∀ c ∈ gap, isGap c = true) (cs rest : List Char) :
    skipGap (gap ++ (quote cs ++ rest)) = '"' :: (cs.flatMap quoteChar ++ '"' :: rest) := by
  rw [quote_append]
  exact skipGap_append hg (by decide) _

theorem yields_readText (text : String) (rest : List Char) :
    Yields (readText (quote text.toList ++ rest)) text rest := by
  have hs := (readString_quoted text.toList rest []).shaped
  rw [List.reverse_nil, List.nil_append, String.ofList_toList] at hs
  rw [quote_append]
  exact hs.map_behind '"'

section Texts

theorem yields_readTexts_end {read : List String} {cs behind rest : List Char} {text : String}
    (ht : Yields (readText cs) text behind) (hm : Yields (readListMark behind) false rest) :
    Yields (readTexts read cs) (text :: read).reverse rest := by
  rw [readTexts]
  exact ht.bind fun _ => hm.shaped.bind fun _ => ⟨_, rfl⟩

theorem yields_readTexts_next {read texts : List String} {cs behind next rest : List Char}
    {text : String} (ht : Yields (readText cs) text behind)
    (hm : Yields (readListMark behind) true next)
    (hr : Yields (readTexts (text :: read) next) texts rest) :
    Yields (readTexts read cs) texts rest := by
  rw [readTexts]
  exact ht.bind fun _ => hm.shaped.bind fun _ => hr.bind fun _ => ⟨_, rfl⟩

variable {spacing : Spacing}

theorem yields_readTexts (hs : spacing.IsGaps) (text : String) (more read : List String)
    (rest : List Char) :
    Yields (readTexts read (quote text.toList ++ (spacing.renderTexts more ++ rest)))
      ((text :: read).reverse ++ more) rest := by
  -- on the texts behind the first one, whatever has been read before it
  induction more generalizing text read with
  | nil =>
    have hend : skipGap (spacing.renderTexts [] ++ rest) = ']' :: rest := by
      rw [Spacing.renderTexts, List.append_assoc]
      exact skipGap_append (hs.line 1) (by decide) rest
    rw [List.append_nil]
    exact yields_readTexts_end (yields_readText text _) (yields_readListMark_end hend)
  | cons next more ih =>
    have hcomma : skipGap (spacing.renderTexts (next :: more) ++ rest) =
        ',' :: (spacing.line 2 ++ (quote next.toList ++ (spacing.renderTexts more ++ rest))) := by
      rw [← skipGap_of_not_isGap (by decide)]
      simp [Spacing.renderTexts]
    have hmark := yields_readListMark_next hcomma (skipGap_quote (hs.line 2) _ _) (by decide)
    have hnext := ih next (text :: read)
    rw [List.reverse_cons, List.append_assoc, List.singleton_append, quote_append] at hnext
    exact yields_readTexts_next (yields_readText text _) hmark hnext

theorem yields_readTextList (hs : spacing.IsGaps) (texts : List String) (rest : List Char) :
    Yields (readTextList (spacing.renderList texts ++ rest)) texts rest := by
  cases texts with
  | nil =>
    obtain ⟨within, hn⟩ := readNext?_eq_some (@skipGap_of_not_isGap ']' (by decide) rest)
    have he : spacing.renderList [] ++ rest = '[' :: ']' :: rest := rfl
    rw [he]
    simp only [readTextList, hn, if_true]
    exact ⟨_, rfl⟩
  | cons text more =>
    obtain ⟨within, hn⟩ := readNext?_eq_some
      (skipGap_quote (hs.line 2) text.toList (spacing.renderTexts more ++ rest))
    have ht := yields_readTexts hs text more [] rest
    rw [quote_append] at ht
    obtain ⟨within', ht⟩ := ht
    have he : spacing.renderList (text :: more) ++ rest =
        '[' :: (spacing.line 2 ++ (quote text.toList ++ (spacing.renderTexts more ++ rest))) := by
      simp [Spacing.renderList]
    have hbracket : '"' ≠ ']' := by decide
    rw [he]
    simp only [readTextList, hn, if_neg hbracket, Found.onward, ht]
    exact ⟨_, rfl⟩

end Texts

section Fields

variable {spacing : Spacing}

theorem yields_readField_factors (hs : spacing.IsGaps) (time : Option String)
    (factors : List String) (rest : List Char) :
    Yields (PartialResponse.readField ⟨none, time⟩ "factors"
      (':' :: (spacing.behindColon ++ (spacing.renderList factors ++ rest))))
      ⟨some factors, time⟩ rest := by
  have hlist : skipGap (spacing.behindColon ++ (spacing.renderList factors ++ rest)) =
      spacing.renderList factors ++ rest := by
    cases factors with
    | nil => exact skipGap_append hs.behindColon (by decide) _
    | cons text more => exact skipGap_append hs.behindColon (by decide) _
  have hcolon := (yields_readColon (skipGap_of_not_isGap (by decide) _) hlist).shaped
  refine hcolon.bind fun _ => ?_
  exact (yields_readTextList hs factors rest).bind fun _ => ⟨_, rfl⟩

theorem yields_readField_time (hs : spacing.IsGaps) (factors : Option (List String))
    (time : String) (rest : List Char) :
    Yields (PartialResponse.readField ⟨factors, none⟩ "time"
      (':' :: (spacing.behindColon ++ (quote time.toList ++ rest))))
      ⟨factors, some time⟩ rest := by
  have htext := skipGap_quote hs.behindColon time.toList rest
  rw [← quote_append] at htext
  have hcolon := (yields_readColon (skipGap_of_not_isGap (by decide) _) htext).shaped
  refine hcolon.bind fun _ => ?_
  exact (yields_readText time rest).bind fun _ => ⟨_, rfl⟩

theorem yields_readFields_next {response next : PartialResponse} {result : Response} {key : String}
    {cs behindKey behindField more rest : List Char}
    (hk : Yields (readString true [] cs) key behindKey)
    (hf : Yields (response.readField key behindKey) next behindField)
    (hm : Yields (readObjectMark behindField) true more)
    (hr : Yields (next.readFields more) result rest) :
    Yields (response.readFields cs) result rest := by
  rw [PartialResponse.readFields]
  exact hk.shaped.bind fun _ => hf.bind fun _ => hm.shaped.bind fun _ => hr.bind fun _ => ⟨_, rfl⟩

theorem yields_readFields_end {response next : PartialResponse} {result : Response} {key : String}
    {cs behindKey behindField rest : List Char}
    (hk : Yields (readString true [] cs) key behindKey)
    (hf : Yields (response.readField key behindKey) next behindField)
    (hm : Yields (readObjectMark behindField) false rest) (hr : next.finish = .ok result) :
    Yields (response.readFields cs) result rest := by
  rw [PartialResponse.readFields]
  refine hk.shaped.bind fun _ => hf.bind fun _ => hm.shaped.bind fun _ => ?_
  simp only [Bool.false_eq_true, if_false, hr]
  exact ⟨_, rfl⟩

theorem Response.toList_render_append (spacing : Spacing) (response : Response)
    (rest : List Char) :
    (response.render spacing).toList ++ rest =
      '{' :: (spacing.line 1 ++ (quote "factors".toList ++ (':' :: (spacing.behindColon ++
        (spacing.renderList response.factors ++ (',' :: (spacing.line 1 ++ (quote "time".toList ++
          (':' :: (spacing.behindColon ++ (quote response.time.toList ++
            (spacing.line 0 ++ '}' :: rest)))))))))))) := by
  simp [render, Spacing.renderKey]

theorem yields_readFields (hs : spacing.IsGaps) (response : Response) (rest : List Char) :
    Yields (PartialResponse.readFields ⟨none, none⟩
      ("factors".toList.flatMap quoteChar ++ '"' :: (':' :: (spacing.behindColon ++
        (spacing.renderList response.factors ++ (',' :: (spacing.line 1 ++ (quote "time".toList ++
          (':' :: (spacing.behindColon ++ (quote response.time.toList ++
            (spacing.line 0 ++ '}' :: rest))))))))))))
      response rest := by
  have hnext := skipGap_quote (hs.line 1) "time".toList (':' :: (spacing.behindColon ++
    (quote response.time.toList ++ (spacing.line 0 ++ '}' :: rest))))
  have hend : skipGap (spacing.line 0 ++ '}' :: rest) = '}' :: rest :=
    skipGap_append (hs.line 0) (by decide) rest
  refine yields_readFields_next (readString_quoted _ _ [])
    (yields_readField_factors hs none response.factors _)
    (yields_readObjectMark_next (skipGap_of_not_isGap (by decide) _) hnext) ?_
  exact yields_readFields_end (readString_quoted _ _ [])
    (yields_readField_time hs (some response.factors) response.time _)
    (yields_readObjectMark_end hend) rfl

theorem yields_readResponse_fields {cs fields rest : List Char} {response : Response}
    (h : skipGap cs = '"' :: fields)
    (hf : Yields (PartialResponse.readFields ⟨none, none⟩ fields) response rest) :
    Yields (readResponse ('{' :: cs)) response rest := by
  obtain ⟨_, hn⟩ := readNext?_eq_some h
  obtain ⟨_, hf⟩ := hf
  have hkey : '"' ≠ '}' := by decide
  simp only [readResponse, hn, if_neg hkey, if_true, hf]
  exact ⟨_, rfl⟩

theorem yields_readResponse (hs : spacing.IsGaps) (response : Response) (rest : List Char) :
    Yields (readResponse ((response.render spacing).toList ++ rest)) response rest := by
  have hf := yields_readResponse_fields (skipGap_quote (hs.line 1) "factors".toList _)
    (yields_readFields hs response rest)
  rw [Response.toList_render_append]
  exact hf

theorem Response.read_of_yields {text : String} {response : Response} {gap : List Char}
    (h : Yields (readResponse (skipGap text.toList)) response gap) (hg : skipGap gap = []) :
    read text = .ok response := by
  obtain ⟨_, h⟩ := h
  simp only [read, h, bind, Except.bind, readNext?_eq_none hg]
  rfl

/-- Gaps may follow, such as the end of the line that a response is printed on. -/
theorem Response.read_of_toList {spacing : Spacing} (hs : spacing.IsGaps) (response : Response)
    {gap : List Char} (hg : ∀ c ∈ gap, isGap c = true) {text : String}
    (ht : text.toList = (response.render spacing).toList ++ gap) : read text = .ok response := by
  have hopen : skipGap text.toList = (response.render spacing).toList ++ gap := by
    rw [ht, toList_render_append]
    exact skipGap_of_not_isGap (by decide) _
  have hr := yields_readResponse hs response gap
  rw [← hopen] at hr
  exact read_of_yields hr (skipGap_gap hg)

theorem Response.read_render {spacing : Spacing} (hs : spacing.IsGaps) (response : Response) :
    read (response.render spacing) = .ok response :=
  read_of_toList hs response (fun _ h => absurd h List.not_mem_nil) (List.append_nil _).symm

end Fields

theorem Invocation.report_decode (transcript : String) (launch : Launch) :
    decode.report (Utf8.encode transcript.toList) launch =
      .success (decodedText transcript ++ "\n") := by
  simp only [report, reportTranscript, Utf8.decode?_encode, String.ofList_toList]

/-- A response of any texts, on one line or over several, and what is printed for any transcript,
the end of its line with it. -/
theorem Response.read_back :
    (∀ response : Response, read (response.render .compact) = .ok response ∧
      read (response.render .pretty) = .ok response) ∧
    ∀ transcript launch,
      read (Invocation.decode.report (Utf8.encode transcript.toList) launch).output =
        .ok ⟨(decode transcript).factors, (decode transcript).elapsed⟩ := by
  constructor
  · intro response
    exact ⟨read_render Spacing.isGaps_compact response, read_render Spacing.isGaps_pretty response⟩
  · intro transcript launch
    have hgap : ∀ c ∈ "\n".toList, isGap c = true := List.all_eq_true.mp (by decide)
    rw [Invocation.report_decode]
    exact read_of_toList Spacing.isGaps_pretty (ofDecoded (decode transcript)) hgap
      String.toList_append

end MonicFactor
