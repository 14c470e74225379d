import MonicFactor.Text.Utf8

/-! Decoding gives back what was encoded, and malformed octets in front of a text change none of
its characters. -/

namespace MonicFactor

theorem Utf8.read_cons (state : State) (octet : UInt8) (rest : Octets) :
    read state (octet :: rest) = (step state octet).1 ++ read (step state octet).2 rest := rfl

section Characters

theorem toNat_ofNat_octet {n : Nat} (h : n < 0x100) : (UInt8.ofNat n).toNat = n := by
  simp [Nat.mod_eq_of_lt h]

theorem Utf8.step_inside {code low high n : Nat} (hl : low ≤ n + 0x80) (hh : n + 0x80 ≤ high)
    (hn : n < 0x40) (more : Nat) :
    step (.inside code low high more) (UInt8.ofNat (n + 0x80)) =
      match more with
      | 0 => ([some (Char.ofNat (code * 64 + n))], .start)
      | more + 1 => ([], .inside (code * 64 + n) 0x80 0xBF more) := by
  have ho : (UInt8.ofNat (n + 0x80)).toNat = n + 0x80 := toNat_ofNat_octet (by omega)
  cases more with
  | zero => simp only [step, ho, if_pos (And.intro hl hh), Nat.add_sub_cancel]
  | succ more => simp only [step, ho, if_pos (And.intro hl hh), Nat.add_sub_cancel]

theorem Utf8.read_inside_last {code low high n : Nat} (hl : low ≤ n + 0x80)
    (hh : n + 0x80 ≤ high) (hn : n < 0x40) (rest : Octets) :
    read (.inside code low high 0) (UInt8.ofNat (n + 0x80) :: rest) =
      some (Char.ofNat (code * 64 + n)) :: read .start rest := by
  rw [read_cons, step_inside hl hh hn]
  rfl

theorem Utf8.read_inside_more {code low high n : Nat} (hl : low ≤ n + 0x80)
    (hh : n + 0x80 ≤ high) (hn : n < 0x40) (more : Nat) (rest : Octets) :
    read (.inside code low high (more + 1)) (UInt8.ofNat (n + 0x80) :: rest) =
      read (.inside (code * 64 + n) 0x80 0xBF more) rest := by
  rw [read_cons, step_inside hl hh hn]
  rfl

theorem Utf8.first_single {n : Nat} (h : n < 0x80) :
    first (UInt8.ofNat n) = ([some (Char.ofNat n)], .start) := by
  have ho : (UInt8.ofNat n).toNat = n := toNat_ofNat_octet (by omega)
  simp only [first, ho, if_pos h]

theorem Utf8.first_of_two {n : Nat} (h : 2 ≤ n) (hn : n < 0x20) :
    first (UInt8.ofNat (n + 0xC0)) = ([], .inside n 0x80 0xBF 0) := by
  have ho : (UInt8.ofNat (n + 0xC0)).toNat = n + 0xC0 := toNat_ofNat_octet (by omega)
  simp only [first, ho]
  rw [if_neg (by omega), if_neg (by omega), if_pos (by omega), Nat.add_sub_cancel]

theorem Utf8.first_of_three {n : Nat} (hn : n < 0x10) :
    first (UInt8.ofNat (n + 0xE0)) =
      ([], .inside n (if n = 0 then 0xA0 else 0x80) (if n = 0xD then 0x9F else 0xBF) 1) := by
  have ho : (UInt8.ofNat (n + 0xE0)).toNat = n + 0xE0 := toNat_ofNat_octet (by omega)
  have hlow : n + 0xE0 = 0xE0 ↔ n = 0 := by omega
  have hhigh : n + 0xE0 = 0xED ↔ n = 0xD := by omega
  simp only [first, ho, hlow, hhigh]
  rw [if_neg (by omega), if_neg (by omega), if_neg (by omega), if_pos (by omega),
    Nat.add_sub_cancel]

theorem Utf8.first_of_four {n : Nat} (hn : n < 5) :
    first (UInt8.ofNat (n + 0xF0)) =
      ([], .inside n (if n = 0 then 0x90 else 0x80) (if n = 4 then 0x8F else 0xBF) 2) := by
  have ho : (UInt8.ofNat (n + 0xF0)).toNat = n + 0xF0 := toNat_ofNat_octet (by omega)
  have hlow : n + 0xF0 = 0xF0 ↔ n = 0 := by omega
  have hhigh : n + 0xF0 = 0xF4 ↔ n = 4 := by omega
  simp only [first, ho, hlow, hhigh]
  rw [if_neg (by omega), if_neg (by omega), if_neg (by omega), if_neg (by omega),
    if_pos (by omega), Nat.add_sub_cancel]

theorem Utf8.read_encodeChar (c : Char) (rest : Octets) :
    read .start (String.utf8EncodeChar c ++ rest) = some c :: read .start rest := by
  have hvalid : c.toNat < 0xD800 ∨ 0xDFFF < c.toNat ∧ c.toNat < 0x110000 := c.valid
  have hc : Char.ofNat c.toNat = c := Char.ofNat_toNat c
  generalize hv : c.toNat = v at hvalid hc
  have hval : c.val.toNat = v := hv
  unfold String.utf8EncodeChar
  simp only [hval]
  -- one case for each length of the encoding
  by_cases h1 : v ≤ 0x7F
  · rw [if_pos h1, List.singleton_append, read_cons, step, first_single (by omega), hc]
    rfl
  rw [if_neg h1]
  by_cases h2 : v ≤ 0x7FF
  · have hfirst : v / 64 % 32 = v / 64 := Nat.mod_eq_of_lt (by omega)
    have hcode : v / 64 * 64 + v % 64 = v := by omega
    rw [if_pos h2, hfirst, List.cons_append, List.singleton_append, read_cons, step,
      first_of_two (by omega) (by omega), List.nil_append,
      read_inside_last (by omega) (by omega) (by omega), hcode, hc]
  rw [if_neg h2]
  by_cases h3 : v ≤ 0xFFFF
  · have hfirst : v / 4096 % 16 = v / 4096 := Nat.mod_eq_of_lt (by omega)
    have hcode : (v / 4096 * 64 + v / 64 % 64) * 64 + v % 64 = v := by omega
    -- the second octet keeps out what has a shorter form, and the surrogates
    have hlow : (if v / 4096 = 0 then 0xA0 else 0x80) ≤ v / 64 % 64 + 0x80 := by
      split <;> omega
    have hhigh : v / 64 % 64 + 0x80 ≤ if v / 4096 = 0xD then 0x9F else 0xBF := by
      split <;> omega
    rw [if_pos h3, hfirst, List.cons_append, List.cons_append, List.singleton_append, read_cons,
      step, first_of_three (by omega), List.nil_append, read_inside_more hlow hhigh (by omega),
      read_inside_last (by omega) (by omega) (by omega), hcode, hc]
  · have hfirst : v / 262144 % 8 = v / 262144 := Nat.mod_eq_of_lt (by omega)
    have hcode : ((v / 262144 * 64 + v / 4096 % 64) * 64 + v / 64 % 64) * 64 + v % 64 = v := by
      omega
    have hlow : (if v / 262144 = 0 then 0x90 else 0x80) ≤ v / 4096 % 64 + 0x80 := by
      split <;> omega
    have hhigh : v / 4096 % 64 + 0x80 ≤ if v / 262144 = 4 then 0x8F else 0xBF := by
      split <;> omega
    rw [if_neg h3, hfirst, List.cons_append, List.cons_append, List.cons_append,
      List.singleton_append, read_cons, step, first_of_four (by omega), List.nil_append,
      read_inside_more hlow hhigh (by omega), read_inside_more (by omega) (by omega) (by omega),
      read_inside_last (by omega) (by omega) (by omega), hcode, hc]

theorem Utf8.read_encode (cs : List Char) (rest : Octets) :
    read .start (encode cs ++ rest) = cs.map some ++ read .start rest := by
  induction cs with
  | nil => rfl
  | cons c cs ih =>
    rw [encode, List.flatMap_cons, List.append_assoc, read_encodeChar]
    exact congrArg _ ih

theorem Utf8.read_all_encode (cs : List Char) : read .start (encode cs) = cs.map some := by
  simpa [read, finish] using read_encode cs []

theorem Utf8.decode?_encode (cs : List Char) : decode? (encode cs) = some (String.ofList cs) := by
  have hm : (cs.map some).mapM id = some cs := by
    rw [List.mapM_map]
    exact List.mapM_pure.trans (congrArg some (List.map_id cs))
  rw [decode?, read_all_encode, hm]
  rfl

end Characters

section Malformed

/-- Inside a character only an octet that begins no character goes on with it. -/
def Utf8.State.AwaitsTail : State → Prop
  | .start => True
  | .inside _ low high _ => 0x80 ≤ low ∧ high ≤ 0xBF

theorem Utf8.awaitsTail_first (octet : UInt8) : (first octet).2.AwaitsTail := by
  simp only [first]
  split
  · trivial
  split
  · trivial
  split
  · exact ⟨by decide, by decide⟩
  split
  · constructor <;> split <;> decide
  split
  · constructor <;> split <;> decide
  · trivial

theorem Utf8.State.AwaitsTail.step {state : State} (h : state.AwaitsTail) (octet : UInt8) :
    (Utf8.step state octet).2.AwaitsTail := by
  cases state with
  | start => exact awaitsTail_first octet
  | inside code low high more =>
    simp only [Utf8.step]
    split
    · cases more with
      | zero => trivial
      | succ more => exact ⟨by decide, by decide⟩
    · exact awaitsTail_first octet

theorem Utf8.State.AwaitsTail.read_append {state : State} (h : state.AwaitsTail)
    (before : Octets) :
    ∃ found next, next.AwaitsTail ∧
      ∀ rest, read state (before ++ rest) = found ++ read next rest := by
  -- the octets may end inside a character, so any state that awaits a tail is possible
  induction before generalizing state with
  | nil => exact ⟨[], state, h, fun rest => rfl⟩
  | cons octet before ih =>
    obtain ⟨found, next, hn, hr⟩ := ih (h.step octet)
    refine ⟨(Utf8.step state octet).1 ++ found, next, hn, fun rest => ?_⟩
    rw [List.cons_append, read_cons, hr, List.append_assoc]

theorem Utf8.State.AwaitsTail.read_fresh {state : State} (h : state.AwaitsTail) {octet : UInt8}
    (ho : octet.toNat < 0x80 ∨ 0xBF < octet.toNat) (rest : Octets) :
    ∃ found, read state (octet :: rest) = found ++ read .start (octet :: rest) := by
  cases state with
  | start => exact ⟨[], rfl⟩
  | inside code low high more =>
    obtain ⟨hl, hh⟩ := h
    have hn : ¬(low ≤ octet.toNat ∧ octet.toNat ≤ high) := by omega
    refine ⟨[none], ?_⟩
    simp only [read_cons, Utf8.step, if_neg hn]
    rfl

theorem exists_fresh_encodeChar (c : Char) :
    ∃ octet rest, String.utf8EncodeChar c = octet :: rest ∧
      (octet.toNat < 0x80 ∨ 0xBF < octet.toNat) := by
  unfold String.utf8EncodeChar
  simp only
  split
  · refine ⟨_, _, rfl, .inl ?_⟩
    rw [toNat_ofNat_octet (by omega)]
    omega
  split
  · refine ⟨_, _, rfl, .inr ?_⟩
    rw [toNat_ofNat_octet (by omega)]
    omega
  split
  · refine ⟨_, _, rfl, .inr ?_⟩
    rw [toNat_ofNat_octet (by omega)]
    omega
  · refine ⟨_, _, rfl, .inr ?_⟩
    rw [toNat_ofNat_octet (by omega)]
    omega

theorem Utf8.exists_read_append_encode (before : Octets) (cs : List Char) :
    ∃ found, read .start (before ++ encode cs) = found ++ cs.map some := by
  cases cs with
  | nil => exact ⟨read .start before, by simp [encode]⟩
  | cons c cs =>
    -- the first octet of the text begins a character, so it ends whatever stands unfinished
    obtain ⟨octet, rest, hc, ho⟩ := exists_fresh_encodeChar c
    have he : encode (c :: cs) = octet :: (rest ++ encode cs) := by
      rw [encode, List.flatMap_cons, hc]
      rfl
    obtain ⟨found, next, hn, hr⟩ := @State.AwaitsTail.read_append .start trivial before
    obtain ⟨more, hm⟩ := hn.read_fresh ho (rest ++ encode cs)
    refine ⟨found ++ more, ?_⟩
    rw [hr, he, hm, ← he, read_all_encode, List.append_assoc]

theorem Utf8.exists_decodeLossy_append (before : Octets) (text : String) :
    ∃ front, decodeLossy (before ++ encode text.toList) = front ++ text := by
  obtain ⟨found, hr⟩ := exists_read_append_encode before text.toList
  refine ⟨String.ofList (found.map fun c => c.getD '\uFFFD'), ?_⟩
  rw [decodeLossy, hr, List.map_append, String.ofList_append]
  simp [Function.comp_def]

theorem Utf8.decodeLossy_encode (text : String) : decodeLossy (encode text.toList) = text := by
  rw [decodeLossy, read_all_encode]
  simp [Function.comp_def]

end Malformed

end MonicFactor
