import MonicFactor.Text.Markup

/-! The pieces of a line spell the line, and a line that is cut where no arrow can go on has the
pieces of its parts. -/

namespace MonicFactor

def Piece.source : Piece → List Char
  | .opening => "-->".toList
  | .closing => "<--".toList
  | .char c => [c]

theorem flatMap_source_split (cs : List Char) : (Piece.split cs).flatMap Piece.source = cs := by
  fun_induction Piece.split cs with
  | case1 => rfl
  | case2 cs ih => exact congrArg ("-->".toList ++ ·) ih
  | case3 cs ih => exact congrArg ("<--".toList ++ ·) ih
  | case4 c cs _ _ ih => exact congrArg (c :: ·) ih

theorem exists_cons_cons_of_append {cs after rest : List Char} {a b c : Char} (ha : c ≠ a)
    (hb : c ≠ b) (h : cs ++ c :: after = a :: b :: rest) : ∃ cs', cs = a :: b :: cs' := by
  cases cs with
  | nil => exact absurd (List.cons.inj h).1 ha
  | cons d cs =>
    have hh := List.cons.inj h
    cases cs with
    | nil => exact absurd (List.cons.inj hh.2).1 hb
    | cons e cs => exact ⟨cs, by rw [hh.1, (List.cons.inj hh.2).1]⟩

/-- No arrow reaches across a character that neither continues nor ends one. -/
theorem Piece.split_append {c : Char} (hd : c ≠ '-') (hg : c ≠ '>') (before after : List Char) :
    split (before ++ c :: after) = split before ++ split (c :: after) := by
  fun_induction split before with
  | case1 => rfl
  | case2 cs ih => exact congrArg (Piece.opening :: ·) ih
  | case3 cs ih => exact congrArg (Piece.closing :: ·) ih
  | case4 d cs hopening hclosing ih =>
    rw [List.cons_append, split, ih, List.cons_append]
    · rintro rest rfl he
      obtain ⟨cs', rfl⟩ := exists_cons_cons_of_append hd hg he
      exact hopening cs' rfl rfl
    · rintro rest rfl he
      obtain ⟨cs', rfl⟩ := exists_cons_cons_of_append hd hd he
      exact hclosing cs' rfl rfl

end MonicFactor
