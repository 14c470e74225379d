import Mathlib.Data.List.Induction
import MonicFactor.Polynomial.Scan

/-! The cells of an expression: their columns rise, and the last one stands where the last
character that is not blank does. -/

namespace MonicFactor

theorem cells_append (column : Nat) (before after : List Char) :
    cells column (before ++ after) = cells column before ++ cells (column + before.length) after := by
  induction before generalizing column with
  | nil => rfl
  | cons c before ih =>
    have hc : column + 1 + before.length = column + (c :: before).length := by simp; omega
    by_cases hb : isBlank c = true <;> simp [cells, hb, ih, hc]

theorem cells_eq_nil_iff {column : Nat} {cs : List Char} :
    cells column cs = [] ↔ ∀ c ∈ cs, isBlank c = true := by
  induction cs generalizing column with
  | nil => simp [cells]
  | cons c cs ih => by_cases hb : isBlank c = true <;> simp [cells, hb, ih]

theorem column_cells_bounds {column : Nat} {cs : List Char} {cell : Cell}
    (h : cell ∈ cells column cs) : column ≤ cell.column ∧ cell.column < column + cs.length := by
  induction cs generalizing column with
  | nil => cases h
  | cons c cs ih =>
    rw [List.length_cons]
    by_cases hb : isBlank c = true
    · rw [cells, if_pos hb] at h
      have := ih h
      omega
    · rw [cells, if_neg hb, List.mem_cons] at h
      rcases h with rfl | h
      · simp only
        omega
      · have := ih h
        omega

/-- A cell cuts the expression where its character stands. -/
theorem cells_eq_append_cons {column : Nat} {cs : List Char} {front back : List Cell} {cell : Cell}
    (h : cells column cs = front ++ cell :: back) :
    ∃ before c after, cs = before ++ c :: after ∧ isBlank c = false ∧
      cells column before = front ∧ cell = ⟨column + before.length, c.toLower⟩ ∧
      cells (column + before.length + 1) after = back := by
  induction cs generalizing column front with
  | nil => simp [cells] at h
  | cons d cs ih =>
    have hc (before : List Char) : column + (d :: before).length = column + 1 + before.length := by
      rw [List.length_cons]
      omega
    by_cases hb : isBlank d = true
    · rw [cells, if_pos hb] at h
      obtain ⟨before, c, after, rfl, hs, rfl, rfl, rfl⟩ := ih h
      exact ⟨d :: before, c, after, rfl, hs, by rw [cells, if_pos hb], by rw [hc], by rw [hc]⟩
    · rw [cells, if_neg hb] at h
      cases front with
      | nil =>
        obtain ⟨rfl, rfl⟩ := List.cons.inj h
        exact ⟨[], d, cs, rfl, by simpa using hb, rfl, rfl, rfl⟩
      | cons first front =>
        obtain ⟨rfl, hrest⟩ := List.cons.inj h
        obtain ⟨before, c, after, rfl, hs, rfl, rfl, rfl⟩ := ih hrest
        exact ⟨d :: before, c, after, rfl, hs, by rw [cells, if_neg hb], by rw [hc], by rw [hc]⟩

theorem cells_rising (column : Nat) (cs : List Char) :
    (cells column cs).Pairwise fun a b => a.column < b.column := by
  induction cs generalizing column with
  | nil => exact .nil
  | cons c cs ih =>
    by_cases hb : isBlank c = true
    · rw [cells, if_pos hb]
      exact ih _
    · rw [cells, if_neg hb, List.pairwise_cons]
      refine ⟨fun cell hc => ?_, ih _⟩
      have := column_cells_bounds hc
      simp only
      omega

/-- The column of the last character that is not blank. -/
def IsLastColumn (expression : String) (column : Nat) : Prop :=
  ∃ before c after, expression.toList = before ++ c :: after ∧ isBlank c = false ∧
    (∀ d ∈ after, isBlank d = true) ∧ column = before.length + 1

theorem cells_of_blank_after {before after : List Char} {c : Char} (hc : isBlank c = false)
    (ha : ∀ d ∈ after, isBlank d = true) :
    cells 1 (before ++ c :: after) = cells 1 before ++ [⟨before.length + 1, c.toLower⟩] := by
  have hnil : cells (1 + before.length + 1) after = [] := cells_eq_nil_iff.mpr ha
  rw [cells_append, cells, if_neg (by simp [hc]), hnil, Nat.add_comm 1]

theorem exists_last_shown {cs : List Char} (h : ∃ c ∈ cs, isBlank c = false) :
    ∃ before c after, cs = before ++ c :: after ∧ isBlank c = false ∧
      ∀ d ∈ after, isBlank d = true := by
  induction cs using List.reverseRecOn with
  | nil =>
    obtain ⟨c, hc, -⟩ := h
    cases hc
  | append_singleton cs d ih =>
    by_cases hd : isBlank d = true
    · have hcs : ∃ c ∈ cs, isBlank c = false := by
        obtain ⟨c, hc, hb⟩ := h
        rcases List.mem_append.mp hc with hc | hc
        · exact ⟨c, hc, hb⟩
        · rw [List.mem_singleton.mp hc, hd] at hb
          cases hb
      obtain ⟨before, c, after, rfl, hb, ha⟩ := ih hcs
      refine ⟨before, c, after ++ [d], by simp, hb, fun e he => ?_⟩
      rcases List.mem_append.mp he with he | he
      · exact ha e he
      · rw [List.mem_singleton.mp he]
        exact hd
    · exact ⟨cs, d, [], by simp, by simpa using hd, by simp⟩

theorem isLastColumn_iff {expression : String} {column : Nat} :
    IsLastColumn expression column ↔
      ∃ before cell, cells 1 expression.toList = before ++ [cell] ∧ cell.column = column := by
  constructor
  · rintro ⟨before, c, after, he, hc, ha, rfl⟩
    exact ⟨cells 1 before, _, by rw [he, cells_of_blank_after hc ha], rfl⟩
  · rintro ⟨before, cell, he, rfl⟩
    have hshown : ∃ c ∈ expression.toList, isBlank c = false := by
      by_contra hn
      have hnil : cells 1 expression.toList = [] := by
        rw [cells_eq_nil_iff]
        intro c hc
        by_contra hb
        exact hn ⟨c, hc, by simpa using hb⟩
      simp [hnil] at he
    obtain ⟨before', c, after, hs, hc, ha⟩ := exists_last_shown hshown
    rw [hs, cells_of_blank_after hc ha] at he
    have hcell := (List.append_inj' he rfl).2
    refine ⟨before', c, after, hs, hc, ha, ?_⟩
    rw [← List.singleton_inj.mp hcell]

end MonicFactor
