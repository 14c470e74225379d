import Mathlib.Logic.Relation
import MonicFactor.Proofs.Polynomial.Coefficients
import MonicFactor.Proofs.Polynomial.Descent

/-! An expression read by descent, turn after turn, and the dense vector filled with the sums of its
terms. The reading is never broken off and gives what the scan gives, in no more turns than there
are characters to read. -/

namespace MonicFactor

/-- Between two turns: the cursor, the column of a minus that waits for its term, and the terms so
far, the latest first. -/
structure Descent where
  cursor : Cursor
  minus : Option Nat
  terms : List Term
deriving DecidableEq, Repr

/-- What a turn does: it passes a sign, or calls for a term with the sign that waits. -/
inductive Action
  | pass (cell : Cell)
  | term (sign : Int)
deriving DecidableEq, Repr

namespace Descent

def start (expression : String) : Descent := ⟨⟨cells 1 expression.toList, 0⟩, none, []⟩

/-- No turn is taken at the end. -/
def action? (r : Descent) : Option Action :=
  r.cursor.peek.map fun cell =>
    if cell.symbol = .plus ∨ cell.symbol = .minus then .pass cell
    else .term (if r.minus.isSome then -1 else 1)

def perform (r : Descent) : Action → Except Stop Descent
  | .pass cell =>
    match r.minus with
    | some column => refuse (.danglingSign column)
    | none =>
      let minus := if cell.symbol = .minus then some cell.column else none
      .ok ⟨r.cursor.advance, minus, r.terms⟩
  | .term sign => do
    let (term, cursor) ← r.cursor.term sign
    liftFormat cursor.separator
    .ok ⟨cursor, none, term :: r.terms⟩

def finish (r : Descent) : Except Stop (List Term) :=
  match r.minus with
  | some column => refuse (.danglingSign column)
  | none => .ok r.terms.reverse

/-- Takes turns up to the end, but no more than a number of them. -/
def run : Nat → Descent → Except Stop (List Term)
  | 0, r =>
    match r.action? with
    | none => r.finish
    | some _ => .error (.broken .turnsUsedUp)
  | turns + 1, r =>
    match r.action? with
    | none => r.finish
    | some action => r.perform action >>= run turns

def Turn (r next : Descent) : Prop :=
  ∃ action, r.action? = some action ∧ r.perform action = .ok next

abbrev Reachable (expression : String) : Descent → Prop :=
  Relation.ReflTransGen Turn (start expression)

end Descent

/-- A sum is put at its place in a dense vector, which has to be there. -/
def placeSum (dense : List Int) (entry : Nat × Int) : Except Stop (List Int) :=
  if entry.1 < dense.length then .ok (dense.set entry.1 entry.2)
  else .error (.broken (.indexOutOfRange entry.1 dense.length))

/-- The sums are placed among zeros, the lowest exponent first. -/
def Sums.dense (sums : Sums) : Except Stop (List Int) :=
  sums.reverse.foldlM placeSum (List.replicate (sums.top.1 + 1) 0)

def violate {α : Type} (e : ConstraintError) : Except Stop α := .error (.refused (.constraint e))

def denseOfTerms (bound : Option Nat) (terms : List Term) : Except Stop (List Int) := do
  let sums ← (terms.foldlM Sums.addTerm []).mapError fun e => .refused (.constraint e)
  let (degree, leading) := sums.top
  if degreeBound bound < degree then violate (.degreeTooLarge degree (degreeBound bound))
  else if leading ≠ 1 then violate (.notMonic leading)
  else sums.dense

/-- Reads with as many turns as there are characters that are not blank. -/
def readDense (bound : Option Nat) (expression : String) : Except Stop (List Int) := do
  let terms ← (Descent.start expression).run (significant expression).length
  denseOfTerms bound terms

section Turns

variable {r next : Descent} {action : Action}

def Descent.scan (r : Descent) : Scan := ⟨r.terms, .idle r.minus⟩

/-- A sign is passed, and for a term is called only where something else stands. -/
theorem Descent.action?_cases (h : r.action? = some action) :
    ∃ cell, r.cursor.peek = some cell ∧
      ((cell.symbol = .plus ∨ cell.symbol = .minus) ∧ action = .pass cell ∨
        (cell.symbol ≠ .plus ∧ cell.symbol ≠ .minus) ∧
          action = .term (if r.minus.isSome then -1 else 1)) := by
  obtain ⟨cell, hp, h⟩ := Option.map_eq_some_iff.mp h
  refine ⟨cell, hp, ?_⟩
  by_cases hs : cell.symbol = .plus ∨ cell.symbol = .minus
  · rw [if_pos hs] at h
    exact .inl ⟨hs, h.symm⟩
  · rw [if_neg hs] at h
    exact .inr ⟨not_or.mp hs, h.symm⟩

theorem Descent.tracks_term {sign : Int} (h : r.action? = some (.term sign)) :
    r.cursor.Tracks (.idle r.minus) (Cursor.EndsTerm r.cursor.pos) (r.cursor.term sign) := by
  obtain ⟨cell, hp, ⟨-, ha⟩ | ⟨⟨hplus, hminus⟩, ha⟩⟩ := action?_cases h
  · cases ha
  · cases ha
    exact Cursor.tracks_term hp hplus hminus

/-- What a turn can do: it refuses what the scan refuses, or it gets on, and the scan with it. -/
def Descent.Advances (r : Descent) (result : Except Stop Descent) : Prop :=
  (∃ e, result = refuse e ∧ r.scan.read r.cursor.rest = .error e) ∨
    ∃ next, result = .ok next ∧ r.cursor.Reaches next.cursor ∧ r.cursor.pos < next.cursor.pos ∧
      r.scan.read r.cursor.rest = next.scan.read next.cursor.rest

theorem Descent.advances_pass {cell : Cell} (hp : r.cursor.peek = some cell)
    (hs : cell.symbol = .plus ∨ cell.symbol = .minus) : r.Advances (r.perform (.pass cell)) := by
  unfold Advances perform scan
  rw [Cursor.rest_of_peek hp, Scan.read_cons]
  cases r.minus with
  | some column =>
    refine .inl ⟨_, rfl, ?_⟩
    rcases hs with hs | hs <;> simp only [Scan.step, Mode.step.eq_def, hs] <;> rfl
  | none =>
    refine .inr ⟨_, rfl, Cursor.reaches_advance hp, Nat.lt_succ_self _, ?_⟩
    rcases hs with hs | hs <;> simp only [Scan.step, Mode.step.eq_def, hs] <;> rfl

theorem Descent.advances_term {sign : Int} (h : r.action? = some (.term sign)) :
    r.Advances (r.perform (.term sign)) := by
  have ht := tracks_term h
  rw [perform]
  generalize r.cursor.term sign = result at ht
  cases ht with
  | refused he => exact .inl ⟨_, rfl, he r.terms⟩
  | @reads term cursor mode hr hread hends =>
    obtain ⟨hlt, hm⟩ := hends
    have hscan := (hread r.terms).trans (hm.read_eq r.terms)
    change r.Advances (liftFormat cursor.separator >>= fun _ => .ok ⟨cursor, none, term :: r.terms⟩)
    cases hs : cursor.separator with
    | error e =>
      rw [hs] at hscan
      exact .inl ⟨e, rfl, hscan⟩
    | ok =>
      rw [hs] at hscan
      exact .inr ⟨_, rfl, hr, hlt, hscan⟩

theorem Descent.advances_perform (h : r.action? = some action) :
    r.Advances (r.perform action) := by
  obtain ⟨cell, hp, ⟨hs, rfl⟩ | ⟨-, rfl⟩⟩ := action?_cases h
  · exact advances_pass hp hs
  · exact advances_term h

theorem Descent.finish_eq (h : r.action? = none) :
    r.finish = liftFormat (r.scan.read r.cursor.rest) := by
  have hp : r.cursor.peek = none := Option.map_eq_none_iff.mp h
  rw [Cursor.rest_eq_nil hp, finish, scan]
  cases r.minus <;> rfl

/-- A turn reads at least one character. -/
theorem Descent.length_rest_lt (h : r.action? = some action)
    (hr : r.cursor.Reaches next.cursor) (hlt : r.cursor.pos < next.cursor.pos) :
    next.cursor.rest.length < r.cursor.rest.length := by
  obtain ⟨cell, hp, -⟩ := action?_cases h
  have hleft := Cursor.pos_lt_length hp
  rw [Cursor.rest, Cursor.rest, List.length_drop, List.length_drop, hr.cells_eq]
  omega

/-- As many turns as there are characters left are enough, and they give what the scan gives. -/
theorem Descent.run_eq {turns : Nat} (h : r.cursor.rest.length ≤ turns) :
    r.run turns = liftFormat (r.scan.read r.cursor.rest) := by
  induction turns generalizing r with
  | zero =>
    have hnil : r.cursor.rest = [] := List.eq_nil_of_length_eq_zero (Nat.le_zero.mp h)
    have ha : r.action? = none := by
      rw [action?, Cursor.peek_eq_head?, hnil]
      rfl
    rw [run, ha]
    exact finish_eq ha
  | succ turns ih =>
    rw [run]
    cases ha : r.action? with
    | none => exact finish_eq ha
    | some action =>
      dsimp only
      rcases advances_perform ha with ⟨e, hperform, hscan⟩ | ⟨next, hperform, hr, hlt, hscan⟩
      · rw [hperform, hscan]
        rfl
      · have hfewer := length_rest_lt ha hr hlt
        rw [hperform, hscan]
        exact ih (by omega)

theorem Descent.run_start (expression : String) :
    (start expression).run (significant expression).length = liftFormat (readTerms expression) :=
  run_eq (Nat.le_of_eq (length_significant expression))

/-- Wherever the turns lead, the cursor stands in the expression. -/
theorem Descent.Reachable.cursor {expression : String} (h : Reachable expression r) :
    r.cursor.cells = cells 1 expression.toList ∧ r.cursor.pos ≤ r.cursor.cells.length := by
  induction h with
  | refl => exact ⟨rfl, Nat.zero_le _⟩
  | tail _ hturn ih =>
    obtain ⟨action, ha, hnext⟩ := hturn
    rcases advances_perform ha with ⟨e, hperform, -⟩ | ⟨next, hperform, hr, -, -⟩
    · rw [hperform] at hnext
      cases hnext
    · rw [hperform] at hnext
      cases hnext
      rw [hr.cells_eq]
      exact ⟨ih.1, hr.pos_le_length ih.2⟩

theorem Descent.Reachable.length_cells {expression : String} (h : Reachable expression r) :
    r.cursor.cells.length = (significant expression).length := by
  rw [h.cursor.1, length_significant]

/-- A term that is read takes the cursor on, and leaves it in the text. -/
theorem Descent.pos_of_term {sign : Int} {term : Term} {cursor : Cursor}
    (h : r.action? = some (.term sign)) (ht : r.cursor.term sign = .ok (term, cursor)) :
    r.cursor.pos < cursor.pos ∧
      (r.cursor.pos ≤ r.cursor.cells.length → cursor.pos ≤ r.cursor.cells.length) := by
  have htracks := tracks_term h
  rw [ht] at htracks
  cases htracks with
  | reads hreaches _ hends => exact ⟨hends.1, hreaches.pos_le_length⟩

end Turns

section Dense

theorem Sums.set_map_sumAt (n e : Nat) (sum : Int) (rest : Sums) :
    ((List.range n).map fun k => sumAt k rest).set e sum =
      (List.range n).map fun k => sumAt k ((e, sum) :: rest) := by
  apply List.ext_getElem
  · simp
  · intro k hk _
    simp [List.getElem_set, sumAt]

/-- Every sum has its place in a vector that reaches past the exponents. -/
theorem Sums.foldlM_placeSum {sums : Sums} {n : Nat} (hlt : ∀ k ∈ sums.exponents, k < n) :
    sums.reverse.foldlM placeSum (List.replicate n 0) =
      .ok ((List.range n).map fun k => sums.sumAt k) := by
  induction sums with
  | nil =>
    have hzeros : List.replicate n (0 : Int) = (List.range n).map fun _ => 0 := by
      rw [List.map_const', List.length_range]
    rw [hzeros]
    rfl
  | cons entry rest ih =>
    obtain ⟨e, sum⟩ := entry
    obtain ⟨he, hrest⟩ := List.forall_mem_cons.mp hlt
    have hplace : placeSum ((List.range n).map fun k => sumAt k rest) (e, sum) =
        .ok ((List.range n).map fun k => sumAt k ((e, sum) :: rest)) := by
      rw [placeSum, if_pos (by simpa using he), set_map_sumAt]
    rw [List.reverse_cons, List.foldlM_append, ih hrest]
    change placeSum _ (e, sum) >>= pure = _
    rw [hplace]
    rfl

theorem Sums.Represents.dense_eq {sums : Sums} {terms : List Term} (h : sums.Represents terms) :
    sums.dense =
      .ok ((List.range (highestExponent terms + 1)).map fun k => coefficientSum k terms) := by
  have hlt : ∀ k ∈ sums.exponents, k < highestExponent terms + 1 := by
    intro k hk
    obtain ⟨term, hm, rfl⟩ := (h.mem_exponents k).mp hk
    exact Nat.lt_succ_of_le (le_highestExponent hm)
  have hsums : (fun k => sums.sumAt k) = fun k => coefficientSum k terms := funext h.sumAt_eq
  rw [dense, h.top, foldlM_placeSum hlt, hsums]

theorem denseOfTerms_eq (bound : Option Nat) (terms : List Term) :
    denseOfTerms bound terms =
      ((Monic.ofTerms bound terms).map Monic.coefficients).mapError
        fun e => .refused (.constraint e) := by
  rcases Sums.represents_nil.foldlM terms with ⟨before, term, -, he⟩ | ⟨sums, he, hs⟩
  · simp only [denseOfTerms, Monic.ofTerms, he]
    rfl
  · rw [List.nil_append] at hs
    rw [Monic.ofTerms_of_sums he, denseOfTerms, he]
    change (if degreeBound bound < sums.top.1 then _
      else if sums.top.2 ≠ 1 then _ else sums.dense) = _
    by_cases hd : degreeBound bound < sums.top.1
    · rw [if_pos hd, if_pos hd]
      rfl
    · rw [if_neg hd, if_neg hd]
      by_cases h1 : sums.top.2 ≠ 1
      · rw [if_pos h1, if_pos h1]
        rfl
      · rw [if_neg h1, if_neg h1, hs.dense_eq]
        rw [hs.top, not_not] at h1
        exact congrArg Except.ok (hs.coefficients h1).symm

end Dense

/-- The reading by descent is what reading comes to. -/
theorem readDense_eq (bound : Option Nat) (expression : String) :
    readDense bound expression =
      ((Monic.read bound expression).map Monic.coefficients).mapError .refused := by
  rw [readDense, Descent.run_start, Monic.read]
  cases readTerms expression with
  | error e => rfl
  | ok terms =>
    change denseOfTerms bound terms =
      (((Monic.ofTerms bound terms).mapError .constraint).map Monic.coefficients).mapError .refused
    rw [denseOfTerms_eq]
    cases Monic.ofTerms bound terms <;> rfl

theorem readDense_ne_broken (bound : Option Nat) (expression : String) (breach : Breach) :
    readDense bound expression ≠ .error (.broken breach) := by
  rw [readDense_eq]
  cases Monic.read bound expression <;> simp [Except.map, Except.mapError]

theorem exists_read_of_readDense {bound : Option Nat} {expression : String} {dense : List Int}
    (h : readDense bound expression = .ok dense) :
    ∃ p, Monic.read bound expression = .ok p ∧ p.coefficients = dense := by
  rw [readDense_eq] at h
  cases hr : Monic.read bound expression with
  | error e =>
    rw [hr] at h
    cases h
  | ok p =>
    rw [hr] at h
    exact ⟨p, rfl, Except.ok.inj h⟩

theorem Monic.length_coefficients_of_read {bound : Option Nat} {expression : String} {p : Monic}
    (h : read bound expression = .ok p) : p.coefficients.length ≤ supportedDegree + 1 := by
  obtain ⟨terms, -, hterms⟩ := read_eq_ok_iff.mp h
  have hlength := length_coefficients_of_ofTerms hterms
  have hbound : degreeBound bound ≤ supportedDegree := Nat.min_le_right _ _
  omega

/-- Whatever the expression and the bound, the reading by descent is not broken off: it comes to
what reading comes to, with as many turns as there are characters that are not blank, and with every
sum at a place in the vector. A term is called for only where something is left, and it is read past
at least one character and not past the end. -/
theorem readDense_unbroken (bound : Option Nat) (expression : String) :
    (∀ breach, readDense bound expression ≠ .error (.broken breach)) ∧
    readDense bound expression =
      ((Monic.read bound expression).map Monic.coefficients).mapError .refused ∧
    (∀ dense, readDense bound expression = .ok dense → dense.length ≤ 65537) ∧
    (Descent.start expression).run (significant expression).length =
      liftFormat (readTerms expression) ∧
    ∀ r, Descent.Reachable expression r → ∀ sign, r.action? = some (.term sign) →
      r.cursor.pos < (significant expression).length ∧
        ∀ term next, r.cursor.term sign = .ok (term, next) →
          r.cursor.pos < next.pos ∧ next.pos ≤ (significant expression).length := by
  refine ⟨readDense_ne_broken bound expression, readDense_eq bound expression, ?_,
    Descent.run_start expression, fun r hr sign ha => ⟨?_, fun term next ht => ?_⟩⟩
  · intro dense hd
    obtain ⟨p, hp, rfl⟩ := exists_read_of_readDense hd
    exact Monic.length_coefficients_of_read hp
  · obtain ⟨cell, hp, -⟩ := Descent.action?_cases ha
    rw [← hr.length_cells]
    exact Cursor.pos_lt_length hp
  · obtain ⟨hlt, hle⟩ := Descent.pos_of_term ha ht
    rw [← hr.length_cells]
    exact ⟨hlt, hle hr.cursor.2⟩

/-- The second term of `x -X`, behind a minus that waits in column 3. -/
theorem readDense_unbroken_second_term :
    let text := cells 1 "x -X".toList
    let waiting : Descent := ⟨⟨text, 2⟩, some 3, [⟨1, 1⟩]⟩
    let behind : Cursor := ⟨text, 3⟩
    readDense (some 300) "x^2 - 3" = .ok [-3, 0, 1] ∧ [-3, 0, 1].length ≤ 65537 ∧
      Descent.Reachable "x -X" waiting ∧ waiting.action? = some (.term (-1)) ∧
      waiting.cursor.term (-1) = .ok (⟨-1, 1⟩, behind) ∧
      waiting.cursor.pos < behind.pos ∧ behind.pos ≤ (significant "x -X").length := by
  intro text waiting behind
  obtain ⟨-, hdense, hlength, -⟩ := readDense_unbroken (some 300) "x^2 - 3"
  have hread : readDense (some 300) "x^2 - 3" = .ok [-3, 0, 1] := hdense.trans rfl
  have hfirst : Descent.Turn (.start "x -X") ⟨⟨text, 1⟩, none, [⟨1, 1⟩]⟩ := ⟨.term 1, rfl, rfl⟩
  have hminus : Descent.Turn ⟨⟨text, 1⟩, none, [⟨1, 1⟩]⟩ waiting := ⟨.pass ⟨3, '-'⟩, rfl, rfl⟩
  have hreachable : Descent.Reachable "x -X" waiting := .tail (.single hfirst) hminus
  have hterm : waiting.cursor.term (-1) = .ok (⟨-1, 1⟩, behind) := rfl
  have hends := (readDense_unbroken none "x -X").2.2.2.2 waiting hreachable (-1) rfl
  exact ⟨hread, hlength _ hread, hreachable, rfl, hterm, hends.2 _ _ hterm⟩

end MonicFactor
