import MiniSql.Storage.Order

/-!
# Aggregates

`evaluate_aggregate` keeps the best cell of a column for `MIN` and `MAX` as the first pass of
the sort keeps its row, but the result has to fit an array of 256 bytes. `SUM` adds up a `long`
and does not look for an overflow.

## Main definitions

* `bestRow` — the row a scan keeps.
* `sumLoop` — the accumulator of `SUM`, and whether it has overflowed.

## Main results

* `bestCell_eq`, `head?_exchangeSort` — both ways lead to that row.
* `sum_exact_iff` — when `SUM` is right.
-/

namespace MiniSql
open CText

variable [CDouble]

/-! ## The first row of an order -/

/-- One row belongs behind another, as `sort_selection` compares them. -/
def rowAfter (type : ColumnType) (i : ℕ) (asc : Bool) (left right : Row) : Bool :=
  if asc then 0 < compareRowsForOrder type i left right
  else compareRowsForOrder type i left right < 0

/-- A scan that keeps a row until one comes that belongs before it. -/
def bestRow (type : ColumnType) (i : ℕ) (asc : Bool) (row : Row) (rows : List Row) : Row :=
  rows.foldl (fun best next => if rowAfter type i asc best next then next else best) row

omit [CDouble] in
theorem exchangePass_fst (after : Row → Row → Bool) (row : Row) (rows : List Row) :
    (exchangePass after row rows).1 =
      rows.foldl (fun best next => if after best next then next else best) row := by
  induction rows generalizing row with
  | nil => rfl
  | cons next rows ih =>
    rw [exchangePass, List.foldl_cons]
    split
    · exact ih next
    · exact ih row

/-- The first row of a sorted selection is the one that the scan keeps. -/
theorem sortSelection_head {sql : ParsedSQL} {schema : List ColDef} {order : OrderBy} {i : ℕ}
    (horder : sql.orderBy = some order) (hcolumn : order.column ≠ [])
    (hi : findSchemaIndex schema order.column = some i) (row : Row) (rows : List Row) :
    ∃ rest, sortSelection sql schema (row :: rows) =
      some (bestRow (((schema[i]?).map (·.type)).getD .varchar) i order.asc row rows :: rest) := by
  unfold sortSelection
  rw [horder]
  dsimp only
  rw [if_neg hcolumn, hi]
  dsimp only
  rw [List.length_cons, exchangeSort, exchangePass_fst]
  exact ⟨_, rfl⟩

theorem compareCellsByType_swap (type : ColumnType) (l r : CStr) :
    compareCellsByType type r l = (compareCellsByType type l r).map (-·) := by
  cases type with
  | int =>
    dsimp only [compareCellsByType]
    cases parseLongValue (stripOptionalQuotes l 256) <;>
      cases parseLongValue (stripOptionalQuotes r 256)
    all_goals first | rfl | exact congrArg some (sign3_swap _ _ _)
  | float =>
    dsimp only [compareCellsByType]
    cases parseDoubleValue (stripOptionalQuotes l 256) <;>
      cases parseDoubleValue (stripOptionalQuotes r 256)
    all_goals first | rfl | exact congrArg some (sign3_swap _ _ _)
  | boolean =>
    dsimp only [compareCellsByType]
    cases parseBooleanValue (stripOptionalQuotes l 256) <;>
      cases parseBooleanValue (stripOptionalQuotes r 256)
    all_goals first | rfl | exact congrArg some (sign3_swap _ _ _)
  | varchar | date | datetime => exact congrArg some (strcmp_swap _ _)

/-- `MIN` and `MAX` keep the cell of that row. -/
theorem bestCell_eq (type : ColumnType) (i : ℕ) (wantMax : Bool) (row : Row) (rows : List Row) :
    bestCell type wantMax (row[i]?.getD []) (rows.map fun r => r[i]?.getD []) =
      (bestRow type i (!wantMax) row rows)[i]?.getD [] := by
  induction rows generalizing row with
  | nil => rfl
  | cons next rows ih =>
    have hswap : (compareCellsByType type (next[i]?.getD []) (row[i]?.getD [])).getD
        (strcmp (next[i]?.getD []) (row[i]?.getD [])) = -compareRowsForOrder type i row next := by
      rw [compareRowsForOrder, compareCellsByType_swap type (row[i]?.getD []) (next[i]?.getD []),
        strcmp_swap (row[i]?.getD []) (next[i]?.getD [])]
      cases compareCellsByType type (row[i]?.getD []) (next[i]?.getD []) <;> rfl
    rw [List.map_cons, bestCell, hswap, bestRow, List.foldl_cons, ← bestRow]
    have hafter : (wantMax ∧ 0 < -compareRowsForOrder type i row next ∨
        ¬ wantMax ∧ -compareRowsForOrder type i row next < 0) ↔
          rowAfter type i (!wantMax) row next = true := by
      cases wantMax <;> simp [rowAfter]
    by_cases h : rowAfter type i (!wantMax) row next = true
    · rw [if_pos (hafter.mpr h), if_pos h]
      exact ih next
    · rw [if_neg (mt hafter.mp h), if_neg h]
      exact ih row

/-- The result of `MIN` and `MAX` on a selection that is not empty. -/
theorem evaluateAggregate_best {fn : CStr} {wantMax : Bool}
    (hfn : fn = if wantMax then "MAX".toList else "MIN".toList) (type : ColumnType) (i : ℕ)
    (row : Row) (rows : List Row) :
    evaluateAggregate fn (some (i, type)) (row :: rows) =
      some (((bestRow type i (!wantMax) row rows)[i]?.getD []).take 255) := by
  have hcount : fn ≠ "COUNT".toList := by
    rw [hfn]
    cases wantMax <;> decide
  have hbest : fn = "MIN".toList ∨ fn = "MAX".toList := by
    rw [hfn]
    cases wantMax
    · exact .inl rfl
    · exact .inr rfl
  have hmax : (decide (fn = "MAX".toList)) = wantMax := by
    rw [hfn]
    cases wantMax <;> decide
  unfold evaluateAggregate
  rw [if_neg hcount]
  dsimp only
  rw [if_pos hbest, List.map_cons]
  dsimp only
  rw [hmax, bestCell_eq]

/-! ## Sums -/

omit [CDouble] in
/-- A value of a `long`. -/
def FitsLong (n : ℤ) : Prop := longMin ≤ n ∧ n ≤ longMax

instance (n : ℤ) : Decidable (FitsLong n) := inferInstanceAs (Decidable (_ ∧ _))

omit [CDouble] in
/-- The loop of `SUM` over the cells of an INT column: the accumulator, which wraps around, and
whether it has left the range of a `long`. -/
def sumLoop : ℤ → List CStr → Option (ℤ × Bool)
  | sum, [] => some (sum, false)
  | sum, cell :: cells =>
    match parseLongValue cell with
    | none => none
    | some v =>
      (sumLoop (toInt64 (sum + v)) cells).map fun (s, overflow) =>
        (s, overflow || !decide (FitsLong (sum + v)))

omit [CDouble] in
theorem toInt64_of_fitsLong {n : ℤ} (h : FitsLong n) : toInt64 n = n := by
  obtain ⟨hmin, hmax⟩ := h
  unfold longMin at hmin
  unfold longMax at hmax
  unfold toInt64
  exact Int.bmod_eq_of_le (by omega) (by omega)

omit [CDouble] in
theorem sumLoop_eq {cells : List CStr} {values : List ℤ}
    (h : cells.mapM parseLongValue = some values) (sum : ℤ) :
    ∃ overflow, sumLoop (toInt64 sum) cells = some (toInt64 (sum + values.sum), overflow) := by
  induction cells generalizing values sum with
  | nil =>
    obtain rfl : values = [] := by simpa using h.symm
    exact ⟨false, by simp [sumLoop]⟩
  | cons cell cells ih =>
    rw [List.mapM_cons] at h
    obtain ⟨v, hv, h⟩ := Option.bind_eq_some_iff.mp h
    obtain ⟨vs, hvs, h⟩ := Option.bind_eq_some_iff.mp h
    obtain rfl : v :: vs = values := Option.some.inj h
    obtain ⟨overflow, hloop⟩ := ih hvs (sum + v)
    have hwrap : toInt64 (toInt64 sum + v) = toInt64 (sum + v) := by
      simp [toInt64]
    have hassoc : sum + (v :: vs).sum = sum + v + vs.sum := by
      rw [List.sum_cons, add_assoc]
    refine ⟨overflow || !decide (FitsLong (toInt64 sum + v)), ?_⟩
    rw [sumLoop, hv]
    dsimp only
    rw [hwrap, hloop, Option.map_some, hassoc]

omit [CDouble] in
/-- The accumulator stays in range exactly when all partial sums do. -/
theorem sumLoop_overflow_iff {cells : List CStr} {values : List ℤ}
    (h : cells.mapM parseLongValue = some values) {sum : ℤ} (hsum : FitsLong sum) :
    (∃ s, sumLoop sum cells = some (s, false)) ↔
      ∀ k, FitsLong (sum + (values.take k).sum) := by
  induction cells generalizing values sum with
  | nil =>
    obtain rfl : values = [] := by simpa using h.symm
    simp [sumLoop, hsum]
  | cons cell cells ih =>
    rw [List.mapM_cons] at h
    obtain ⟨v, hv, h⟩ := Option.bind_eq_some_iff.mp h
    obtain ⟨vs, hvs, h⟩ := Option.bind_eq_some_iff.mp h
    obtain rfl : v :: vs = values := Option.some.inj h
    have htake : (∀ k, FitsLong (sum + ((v :: vs).take k).sum)) ↔
        ∀ k, FitsLong (sum + v + (vs.take k).sum) := by
      constructor
      · intro hall k
        have := hall (k + 1)
        rwa [List.take_succ_cons, List.sum_cons, ← add_assoc] at this
      · intro hall k
        cases k with
        | zero => simpa using hsum
        | succ k =>
          rw [List.take_succ_cons, List.sum_cons, ← add_assoc]
          exact hall k
    rw [htake, sumLoop, hv]
    dsimp only
    by_cases hfits : FitsLong (sum + v)
    · rw [toInt64_of_fitsLong hfits, ← ih hvs hfits, decide_eq_true hfits]
      cases sumLoop (sum + v) cells with
      | none => simp
      | some p => simp [Prod.ext_iff]
    · refine iff_of_false ?_ fun hall => hfits (by simpa using hall 0)
      rintro ⟨s, hs⟩
      obtain ⟨p, -, hp⟩ := Option.map_eq_some_iff.mp hs
      simp [hfits] at hp

/-- The sum of a selection is that of the loop. -/
theorem evaluateAggregate_sum {i : ℕ} {selection : List Row} {values : List ℤ}
    (h : (selection.map fun row => row[i]?.getD []).mapM parseLongValue = some values) :
    evaluateAggregate "SUM".toList (some (i, .int)) selection =
      (sumLoop 0 (selection.map fun row => row[i]?.getD [])).map fun p => intText p.1 := by
  have hzero : toInt64 0 = 0 := rfl
  obtain ⟨overflow, hloop⟩ := sumLoop_eq h 0
  rw [hzero, zero_add] at hloop
  unfold evaluateAggregate
  rw [if_neg (by decide)]
  dsimp only
  rw [if_neg (by decide), hloop, Option.map_some]
  split
  · rename_i hnil
    rw [hnil] at h
    obtain rfl : values = [] := by simpa using h.symm
    exact congrArg some (by decide : ['0'] = intText (toInt64 [].sum))
  · rw [h, Option.map_some, if_pos rfl]

/-- `SUM` returns the exact sum or fails, and its accumulator stays in the range of a `long`. -/
def SumExact (column arg : CStr) (schema : List ColDef) (i : ℕ) (selection : List Row)
    (values : List ℤ) : Prop :=
  (buildRowsetForAggregate column "SUM".toList arg schema selection =
      some ⟨[column], [[intText values.sum]]⟩ ∨
    buildRowsetForAggregate column "SUM".toList arg schema selection = none) ∧
    ∃ sum, sumLoop 0 (selection.map fun row => row[i]?.getD []) = some (sum, false)

/-- **`SUM` of an INT column is exact without an overflow exactly when every partial sum is in
the range of a `long`.** -/
theorem sum_exact_iff {column arg : CStr} {schema : List ColDef} {i : ℕ} {col : ColDef}
    (hi : findSchemaIndex schema arg = some i) (hcol : schema[i]? = some col)
    (htype : col.type = .int) (hstar : arg ≠ ['*']) {selection : List Row} {values : List ℤ}
    (hvalues : (selection.map fun row => row[i]?.getD []).mapM parseLongValue = some values) :
    SumExact column arg schema i selection values ↔
      ∀ k, FitsLong ((values.take k).sum) := by
  have hover := @sumLoop_overflow_iff _ _ hvalues 0 (by decide)
  simp only [zero_add] at hover
  unfold SumExact
  rw [hover, and_iff_right_iff_imp]
  intro hall
  obtain ⟨overflow, hloop⟩ := sumLoop_eq hvalues 0
  have htotal : FitsLong values.sum := by
    have := hall values.length
    rwa [List.take_length] at this
  rw [show toInt64 0 = 0 from rfl, zero_add, toInt64_of_fitsLong htotal] at hloop
  left
  unfold buildRowsetForAggregate
  rw [if_neg hstar, hi]
  dsimp only
  rw [hcol, Option.map_some, Option.getD_some, htype, evaluateAggregate_sum hvalues, hloop]
  rfl

omit [CDouble] in
/-- A sum of two cells. -/
theorem sum_exact_two :
    @SumExact .whole "SUM(n)".toList ['n'] [⟨['n'], .int⟩] 0 [[['4', '0']], [['2']]] [40, 2] ↔
      ∀ k, FitsLong (([40, 2] : List ℤ).take k).sum :=
  @sum_exact_iff .whole "SUM(n)".toList ['n'] [⟨['n'], .int⟩] 0 ⟨['n'], .int⟩ (by decide)
    (by decide) rfl (by decide) [[['4', '0']], [['2']]] [40, 2] (by decide)

omit [CDouble] in
/-- The largest `long` and one. -/
theorem sum_overflow :
    ¬ @SumExact .whole "SUM(n)".toList ['n'] [⟨['n'], .int⟩] 0
      [["9223372036854775807".toList], [['1']]] [9223372036854775807, 1] := by
  rintro ⟨-, sum, hsum⟩
  have hloop : sumLoop 0 ["9223372036854775807".toList, ['1']] =
      some (-9223372036854775808, true) := by
    decide
  exact absurd (hloop.symm.trans hsum) (by simp)

end MiniSql
