import MiniSql.Storage.Select

/-!
# Ordered rows

`sort_selection` exchanges rows that are out of order, one pass for every position. The
comparison of two cells that can be read at the type of their column is the comparison of two
keys; where a cell cannot be read it is `strcmp`, and the two do not fit together.

## Main definitions

* `cellParses` — a cell that can be read at a type.
* `CDouble.Ordered` — what is asked of `<` on doubles.

## Main results

* `exchangeSort_perm`, `exchangeSort_pairwise` — the sort, for any comparison.
* `sortSelection_sorted` — `ORDER BY` permutes the rows, and orders those it can read.
-/

namespace MiniSql
open CText

/-! ## The exchange sort -/

section ExchangeSort

variable {after : Row → Row → Bool}

theorem exchangePass_perm (after : Row → Row → Bool) (row : Row) (rows : List Row) :
    ((exchangePass after row rows).1 :: (exchangePass after row rows).2).Perm (row :: rows) := by
  induction rows generalizing row with
  | nil => exact .refl _
  | cons next rows ih =>
    by_cases h : after row next = true
    · rw [exchangePass, if_pos h]
      exact (List.Perm.swap _ _ _).trans ((ih next).cons row)
    · rw [exchangePass, if_neg h]
      exact (List.Perm.swap _ _ _).trans (((ih row).cons next).trans (List.Perm.swap _ _ _))

/-- The row that a pass brings to the front is in order with every other one. `P` holds of
the rows that the comparison orders. -/
theorem exchangePass_least {P : Row → Prop} (hirrefl : ∀ x, P x → after x x = false)
    (htrans : ∀ x y z, P x → P y → P z → after x y = true → after y z = true → after x z = true)
    {row : Row} {rows : List Row} (hrow : P row) (hrows : ∀ r ∈ rows, P r) :
    (∀ z, P z → after row z = false → after (exchangePass after row rows).1 z = false) ∧
      ∀ z ∈ (exchangePass after row rows).2, after (exchangePass after row rows).1 z = false := by
  induction rows generalizing row with
  | nil => exact ⟨fun _ _ h => h, by simp [exchangePass]⟩
  | cons next rows ih =>
    have hnext : P next := hrows next (by simp)
    have hrest : ∀ r ∈ rows, P r := fun r hr => hrows r (by simp [hr])
    by_cases h : after row next = true
    · rw [exchangePass, if_pos h]
      obtain ⟨hkeep, hleast⟩ := ih hnext hrest
      refine ⟨fun z hz hafter => hkeep z hz ?_, fun z hz => ?_⟩
      · by_contra hcon
        rw [Bool.not_eq_false] at hcon
        rw [htrans row next z hrow hnext hz h hcon] at hafter
        exact absurd hafter (by simp)
      · rcases List.mem_cons.mp hz with rfl | hz
        · refine hkeep z hrow ?_
          by_contra hcon
          rw [Bool.not_eq_false] at hcon
          have hself := htrans z next z hrow hnext hrow h hcon
          rw [hirrefl z hrow] at hself
          exact absurd hself (by simp)
        · exact hleast z hz
    · rw [exchangePass, if_neg h]
      obtain ⟨hkeep, hleast⟩ := ih hrow hrest
      refine ⟨hkeep, fun z hz => ?_⟩
      rcases List.mem_cons.mp hz with rfl | hz
      · exact hkeep z hnext (Bool.not_eq_true _ ▸ h)
      · exact hleast z hz

theorem exchangeSort_perm (after : Row → Row → Bool) (n : ℕ) (rows : List Row) :
    (exchangeSort after n rows).Perm rows := by
  induction n generalizing rows with
  | zero => exact .refl _
  | succ n ih =>
    cases rows with
    | nil => exact .refl _
    | cons row rows =>
      exact ((ih _).cons _).trans (exchangePass_perm after row rows)

theorem exchangeSort_pairwise {P : Row → Prop} (hirrefl : ∀ x, P x → after x x = false)
    (htrans : ∀ x y z, P x → P y → P z → after x y = true → after y z = true → after x z = true)
    {n : ℕ} {rows : List Row} (hlen : rows.length ≤ n) (hrows : ∀ r ∈ rows, P r) :
    (exchangeSort after n rows).Pairwise fun x y => after x y = false := by
  induction n generalizing rows with
  | zero =>
    obtain rfl : rows = [] := List.length_eq_zero_iff.mp (by omega)
    exact .nil
  | succ n ih =>
    cases rows with
    | nil => exact .nil
    | cons row rows =>
      have hperm := exchangePass_perm after row rows
      have hlen' : (exchangePass after row rows).2.length ≤ n := by
        have := hperm.length_eq
        simp only [List.length_cons] at this hlen
        omega
      have hrest : ∀ r ∈ (exchangePass after row rows).2, P r := by
        intro r hr
        exact hrows r (hperm.mem_iff.mp (by simp [hr]))
      rw [exchangeSort, List.pairwise_cons]
      refine ⟨fun z hz => ?_, ih hlen' hrest⟩
      have hz' : z ∈ (exchangePass after row rows).2 :=
        (exchangeSort_perm after n _).mem_iff.mp hz
      exact (exchangePass_least hirrefl htrans (hrows row (by simp))
        fun r hr => hrows r (by simp [hr])).2 z hz'

end ExchangeSort

/-! ## The comparison of two cells -/

variable [CDouble]

/-- `<` on doubles is irreflexive and transitive, also where an operand is not a number. -/
structure CDouble.Ordered : Prop where
  irrefl : ∀ x : CDouble.Double, CDouble.lt x x = false
  trans : ∀ x y z : CDouble.Double, CDouble.lt x y = true → CDouble.lt y z = true →
    CDouble.lt x z = true

/-- The cell can be read at the type, as `compare_cells_by_type` reads it. -/
def cellParses (type : ColumnType) (cell : CStr) : Bool :=
  match type with
  | .int => (parseLongValue (stripOptionalQuotes cell 256)).isSome
  | .float => (parseDoubleValue (stripOptionalQuotes cell 256)).isSome
  | .boolean => (parseBooleanValue (stripOptionalQuotes cell 256)).isSome
  | .date | .varchar | .datetime => true

omit [CDouble] in
theorem sign3_swap {α : Type*} (lt : α → α → Bool) (x y : α) : sign3 lt y x = -sign3 lt x y := by
  unfold sign3
  omega

omit [CDouble] in
theorem sign3_pos {α : Type*} {lt : α → α → Bool} (hirrefl : ∀ x, lt x x = false)
    (htrans : ∀ x y z, lt x y = true → lt y z = true → lt x z = true) (x y : α) :
    0 < sign3 lt x y ↔ lt y x = true := by
  have hasymm : ¬ (lt x y = true ∧ lt y x = true) := by
    rintro ⟨h, h'⟩
    have := htrans x y x h h'
    rw [hirrefl] at this
    exact absurd this (by simp)
  unfold sign3
  cases hxy : lt x y <;> cases hyx : lt y x <;> simp_all

omit [CDouble] in
theorem sign3_strcmp (x y : CStr) : sign3 (fun a b : CStr => strcmp a b < 0) x y = strcmp x y := by
  have hswap := strcmp_swap x y
  rcases strcmp_sign x y with h | h | h <;> simp [sign3, hswap, h]

/-- Cells that can be read are compared by keys in a strict order. -/
theorem compareCellsByType_key (hdouble : CDouble.Ordered) (type : ColumnType) :
    ∃ (α : Type) (lt : α → α → Bool) (key : CStr → α), (∀ x, lt x x = false) ∧
      (∀ x y z, lt x y = true → lt y z = true → lt x z = true) ∧
      ∀ l r, cellParses type l = true → cellParses type r = true →
        compareCellsByType type l r = some (sign3 lt (key l) (key r)) := by
  have hint : (∀ x : ℤ, decide (x < x) = false) ∧
      ∀ x y z : ℤ, decide (x < y) = true → decide (y < z) = true → decide (x < z) = true := by
    constructor
    · simp
    · intro x y z
      simp only [decide_eq_true_eq]
      exact lt_trans
  have hstr : (∀ x : CStr, decide (strcmp x x < 0) = false) ∧ ∀ x y z : CStr,
      decide (strcmp x y < 0) = true → decide (strcmp y z < 0) = true →
        decide (strcmp x z < 0) = true := by
    constructor
    · intro x
      simp [strcmp_eq_zero.mpr rfl]
    · intro x y z
      simp only [decide_eq_true_eq]
      exact strcmp_trans
  have hval : ∀ {β : Type} (o : Option β) (d : β), o.isSome = true → o = some (o.getD d) := by
    intro β o d h
    obtain ⟨b, rfl⟩ := Option.isSome_iff_exists.mp h
    rfl
  cases type with
  | int =>
    refine ⟨ℤ, fun a b => a < b, fun c => (parseLongValue (stripOptionalQuotes c 256)).getD 0,
      hint.1, hint.2, fun l r hl hr => ?_⟩
    rw [compareCellsByType, hval _ 0 hl, hval _ 0 hr]
  | float =>
    refine ⟨CDouble.Double, CDouble.lt,
      fun c => (parseDoubleValue (stripOptionalQuotes c 256)).getD CDouble.zero,
      hdouble.irrefl, hdouble.trans, fun l r hl hr => ?_⟩
    rw [compareCellsByType, hval _ CDouble.zero hl, hval _ CDouble.zero hr]
  | boolean =>
    refine ⟨ℤ, fun a b => a < b, fun c => (parseBooleanValue (stripOptionalQuotes c 256)).getD 0,
      hint.1, hint.2, fun l r hl hr => ?_⟩
    rw [compareCellsByType, hval _ 0 hl, hval _ 0 hr]
  | varchar | date | datetime =>
    refine ⟨CStr, fun a b => strcmp a b < 0, fun c => stripOptionalQuotes c 256,
      hstr.1, hstr.2, fun l r _ _ => ?_⟩
    rw [sign3_strcmp]
    rfl

/-- **`ORDER BY` leaves a permutation of the rows, and the rows are in order when all cells of
the column can be read.** -/
theorem sortSelection_sorted (hdouble : CDouble.Ordered) {sql : ParsedSQL} {schema : List ColDef}
    {order : OrderBy} {i : ℕ} (horder : sql.orderBy = some order) (hcolumn : order.column ≠ [])
    (hi : findSchemaIndex schema order.column = some i) (selection : List Row) :
    let type := ((schema[i]?).map (·.type)).getD .varchar
    let multiplier : ℤ := if order.asc then 1 else -1
    ∃ sorted, sortSelection sql schema selection = some sorted ∧ sorted.Perm selection ∧
      ((∀ row ∈ selection, cellParses type (row[i]?.getD []) = true) →
        sorted.Pairwise fun l r => compareRowsForOrder type i l r * multiplier ≤ 0) := by
  intro type multiplier
  unfold sortSelection
  rw [horder]
  dsimp only
  rw [if_neg hcolumn, hi]
  dsimp only
  set after : Row → Row → Bool := fun left right =>
    if order.asc then 0 < compareRowsForOrder type i left right
    else compareRowsForOrder type i left right < 0 with hafter
  refine ⟨_, rfl, exchangeSort_perm after _ selection, fun hparses => ?_⟩
  obtain ⟨α, lt, key, hirrefl, htrans, hcompare⟩ := compareCellsByType_key hdouble type
  have hrows : ∀ l r : Row, cellParses type (l[i]?.getD []) = true →
      cellParses type (r[i]?.getD []) = true →
        compareRowsForOrder type i l r = sign3 lt (key (l[i]?.getD [])) (key (r[i]?.getD [])) := by
    intro l r hl hr
    rw [compareRowsForOrder, hcompare _ _ hl hr, Option.getD_some]
  have hkeys : ∀ l r : Row, cellParses type (l[i]?.getD []) = true →
      cellParses type (r[i]?.getD []) = true → (after l r = true ↔
        if order.asc then lt (key (r[i]?.getD [])) (key (l[i]?.getD [])) = true
        else lt (key (l[i]?.getD [])) (key (r[i]?.getD [])) = true) := by
    intro l r hl hr
    rw [hafter]
    dsimp only
    split
    · rw [decide_eq_true_eq, hrows l r hl hr, sign3_pos hirrefl htrans]
    · rw [decide_eq_true_eq, hrows l r hl hr, ← neg_pos, ← sign3_swap, sign3_pos hirrefl htrans]
  have hsorted := @exchangeSort_pairwise after (fun row => cellParses type (row[i]?.getD []) = true)
    (by
      intro x hx
      rw [Bool.eq_false_iff, ne_eq, hkeys x x hx hx]
      split <;> simp [hirrefl])
    (by
      intro x y z hx hy hz
      rw [hkeys x y hx hy, hkeys y z hy hz, hkeys x z hx hz]
      split
      · intro hxy hyz
        exact htrans _ _ _ hyz hxy
      · exact htrans _ _ _)
    selection.length selection le_rfl hparses
  refine hsorted.imp fun {l r} h => ?_
  rw [hafter] at h
  dsimp only at h
  simp only [multiplier]
  split at h
  · rename_i hasc
    rw [if_pos hasc, mul_one]
    simpa using h
  · rename_i hasc
    rw [if_neg hasc]
    have : ¬ compareRowsForOrder type i l r < 0 := by simpa using h
    omega

omit [CDouble] in
/-- The doubles without a fraction are ordered. -/
theorem CDouble.whole_ordered : @CDouble.Ordered .whole :=
  @CDouble.Ordered.mk .whole (fun x : ℤ => decide_eq_false (lt_irrefl x))
    fun x y z : ℤ => fun hxy hyz =>
      decide_eq_true ((of_decide_eq_true hxy).trans (of_decide_eq_true hyz))

omit [CDouble] in
/-- `ORDER BY id DESC` on two rows. -/
theorem sortSelection_sorted_two :
    let sql := { parsedNew with type := .select, orderBy := some ⟨"id".toList, false⟩ }
    ∃ sorted, @sortSelection .whole sql [⟨"id".toList, .int⟩] [[['9']], [['1', '0']]] = some sorted ∧
      sorted.Perm [[['9']], [['1', '0']]] ∧
      sorted.Pairwise fun l r => @compareRowsForOrder .whole .int 0 l r * (-1) ≤ 0 := by
  obtain ⟨sorted, hsorted, hperm, hordered⟩ := @sortSelection_sorted .whole CDouble.whole_ordered
    { parsedNew with type := .select, orderBy := some ⟨"id".toList, false⟩ }
    [⟨"id".toList, .int⟩] ⟨"id".toList, false⟩ 0 rfl (by decide) (by decide) [[['9']], [['1', '0']]]
  exact ⟨sorted, hsorted, hperm, hordered (by decide)⟩

end MiniSql
