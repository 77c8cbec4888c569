import MiniSql.Storage.Foreign
import MiniSql.Storage.Trees

/-!
# The binary file

Where a `.bin` file lies beside the file of a table, a range search takes the numbers of the rows
and the rows themselves from it. It finds the rows of the CSV file as long as the last row with
each id of the range is the same in both files.

## Main definitions

* `rowId`, `binId` — the id of a row, and of a row of the `.bin` file.
* `SameLast` — both files have the same last row with each id of a range.
* `Encodes` — the `.bin` file has the rows of the table.

## Main results

* `pickRows_hits` — the rows that a range search fetches.
* `sameLast_of_encodes` — a file that encodes the rows of the table has the same last rows.
-/

namespace MiniSql
open CText

/-! ## Rows of the file -/

/-- The rows of a `.bin` file are at fixed offsets. -/
theorem binRows_getElem? {size : ℕ} (hsize : 0 < size) (file : CStr) (k : ℕ) :
    (binRows size file)[k]? =
      if (k + 1) * size ≤ file.length then some ((file.drop (k * size)).take size) else none := by
  have hloop : ∀ (n : ℕ) (file : CStr), file.length ≤ n → ∀ k, (binRowsLoop size n file)[k]? =
      if (k + 1) * size ≤ file.length then some ((file.drop (k * size)).take size) else none := by
    intro n
    induction n with
    | zero =>
      intro file hn k
      have hpos : 0 < (k + 1) * size := Nat.mul_pos (Nat.succ_pos k) hsize
      rw [if_neg (by omega)]
      rfl
    | succ n ih =>
      intro file hn k
      have hnext : (k + 1) * size = k * size + size := by ring
      rw [binRowsLoop]
      split
      · rw [if_neg (by omega)]
        rfl
      · cases k with
        | zero => simp [show size ≤ file.length by omega]
        | succ k =>
          have hlen : (file.drop size).length ≤ n := by
            rw [List.length_drop]
            omega
          have hskip : k * size + size = (k + 1) * size := by ring
          rw [List.getElem?_cons_succ, ih _ hlen, List.length_drop, List.drop_drop]
          refine if_congr ?_ ?_ rfl
          · omega
          · rw [show size + k * size = (k + 1) * size by omega]
  exact hloop file.length file le_rfl k

/-- Rows whose numbers are in the file are decoded one by one. -/
theorem loadBinaryRowsByIndices_eq [CDouble] {schema : List ColDef} (hsize : 0 < binRowSize schema)
    (bin : CStr) {indices : List ℤ}
    (h : ∀ i ∈ indices, 0 ≤ i → (binRows (binRowSize schema) bin)[i.toNat]? ≠ none) :
    loadBinaryRowsByIndices schema bin indices =
      pickRows ((binRows (binRowSize schema) bin).map (decodeBinaryRow schema)) indices := by
  unfold pickRows
  induction indices with
  | nil => rfl
  | cons i indices ih =>
    have hrest := ih fun i' hi' => h i' (by simp [hi'])
    rw [loadBinaryRowsByIndices, List.filterMap_cons]
    by_cases hi : i < 0
    · rw [if_pos hi, if_pos hi, hrest]
    · rw [if_neg hi, if_neg hi, List.getElem?_map]
      have hin := h i (by simp) (not_lt.mp hi)
      rw [binRows_getElem? hsize] at hin ⊢
      split at hin
      · rename_i hle
        have hbound : (i.toNat + 1) * binRowSize schema =
            i.toNat * binRowSize schema + binRowSize schema := by ring
        rw [if_pos hle]
        dsimp only
        rw [if_neg, hrest]
        · rfl
        · rw [List.length_take, List.length_drop]
          omega
      · exact absurd rfl hin

/-! ## The ids of the rows -/

/-- The id of a row. -/
def rowId (idCol : ℕ) (row : Row) : Option ℤ := (row[idCol]?).map atoi

/-- The id of a row of a `.bin` file, which is always there. -/
def binId (offset : ℕ) (row : CStr) : Option ℤ := some (binInt row offset)

/-- Only positive ids are registered. -/
theorem lastWith_positive {α : Type*} (key : α → Option ℤ) (xs : List α) (id : ℤ) :
    lastWith (fun x => (key x).filter fun id => 0 < id) xs id =
      if 0 < id then lastWith key xs id else none := by
  induction xs with
  | nil => split <;> rfl
  | cons x xs ih =>
    rw [lastWith_cons, lastWith_cons, ih]
    by_cases hid : 0 < id
    · simp only [hid, if_true, Option.filter_eq_some_iff, decide_true, and_true]
    · simp [hid, Option.filter_eq_some_iff]

/-- A cell of a record is the cell of its row. -/
theorem idOfRecord_of_parseRow {idCol width : ℕ} {record : CStr} {row : Row}
    (h : parseRow width record = some row) : idOfRecord idCol record = rowId idCol row := by
  obtain ⟨row', hparse, hrow⟩ := Option.bind_eq_some_iff.mp h
  split at hrow
  · obtain rfl := Option.some.inj hrow
    rw [idOfRecord, hparse, rowId]
    rfl
  · exact absurd hrow (by simp)

/-- The pairs that a file registers are those of its rows. -/
theorem numbered_records {idCol width : ℕ} {records : List CStr} {rows : List Row}
    (h : records.mapM (parseRow width) = some rows) (n : ℕ) :
    numbered (positiveId idCol) records n =
      numbered (fun row => (rowId idCol row).filter fun id => 0 < id) rows n := by
  induction records generalizing rows n with
  | nil =>
    obtain rfl : [] = rows := by simpa using h
    rfl
  | cons record records ih =>
    rw [List.mapM_cons] at h
    obtain ⟨row, hrow, h⟩ := Option.bind_eq_some_iff.mp h
    obtain ⟨rest, hrest, h⟩ := Option.bind_eq_some_iff.mp h
    obtain rfl : row :: rest = rows := Option.some.inj h
    rw [numbered, numbered, positiveId, idOfRecord_of_parseRow hrow]
    cases (rowId idCol row).filter fun id => 0 < id with
    | none => exact ih hrest (n + 1)
    | some id => exact congrArg _ (ih hrest (n + 1))

theorem positiveBinId_eq (offset : ℕ) :
    positiveBinId offset = fun r => (binId offset r).filter fun id => 0 < id := by
  funext r
  unfold positiveBinId binId
  by_cases h : 0 < binInt r offset <;> simp [h, Option.filter]

/-! ## Filled trees -/

/-- The last row with each positive id of the range is the same in the CSV file and in the `.bin`
file, or there is none in either. -/
def SameLast [CDouble] (schema : List ColDef) (idCol : ℕ) (rows : List Row) (bin : CStr)
    (from' to' : ℤ) : Prop :=
  ∀ id, from' ≤ id → id ≤ to' → 0 < id →
    lastWith (rowId idCol) rows id =
      (lastWith (binId (binRowSize (schema.take idCol))) (binRows (binRowSize schema) bin) id).map
        (decodeBinaryRow schema)

/-- The tree when it has been filled from rows, each with a key that may be positive. -/
def filled {α : Type*} (tree : BPTree) (key : α → Option ℤ) (rows : List α) : BPTree :=
  bptreeInsertAll tree (numbered (fun x => (key x).filter fun id => 0 < id) rows 0)

/-- What a filled tree finds: the last row, or what was there before. -/
theorem lookup_filled {α : Type*} {tree : BPTree} (h : tree.Wf) (key : α → Option ℤ) (rows : List α)
    (id : ℤ) :
    match if 0 < id then lastWith key rows id else none with
    | none => (filled tree key rows).toList.lookup id = tree.toList.lookup id
    | some x => ∃ k : ℕ, (filled tree key rows).toList.lookup id = some (k : ℤ) ∧ rows[k]? = some x := by
  have hlast := lastValue_numbered (fun x => (key x).filter fun id => 0 < id) rows id 0
  rw [lastWith_positive] at hlast
  have hlookup := lookup_bptreeInsertAll h
    (numbered (fun x => (key x).filter fun id => 0 < id) rows 0) id
  unfold filled
  cases hx : (if 0 < id then lastWith key rows id else none) with
  | none =>
    rw [hx] at hlast
    rw [hlookup, hlast]
    rfl
  | some x =>
    rw [hx] at hlast
    obtain ⟨k, hk, hrow⟩ := hlast
    rw [Nat.zero_add] at hk
    exact ⟨k, by rw [hlookup, hk]; rfl, hrow⟩

section Range

variable [CDouble] {schema : List ColDef} {idCol : ℕ} {rows : List Row} {bin : CStr}
variable {tree : BPTree} {from' to' : ℤ}

/-- **Under every id of the range the two filled trees find the same row.** -/
theorem lookup_both (hwf : tree.Wf) (hsame : SameLast schema idCol rows bin from' to')
    (hold : ∀ e ∈ tree.toList, from' ≤ e.1 → e.1 ≤ to' →
      0 < e.1 ∧ ∃ row ∈ rows, rowId idCol row = some e.1) {id : ℤ} (hfrom : from' ≤ id)
    (hto : id ≤ to') :
    ((filled tree (rowId idCol) rows).toList.lookup id = none ∧
      (filled tree (binId (binRowSize (schema.take idCol)))
        (binRows (binRowSize schema) bin)).toList.lookup id = none) ∨
    ∃ (k k' : ℕ) (row : CStr),
      (filled tree (rowId idCol) rows).toList.lookup id = some (k : ℤ) ∧
      (filled tree (binId (binRowSize (schema.take idCol)))
        (binRows (binRowSize schema) bin)).toList.lookup id = some (k' : ℤ) ∧
      (binRows (binRowSize schema) bin)[k']? = some row ∧ rows[k]? = some (decodeBinaryRow schema row) := by
  have hcsv := lookup_filled hwf (rowId idCol) rows id
  have hbin := lookup_filled hwf (binId (binRowSize (schema.take idCol)))
    (binRows (binRowSize schema) bin) id
  have hsorted : SortedAssoc.Sorted tree.toList := hwf.ordered.sorted
  -- what was in the tree before is the id of a row
  have hbefore : ∀ v, tree.toList.lookup id = some v → 0 < id ∧ (lastWith (rowId idCol) rows id).isSome := by
    intro v hv
    obtain ⟨hpos, hrow⟩ := hold (id, v) ((SortedAssoc.lookup_eq_some_iff hsorted).mp hv) hfrom hto
    exact ⟨hpos, (lastWith_isSome _).mpr hrow⟩
  by_cases hpos : 0 < id
  · rw [if_pos hpos] at hcsv hbin
    have heq := hsame id hfrom hto hpos
    cases hlast : lastWith (binId (binRowSize (schema.take idCol))) (binRows (binRowSize schema) bin) id with
    | none =>
      rw [hlast, Option.map_none] at heq
      rw [heq] at hcsv hbefore
      rw [hlast] at hbin
      have hnone : tree.toList.lookup id = none := by
        cases hv : tree.toList.lookup id with
        | none => rfl
        | some v => exact absurd (hbefore v hv).2 (by simp)
      exact .inl ⟨hcsv.trans hnone, hbin.trans hnone⟩
    | some row =>
      rw [hlast, Option.map_some] at heq
      rw [heq] at hcsv
      rw [hlast] at hbin
      obtain ⟨k, hk, hrow⟩ := hcsv
      obtain ⟨k', hk', hrow'⟩ := hbin
      exact .inr ⟨k, k', row, hk, hk', hrow', hrow⟩
  · rw [if_neg hpos] at hcsv hbin
    have hnone : tree.toList.lookup id = none := by
      cases hv : tree.toList.lookup id with
      | none => rfl
      | some v => exact absurd (hbefore v hv).1 hpos
    exact .inl ⟨hcsv.trans hnone, hbin.trans hnone⟩

/-- The row numbers of a range, in the order of the ids. -/
def hits (tree : BPTree) (from' to' : ℤ) : List ℤ :=
  (tree.toList.filter (inBounds from' to')).map Prod.snd

omit [CDouble] in
theorem lookup_hits (tree : BPTree) (from' to' id : ℤ) :
    (tree.toList.filter (inBounds from' to')).lookup id =
      if from' ≤ id ∧ id ≤ to' then tree.toList.lookup id else none := by
  have h := SortedAssoc.lookup_filter (fun k => decide (from' ≤ k) && decide (k ≤ to')) tree.toList id
  simp only [Bool.and_eq_true, decide_eq_true_eq] at h
  exact h

omit [CDouble] in
theorem filled_wf {α : Type*} (hwf : tree.Wf) (key : α → Option ℤ) (rows : List α) :
    (filled tree key rows).Wf := wf_bptreeInsertAll hwf _

section Hits

variable (hwf : tree.Wf) (hsame : SameLast schema idCol rows bin from' to')
variable (hold : ∀ e ∈ tree.toList, from' ≤ e.1 → e.1 ≤ to' →
  0 < e.1 ∧ ∃ row ∈ rows, rowId idCol row = some e.1)
include hwf hsame hold

/-- What is made of the rows of the range is the same for both trees. -/
theorem filterMap_hits {W : Type*} {f g : ℤ → Option W}
    (hfg : ∀ (k k' : ℕ) (row : CStr), (binRows (binRowSize schema) bin)[k']? = some row →
      rows[k]? = some (decodeBinaryRow schema row) → f k = g k') :
    (hits (filled tree (rowId idCol) rows) from' to').filterMap f =
      (hits (filled tree (binId (binRowSize (schema.take idCol)))
        (binRows (binRowSize schema) bin)) from' to').filterMap g := by
  have hsorted : ∀ {tree : BPTree}, tree.Wf →
      SortedAssoc.Sorted (tree.toList.filter (inBounds from' to')) :=
    fun h => List.Pairwise.filter _ h.ordered.sorted
  unfold hits
  rw [List.filterMap_map, List.filterMap_map]
  refine SortedAssoc.filterMap_eq (hsorted (filled_wf hwf _ _)) (hsorted (filled_wf hwf _ _)) ?_
  intro id
  rw [lookup_hits, lookup_hits]
  split
  · rename_i hin
    rcases lookup_both hwf hsame hold hin.1 hin.2 with ⟨h, h'⟩ | ⟨k, k', row, h, h', hrow', hrow⟩
    · rw [h, h']
      rfl
    · rw [h, h']
      exact hfg k k' row hrow' hrow
  · rfl

/-- Both trees have as many rows in the range. -/
theorem length_hits :
    (hits (filled tree (rowId idCol) rows) from' to').length =
      (hits (filled tree (binId (binRowSize (schema.take idCol)))
        (binRows (binRowSize schema) bin)) from' to').length := by
  have hunits := filterMap_hits hwf hsame hold (f := fun _ => some ()) (g := fun _ => some ())
    fun _ _ _ _ _ => rfl
  have hlen : ∀ l : List ℤ, (l.filterMap fun _ => some ()).length = l.length := by
    intro l
    induction l with
    | nil => rfl
    | cons i l ih => simp
  rw [← hlen, hunits, hlen]

/-- **The rows of the range are the same in both files.** -/
theorem pickRows_hits (hsize : 0 < binRowSize schema) :
    pickRows rows (hits (filled tree (rowId idCol) rows) from' to') =
      loadBinaryRowsByIndices schema bin (hits (filled tree (binId (binRowSize (schema.take idCol)))
        (binRows (binRowSize schema) bin)) from' to') := by
  rw [loadBinaryRowsByIndices_eq hsize]
  · unfold pickRows
    refine filterMap_hits hwf hsame hold fun k k' row hrow' hrow => ?_
    rw [if_neg (by omega), if_neg (by omega), Int.toNat_natCast, Int.toNat_natCast, hrow,
      List.getElem?_map, hrow']
    rfl
  · intro i hi _
    obtain ⟨e, he, rfl⟩ := List.mem_map.mp hi
    obtain ⟨hmem, hin⟩ := List.mem_filter.mp he
    rw [inBounds, Bool.and_eq_true, decide_eq_true_eq, decide_eq_true_eq] at hin
    have hlookup := (SortedAssoc.lookup_eq_some_iff (k := e.1) (v := e.2)
      (filled_wf hwf (binId (binRowSize (schema.take idCol)))
        (binRows (binRowSize schema) bin)).ordered.sorted).mpr hmem
    rcases lookup_both hwf hsame hold hin.1 hin.2 with ⟨-, hnone⟩ | ⟨k, k', row, -, hsome, hrow, -⟩
    · exact absurd (hnone.symm.trans hlookup) (by simp)
    · rw [← Option.some.inj (hsome.symm.trans hlookup), Int.toNat_natCast, hrow]
      simp

end Hits

end Range

/-! ## Files that encode the same rows -/

theorem binRowSize_pos {schema : List ColDef} (h : 0 < schema.length) : 0 < binRowSize schema := by
  cases schema with
  | nil => exact absurd h (by simp)
  | cons d schema =>
    have hcol : 0 < binColumnSize d.type := by cases d.type <;> decide
    simp only [binRowSize, List.map_cons, List.sum_cons]
    omega

theorem binInt_mem (r : CStr) (offset : ℕ) :
    intMin ≤ binInt r offset ∧ binInt r offset ≤ intMax := by
  unfold binInt
  exact toInt32_mem _

theorem binInt_drop (r : CStr) (a b : ℕ) : binInt (r.drop a) b = binInt r (a + b) := by
  simp only [binInt, List.getElem?_drop, Nat.add_assoc]

variable [CDouble]

/-- The `.bin` file has the rows of the table, and nothing else. -/
def Encodes (schema : List ColDef) (bin : CStr) (rows : List Row) : Prop :=
  (binRows (binRowSize schema) bin).map (decodeBinaryRow schema) = rows ∧
    bin.length = rows.length * binRowSize schema

/-- An `INT` cell of a row is the number at the offset of its column. -/
theorem decodeBinaryRow_int {schema : List ColDef} {idCol : ℕ}
    (hint : (schema[idCol]?).map (·.type) = some .int) (r : CStr) :
    (decodeBinaryRow schema r)[idCol]? = some (intText (binInt r (binRowSize (schema.take idCol)))) := by
  induction schema generalizing idCol r with
  | nil => exact absurd hint (by simp)
  | cons d schema ih =>
    cases idCol with
    | zero =>
      have hd : d.type = .int := by simpa using hint
      simp [decodeBinaryRow, hd, binRowSize]
    | succ idCol =>
      rw [decodeBinaryRow, List.getElem?_cons_succ, ih (by simpa using hint), binInt_drop]
      simp [binRowSize]

/-- The id of a decoded row, where the `id` column is an `INT`. -/
theorem rowId_decodeBinaryRow {schema : List ColDef} {idCol : ℕ}
    (hint : (schema[idCol]?).map (·.type) = some .int) (r : CStr) :
    rowId idCol (decodeBinaryRow schema r) = binId (binRowSize (schema.take idCol)) r := by
  obtain ⟨hmin, hmax⟩ := binInt_mem r (binRowSize (schema.take idCol))
  rw [rowId, decodeBinaryRow_int hint, Option.map_some, binId, atoi_intText hmin hmax]

/-- **Where the rows of the table are the rows of the `.bin` file, so is the last row with each
id.** -/
theorem sameLast_of_encodes {schema : List ColDef} {idCol : ℕ} {rows : List Row} {bin : CStr}
    (hint : (schema[idCol]?).map (·.type) = some .int) (h : Encodes schema bin rows)
    (from' to' : ℤ) : SameLast schema idCol rows bin from' to' := by
  intro id _ _ _
  have hkey : (fun row => decide (rowId idCol row = some id)) ∘ decodeBinaryRow schema =
      fun r => decide (binId (binRowSize (schema.take idCol)) r = some id) := by
    funext r
    simp only [Function.comp_apply, rowId_decodeBinaryRow hint]
  rw [← h.1, lastWith, lastWith, ← List.map_reverse, List.find?_map, hkey]

end MiniSql
