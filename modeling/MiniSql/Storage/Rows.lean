import Mathlib.Data.List.ReduceOption
import MiniSql.Storage.Insert
import MiniSql.Storage.Rewrite

/-!
# What the statements do to the rows of a table

An INSERT puts every value into the cell of its column. A DELETE or an UPDATE reads all rows of
the file, treats each by itself and writes what is left.

## Main definitions

* `Gives` — the statement gives a value for a column.
* `planRows` — the rows that a rewriting leaves.

## Main results

* `buildRow_cell` — where the cells of a built row come from.
* `rewrittenFile_none` — a rewriting in terms of rows.
* `updateSet_cell` — where the cells of an updated row come from.
-/

namespace MiniSql
open CText

/-! ## Building a row -/

theorem length_fillRow {schema : List ColDef} {values columns : List CStr}
    {cells cells' : List (Option CStr)} (h : fillRow schema values columns cells = .ok cells') :
    cells'.length = cells.length := by
  induction values generalizing columns cells with
  | nil =>
    obtain rfl : cells = cells' := Except.ok.inj h
    rfl
  | cons v values ih =>
    cases columns with
    | nil => exact absurd h (by simp [fillRow])
    | cons c columns =>
      rw [fillRow] at h
      split at h
      · exact absurd h (by simp)
      · split at h
        · exact absurd h (by simp)
        · split at h
          · rw [ih h, List.length_set]
          · exact absurd h (by simp)

/-- A cell that is filled stays as it is. -/
theorem fillRow_keep {schema : List ColDef} {values columns : List CStr}
    {cells cells' : List (Option CStr)} (h : fillRow schema values columns cells = .ok cells')
    {j : ℕ} {v : CStr} (hj : cells[j]? = some (some v)) : cells'[j]? = some (some v) := by
  induction values generalizing columns cells with
  | nil =>
    obtain rfl : cells = cells' := Except.ok.inj h
    exact hj
  | cons w values ih =>
    cases columns with
    | nil => exact absurd h (by simp [fillRow])
    | cons c columns =>
      rw [fillRow] at h
      split at h
      · exact absurd h (by simp)
      · split at h
        · exact absurd h (by simp)
        · rename_i i _
          split at h
          · rename_i hfree
            refine ih h ?_
            have hne : i ≠ j := by
              rintro rfl
              rw [hj] at hfree
              exact absurd hfree (by simp)
            rw [List.getElem?_set_ne hne, hj]
          · exact absurd h (by simp)

/-- Every value goes to the cell of its column. -/
theorem fillRow_getElem? {schema : List ColDef} {values columns : List CStr}
    {cells cells' : List (Option CStr)} (h : fillRow schema values columns cells = .ok cells')
    {i j : ℕ} {v c : CStr} (hv : values[i]? = some v) (hc : columns[i]? = some c)
    (hj : findSchemaIndex schema c = some j) : cells'[j]? = some (some v) := by
  induction values generalizing columns cells i with
  | nil => exact absurd hv (by simp)
  | cons w values ih =>
    cases columns with
    | nil => exact absurd hc (by simp)
    | cons d columns =>
      rw [fillRow] at h
      split at h
      · exact absurd h (by simp)
      · split at h
        · exact absurd h (by simp)
        · rename_i k hk
          split at h
          · rename_i hfree
            cases i with
            | zero =>
              obtain rfl : w = v := by simpa using hv
              obtain rfl : d = c := by simpa using hc
              obtain rfl : k = j := Option.some.inj (hk.symm.trans hj)
              refine fillRow_keep h ?_
              have hlt : k < cells.length := (List.getElem?_eq_some_iff.mp hfree).1
              rw [List.getElem?_set_self hlt]
            | succ i => exact ih h (by simpa using hv) (by simpa using hc)
          · exact absurd h (by simp)

theorem length_buildRow {schema : List ColDef} {columns values : List CStr} {row : Row}
    (h : buildRowInSchemaOrder schema columns values = .ok row) : row.length = schema.length := by
  unfold buildRowInSchemaOrder at h
  split at h
  · exact absurd h (by simp)
  · rename_i hlen
    split at h
    · rw [← Except.ok.inj h]
      exact not_not.mp hlen
    · split at h
      · exact absurd h (by simp)
      · rename_i cells hfill
        split at h
        · exact absurd h (by simp)
        · rw [← Except.ok.inj h, List.length_map, length_fillRow hfill, List.length_replicate]

theorem buildRow_getElem? {schema : List ColDef} {columns values : List CStr} {row : Row}
    (h : buildRowInSchemaOrder schema columns values = .ok row) {i j : ℕ} {v c : CStr}
    (hv : values[i]? = some v) (hc : columns[i]? = some c) (hj : findSchemaIndex schema c = some j) :
    row[j]? = some v := by
  unfold buildRowInSchemaOrder at h
  split at h
  · exact absurd h (by simp)
  · split at h
    · rename_i hnil
      rw [hnil] at hc
      exact absurd hc (by simp)
    · split at h
      · exact absurd h (by simp)
      · rename_i cells hfill
        split at h
        · exact absurd h (by simp)
        · rw [← Except.ok.inj h, List.getElem?_map, fillRow_getElem? hfill hv hc hj]
          rfl

/-- The statement gives the value for the column with the number. -/
def Gives (schema : List ColDef) (columns values : List CStr) (j : ℕ) (v : CStr) : Prop :=
  (columns = [] ∧ values[j]? = some v) ∨
    ∃ (i : ℕ) (c : CStr), values[i]? = some v ∧ columns[i]? = some c ∧ findSchemaIndex schema c = some j

/-- A filled cell was filled before, or holds the value of its column. -/
theorem fillRow_cell {schema : List ColDef} {values columns : List CStr}
    {cells cells' : List (Option CStr)} (h : fillRow schema values columns cells = .ok cells')
    {j : ℕ} {v : CStr} (hj : cells'[j]? = some (some v)) :
    cells[j]? = some (some v) ∨
      ∃ (i : ℕ) (c : CStr), values[i]? = some v ∧ columns[i]? = some c ∧
        findSchemaIndex schema c = some j := by
  induction values generalizing columns cells with
  | nil =>
    obtain rfl : cells = cells' := Except.ok.inj h
    exact .inl hj
  | cons w values ih =>
    cases columns with
    | nil => exact absurd h (by simp [fillRow])
    | cons d columns =>
      rw [fillRow] at h
      split at h
      · exact absurd h (by simp)
      · split at h
        · exact absurd h (by simp)
        · rename_i k hk
          split at h
          · rename_i hfree
            rcases ih h with hset | ⟨i, c, hv, hc, hfind⟩
            · by_cases hkj : k = j
              · subst hkj
                have hlt : k < cells.length := (List.getElem?_eq_some_iff.mp hfree).1
                rw [List.getElem?_set_self hlt, Option.some.injEq, Option.some.injEq] at hset
                exact .inr ⟨0, d, by simp [hset], by simp, hk⟩
              · rw [List.getElem?_set_ne hkj] at hset
                exact .inl hset
            · exact .inr ⟨i + 1, c, by simpa using hv, by simpa using hc, hfind⟩
          · exact absurd h (by simp)

/-- Every cell of a built row is a value that the statement gives for its column. -/
theorem buildRow_cell {schema : List ColDef} {columns values : List CStr} {row : Row}
    (h : buildRowInSchemaOrder schema columns values = .ok row) {j : ℕ} {v : CStr}
    (hj : row[j]? = some v) : Gives schema columns values j v := by
  unfold buildRowInSchemaOrder at h
  split at h
  · exact absurd h (by simp)
  · split at h
    · rename_i hnil
      obtain rfl := Except.ok.inj h
      exact .inl ⟨hnil, hj⟩
    · split at h
      · exact absurd h (by simp)
      · rename_i cells hfill
        split at h
        · exact absurd h (by simp)
        · rename_i hfull
          rw [← Except.ok.inj h, List.getElem?_map, Option.map_eq_some_iff] at hj
          obtain ⟨cell, hcell, hget⟩ := hj
          cases cell with
          | none => exact absurd (List.mem_of_getElem? hcell) hfull
          | some w =>
            obtain rfl : w = v := hget
            rcases fillRow_cell hfill hcell with hempty | hgiven
            · rw [List.getElem?_replicate] at hempty
              split at hempty <;> exact absurd hempty (by simp)
            · exact .inr hgiven

theorem Gives.mem {schema : List ColDef} {columns values : List CStr} {j : ℕ} {v : CStr}
    (h : Gives schema columns values j v) : v ∈ values := by
  rcases h with ⟨-, h⟩ | ⟨i, c, h, -⟩
  · exact List.mem_of_getElem? h
  · exact List.mem_of_getElem? h

/-! ## Rewriting rows -/

/-- The rows that are left when every row was treated as planned. -/
def planRows (plan : RowPlan) (rows : List Row) : Option (List Row) :=
  (rows.mapM plan).map List.reduceOption

@[simp] theorem planRows_nil (plan : RowPlan) : planRows plan [] = some [] := rfl

theorem planRows_cons (plan : RowPlan) (row : Row) (rows : List Row) :
    planRows plan (row :: rows) = (plan row).bind fun kept =>
      (planRows plan rows).map fun rest => kept.toList ++ rest := by
  unfold planRows
  rw [List.mapM_cons]
  cases plan row with
  | none => rfl
  | some kept =>
    cases rows.mapM plan with
    | none => rfl
    | some rest => cases kept <;> rfl

theorem rewriteLoop_none (width : ℕ) (plan : RowPlan) (records : List CStr) (n : ℕ) (out : CStr) :
    rewriteLoop (fun _ => false) width plan records n out =
      ((records.mapM (parseRow width)).bind (planRows plan)).map fun kept =>
        out ++ kept.flatMap writeCsvRow := by
  induction records generalizing n out with
  | nil => simp [rewriteLoop]
  | cons record records ih =>
    rw [rewriteLoop, List.mapM_cons]
    cases parseRow width record with
    | none => rfl
    | some row =>
      have hrest : ∀ kept : Option Row, plan row = some kept →
          ((some row >>= fun row => records.mapM (parseRow width) >>= fun rows =>
            pure (row :: rows)).bind (planRows plan)) =
              ((records.mapM (parseRow width)).bind (planRows plan)).map fun rest =>
                kept.toList ++ rest := by
        intro kept hkept
        cases records.mapM (parseRow width) with
        | none => rfl
        | some rows =>
          change planRows plan (row :: rows) = (planRows plan rows).map _
          rw [planRows_cons, hkept]
          rfl
      rw [Option.bind_some]
      cases hkept : plan row with
      | none =>
        cases records.mapM (parseRow width) with
        | none => rfl
        | some rows =>
          change none = (planRows plan (row :: rows)).map _
          rw [planRows_cons, hkept]
          rfl
      | some kept =>
        rw [hrest kept hkept]
        cases kept with
        | none =>
          dsimp only
          rw [ih, Option.map_map]
          rfl
        | some row' =>
          dsimp only
          rw [if_neg (by simp), ih, Option.map_map]
          congr 1
          funext rest
          simp

/-- **Without failures a rewriting reads all rows, treats each as planned and writes the rest.** -/
theorem rewrittenFile_none (st : Storage) (path : Path) (width : ℕ) (plan : RowPlan) :
    rewrittenFile .none st path width plan =
      ((st.files path).bind fun file => (loadTableRows file width).bind (planRows plan)).map
        fun kept => kept.flatMap writeCsvRow := by
  unfold rewrittenFile loadTableRows
  cases hfile : st.files path with
  | none => simp [RewriteFaults.none]
  | some file =>
    cases hclean : (csvRecords file).2 with
    | false => simp [RewriteFaults.none, hclean]
    | true => simpa [RewriteFaults.none, hclean] using rewriteLoop_none width plan _ 0 []

/-- Every row that is left comes from one row. -/
theorem mem_planRows {plan : RowPlan} {rows kept : List Row} (h : planRows plan rows = some kept)
    {row : Row} (hrow : row ∈ kept) : ∃ old ∈ rows, plan old = some (some row) := by
  obtain ⟨plans, hplans, rfl⟩ := Option.map_eq_some_iff.mp h
  rw [List.reduceOption_mem_iff] at hrow
  exact exists_of_mapM hplans hrow

variable [CDouble]

theorem mem_planRows_deleteRow {schema : List ColDef} {sql : ParsedSQL} {rows kept : List Row}
    (h : planRows (deleteRow schema sql) rows = some kept) {row : Row} (hrow : row ∈ kept) :
    row ∈ rows := by
  obtain ⟨old, hold, hplan⟩ := mem_planRows h hrow
  obtain ⟨m, -, hm⟩ := Option.map_eq_some_iff.mp hplan
  split at hm
  · exact absurd hm (by simp)
  · exact Option.some.inj hm ▸ hold

/-! ## Updating a row -/

omit [CDouble] in
/-- An update changes cells and nothing else, and only to the values of the assignments. -/
theorem applyUpdateToRow_spec {sets : List SetClause} {indexes : List ℕ} {row row' : Row}
    (h : applyUpdateToRow row sets indexes = some row') :
    row'.length = row.length ∧ ∀ (j : ℕ) (v : CStr), row'[j]? = some v →
      row[j]? = some v ∨ ∃ (k : ℕ) (set : SetClause),
        sets[k]? = some set ∧ indexes[k]? = some j ∧ set.value = v := by
  induction sets generalizing indexes row with
  | nil =>
    obtain rfl : row = row' := by simpa [applyUpdateToRow] using h
    exact ⟨rfl, fun j v hv => .inl hv⟩
  | cons set sets ih =>
    cases indexes with
    | nil =>
      obtain rfl : row = row' := by simpa [applyUpdateToRow] using h
      exact ⟨rfl, fun j v hv => .inl hv⟩
    | cons i indexes =>
      rw [applyUpdateToRow] at h
      split at h
      · exact absurd h (by simp)
      · rename_i hlt
        obtain ⟨hlen, hcell⟩ := ih h
        refine ⟨by rw [hlen, List.length_set], fun j v hv => ?_⟩
        rcases hcell j v hv with hold | ⟨k, set', hk, hj, hval⟩
        · by_cases hij : i = j
          · subst hij
            rw [List.getElem?_set_self (by omega), Option.some.injEq] at hold
            exact .inr ⟨0, set, by simp, by simp, hold⟩
          · rw [List.getElem?_set_ne hij] at hold
            exact .inl hold
        · exact .inr ⟨k + 1, set', by simpa using hk, by simpa using hj, hval⟩

/-- What is known of an assignment that passed the checks. -/
def SetOk (schema : List ColDef) (set : SetClause) (i : ℕ) : Prop :=
  findSchemaIndex schema set.column = some i ∧
    ∃ col, schema[i]? = some col ∧ validateUpdateValueForType col.type set.value = true

theorem setIndexLoop_spec {schema : List ColDef} {sets : List SetClause} {acc indexes : List ℕ}
    (h : setIndexLoop schema sets acc = some indexes) :
    ∃ found, indexes = acc ++ found ∧ List.Forall₂ (SetOk schema) sets found := by
  induction sets generalizing acc with
  | nil =>
    obtain rfl : acc = indexes := Option.some.inj h
    exact ⟨[], by simp, .nil⟩
  | cons set sets ih =>
    rw [setIndexLoop] at h
    split_ifs at h
    split at h
    · exact absurd h (by simp)
    · rename_i i hi
      split_ifs at h
      split at h
      · exact absurd h (by simp)
      · rename_i col hcol
        split_ifs at h with hvalid
        obtain ⟨found, rfl, hfound⟩ := ih h
        refine ⟨i :: found, by simp, .cons ⟨hi, col, hcol, ?_⟩ hfound⟩
        simpa using hvalid

theorem validateUpdateSetClause_spec {schema : List ColDef} {sets : List SetClause}
    {indexes : List ℕ} (h : validateUpdateSetClause schema sets = some indexes) :
    List.Forall₂ (SetOk schema) sets indexes := by
  obtain ⟨found, rfl, hfound⟩ := setIndexLoop_spec h
  exact hfound

/-- **A cell of an updated row is the old cell, or the value of an assignment to its column that
passed the checks.** -/
theorem updateSet_cell {schema : List ColDef} {sets : List SetClause} {indexes : List ℕ}
    {row row' : Row} (hsets : validateUpdateSetClause schema sets = some indexes)
    (h : applyUpdateToRow row sets indexes = some row') {j : ℕ} {v : CStr}
    (hv : row'[j]? = some v) :
    row[j]? = some v ∨ ∃ set ∈ sets, SetOk schema set j ∧ set.value = v := by
  rcases (applyUpdateToRow_spec h).2 j v hv with hold | ⟨k, set, hk, hj, hval⟩
  · exact .inl hold
  · have hok := (List.forall₂_iff_get.mp (validateUpdateSetClause_spec hsets)).2
    obtain ⟨hk₁, hk₂⟩ := List.getElem?_eq_some_iff.mp hk
    obtain ⟨hj₁, hj₂⟩ := List.getElem?_eq_some_iff.mp hj
    have hset := hok k hk₁ hj₁
    simp only [List.get_eq_getElem, hk₂, hj₂] at hset
    exact .inr ⟨set, List.mem_of_getElem? hk, hset, hval⟩

/-- A row that an UPDATE leaves is an old row, or an old row with the assignments made. -/
theorem mem_planRows_updateRow {schema : List ColDef} {sql : ParsedSQL} {indexes : List ℕ}
    {rows kept : List Row} (h : planRows (updateRow schema sql indexes) rows = some kept)
    {row : Row} (hrow : row ∈ kept) :
    ∃ old ∈ rows, row = old ∨
      rowMatchesDelete schema old sql = some true ∧
        applyUpdateToRow old sql.sets indexes = some row := by
  obtain ⟨old, hold, hplan⟩ := mem_planRows h hrow
  unfold updateRow at hplan
  split at hplan
  · exact absurd hplan (by simp)
  · rename_i m hm
    split at hplan
    · rename_i htrue
      obtain ⟨row', hrow', heq⟩ := Option.map_eq_some_iff.mp hplan
      exact ⟨old, hold, .inr ⟨by rw [hm, htrue], by rw [hrow', Option.some.inj heq]⟩⟩
    · exact ⟨old, hold, .inl (Option.some.inj (Option.some.inj hplan)).symm⟩

omit [CDouble] in
theorem rowOk_updateRow {width : ℕ} {sets : List SetClause} {indexes : List ℕ} {row row' : Row}
    (hnul : ∀ set ∈ sets, NulFree set.value) (hrow : RowOk width row)
    (h : applyUpdateToRow row sets indexes = some row') : RowOk width row' := by
  obtain ⟨hlen, hcell⟩ := applyUpdateToRow_spec h
  refine ⟨hlen.trans hrow.1, fun v hv => ?_⟩
  obtain ⟨j, hj⟩ := List.mem_iff_getElem?.mp hv
  rcases hcell j v hj with hold | ⟨k, set, hk, -, rfl⟩
  · exact hrow.2 v (List.mem_of_getElem? hold)
  · exact hnul set (List.mem_of_getElem? hk)

end MiniSql
