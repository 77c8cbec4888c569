import MiniSql.Storage.Calls

/-!
# Three statements read a `WHERE` clause alike

A DELETE drops the rows that a SELECT with the same conditions returns, and an UPDATE changes those
rows only. Both check the literals of the conditions before they read a row, and the SELECT does
not; but what they ask of a row is the same.

## Main definitions

* `selectAll` — the SELECT of all columns with the conditions of a statement.
* `assigned` — a row with the assignments of an UPDATE made.
* `MatchedBy` — the rows of the table, and which of them the SELECT returns.

## Main results

* `matchedBy_of_scan` — a statement that can read all rows has a SELECT.
* `applyUpdateToRow_eq` — an updated row, cell by cell.
* `rewrite_matches_select` — what a DELETE and an UPDATE leave.
-/

namespace MiniSql
open CText

/-- `SELECT *` with the conditions of a statement, without an order and a limit. -/
def selectAll (sql : ParsedSQL) : ParsedSQL :=
  { sql with columns := [['*']], orderBy := none, limit := -1 }

/-- A row whose cells in assigned columns hold the assigned values. -/
def assigned (schema : List ColDef) (sets : List SetClause) (row : Row) : Row :=
  row.mapIdx fun j cell =>
    ((sets.find? fun set => findSchemaIndex schema set.column = some j).map (·.value)).getD cell

/-! ## The updated row -/

variable [CDouble]

/-- No column is assigned twice. -/
theorem setIndexLoop_nodup {schema : List ColDef} {sets : List SetClause} {acc indexes : List ℕ}
    (hacc : acc.Nodup) (h : setIndexLoop schema sets acc = some indexes) : indexes.Nodup := by
  induction sets generalizing acc with
  | nil =>
    obtain rfl : acc = indexes := Option.some.inj h
    exact hacc
  | cons set sets ih =>
    rw [setIndexLoop] at h
    split_ifs at h
    split at h
    · exact absurd h (by simp)
    · rename_i i hi
      split_ifs at h with hnew
      split at h
      · exact absurd h (by simp)
      · split_ifs at h
        refine ih ?_ h
        rw [List.nodup_append]
        refine ⟨hacc, List.nodup_singleton i, fun a ha b hb => ?_⟩
        rw [List.mem_singleton.mp hb]
        exact fun heq => hnew (heq ▸ ha)

/-- A cell of an updated row. -/
theorem applyUpdateToRow_getElem? {schema : List ColDef} {sets : List SetClause}
    {indexes : List ℕ} (hsets : List.Forall₂ (SetOk schema) sets indexes) (hnodup : indexes.Nodup)
    {row row' : Row} (h : applyUpdateToRow row sets indexes = some row') (j : ℕ) :
    row'[j]? = row[j]?.map fun cell =>
      ((sets.find? fun set => findSchemaIndex schema set.column = some j).map (·.value)).getD cell := by
  induction hsets generalizing row with
  | nil =>
    obtain rfl : row = row' := by simpa [applyUpdateToRow] using h
    simp
  | @cons set i sets indexes hset hsets ih =>
    obtain ⟨hi, hrest⟩ := List.nodup_cons.mp hnodup
    rw [applyUpdateToRow] at h
    split at h
    · exact absurd h (by simp)
    · rename_i hlt
      rw [ih hrest h]
      by_cases hij : i = j
      · subst hij
        -- no later assignment is to the same column
        have hlater : (sets.find? fun set => findSchemaIndex schema set.column = some i) = none := by
          refine List.find?_eq_none.mpr fun later hlater => ?_
          obtain ⟨k, hk, hget⟩ := List.getElem_of_mem hlater
          have hok := (List.forall₂_iff_get.mp hsets).2 k hk
            (by rw [← hsets.length_eq]; exact hk)
          rw [List.get_eq_getElem, hget] at hok
          intro hsame
          have hcol : findSchemaIndex schema later.column = some i := by simpa using hsame
          have heq := Option.some.inj (hok.1.symm.trans hcol)
          exact hi (heq ▸ List.get_mem _ _)
        rw [hlater, List.find?_cons_of_pos (by simpa using hset.1),
          List.getElem?_set_self (by omega), List.getElem?_eq_getElem (by omega)]
        rfl
      · have hother : ¬ findSchemaIndex schema set.column = some j := by
          rw [hset.1]
          exact fun heq => hij (Option.some.inj heq)
        rw [List.find?_cons_of_neg (by simpa using hother), List.getElem?_set_ne hij]

/-- **An updated row has the assigned values in the assigned columns, and its old cells elsewhere.** -/
theorem applyUpdateToRow_eq {schema : List ColDef} {sets : List SetClause} {indexes : List ℕ}
    (hsets : validateUpdateSetClause schema sets = some indexes) {row row' : Row}
    (h : applyUpdateToRow row sets indexes = some row') : row' = assigned schema sets row := by
  refine List.ext_getElem? fun j => ?_
  rw [applyUpdateToRow_getElem? (validateUpdateSetClause_spec hsets)
    (setIndexLoop_nodup List.nodup_nil hsets) h, assigned, List.getElem?_mapIdx]

/-! ## The rows that are left -/

/-- Whether a row meets the conditions, where that can be said. -/
def matchesRow (schema : List ColDef) (sql : ParsedSQL) (row : Row) : Bool :=
  rowMatchesDelete schema row sql = some true

theorem matchLoop_selectAll (schema : List ColDef) (row : Row) (sql : ParsedSQL) (index : ℕ)
    (clauses : List WhereClause) (outMatch groupMatch : Bool) :
    matchLoop schema row (selectAll sql) index clauses outMatch groupMatch =
      matchLoop schema row sql index clauses outMatch groupMatch := by
  induction clauses generalizing index outMatch groupMatch with
  | nil => rfl
  | cons clause clauses ih =>
    rw [matchLoop, matchLoop]
    simp only [ih]
    rfl

/-- The SELECT asks of a row what the statement does. -/
theorem rowMatchesDelete_selectAll (schema : List ColDef) (row : Row) (sql : ParsedSQL) :
    rowMatchesDelete schema row (selectAll sql) = rowMatchesDelete schema row sql := by
  unfold rowMatchesDelete
  simp only [matchLoop_selectAll]
  rfl

/-- A DELETE that can read all rows leaves those that do not match. -/
theorem planRows_deleteRow {schema : List ColDef} {sql : ParsedSQL} {rows kept : List Row}
    (h : planRows (deleteRow schema sql) rows = some kept) :
    (∀ row ∈ rows, rowMatchesDelete schema row sql = some (matchesRow schema sql row)) ∧
      kept = rows.filter fun row => !matchesRow schema sql row := by
  induction rows generalizing kept with
  | nil =>
    obtain rfl : [] = kept := Option.some.inj h
    exact ⟨by simp, rfl⟩
  | cons row rows ih =>
    rw [planRows_cons] at h
    obtain ⟨plan, hplan, h⟩ := Option.bind_eq_some_iff.mp h
    obtain ⟨rest, hrest, rfl⟩ := Option.map_eq_some_iff.mp h
    obtain ⟨m, hm, rfl⟩ := Option.map_eq_some_iff.mp hplan
    obtain ⟨hall, rfl⟩ := ih hrest
    have hrow : rowMatchesDelete schema row sql = some (matchesRow schema sql row) := by
      rw [matchesRow, hm]
      cases m <;> rfl
    refine ⟨List.forall_mem_cons.mpr ⟨hrow, hall⟩, ?_⟩
    obtain rfl := Option.some.inj (hm.symm.trans hrow)
    cases h : matchesRow schema sql row <;> simp [h]

/-- An UPDATE that can read all rows makes its assignments in those that match. -/
theorem planRows_updateRow {schema : List ColDef} {sql : ParsedSQL} {indexes : List ℕ}
    (hsets : validateUpdateSetClause schema sql.sets = some indexes) {rows kept : List Row}
    (h : planRows (updateRow schema sql indexes) rows = some kept) :
    (∀ row ∈ rows, rowMatchesDelete schema row sql = some (matchesRow schema sql row)) ∧
      kept = rows.map fun row =>
        if matchesRow schema sql row then assigned schema sql.sets row else row := by
  induction rows generalizing kept with
  | nil =>
    obtain rfl : [] = kept := Option.some.inj h
    exact ⟨by simp, rfl⟩
  | cons row rows ih =>
    rw [planRows_cons] at h
    obtain ⟨plan, hplan, h⟩ := Option.bind_eq_some_iff.mp h
    obtain ⟨rest, hrest, rfl⟩ := Option.map_eq_some_iff.mp h
    obtain ⟨hall, rfl⟩ := ih hrest
    unfold updateRow at hplan
    cases hm : rowMatchesDelete schema row sql with
    | none =>
      rw [hm] at hplan
      exact absurd hplan (by simp)
    | some m =>
      have hrow : matchesRow schema sql row = m := by
        rw [matchesRow, hm]
        cases m <;> rfl
      refine ⟨List.forall_mem_cons.mpr ⟨by rw [hm, hrow], hall⟩, ?_⟩
      rw [hm] at hplan
      rw [List.map_cons, hrow]
      cases m with
      | true =>
        obtain ⟨row', hrow', rfl⟩ := Option.map_eq_some_iff.mp hplan
        rw [applyUpdateToRow_eq hsets hrow']
        rfl
      | false =>
        obtain rfl := Option.some.inj hplan
        rfl

/-! ## The table of a statement -/

/-- The rows of the table that a SELECT opens, and those of them that it returns for the
conditions of a statement. -/
structure MatchedBy (st : Storage) (table : CStr) (sql : ParsedSQL) (path : Path)
    (schema : List ColDef) (rows : List Row) (isMatch : Row → Bool) : Prop where
  opened : (openSelect st table).1 = some (path, schema)
  loaded : (st.files path).bind (loadTableRows · schema.length) = some rows
  selected : (storageSelectResult st table (selectAll sql)).1 =
    some ⟨schema.map (·.name), rows.filter isMatch⟩

/-- The result of a SELECT of all columns. -/
theorem buildRowset_selectAll {sql : ParsedSQL} {schema : List ColDef} {rows : List Row}
    (h : ∀ row ∈ rows, row.length = schema.length) :
    buildRowset (selectAll sql) schema rows = some ⟨schema.map (·.name), rows⟩ := by
  have hnames : ((List.range schema.length).map fun i => ((schema[i]?).map (·.name)).getD []) =
      schema.map (·.name) := by
    refine List.ext_getElem (by simp) fun i h₁ h₂ => ?_
    have hi : i < schema.length := by simpa using h₂
    simp [hi]
  have hcells : (rows.map fun row => (List.range schema.length).map fun i => row[i]?.getD []) =
      rows := by
    refine (List.map_congr_left fun row hrow => ?_).trans (List.map_id rows)
    refine List.ext_getElem (by simp [h row hrow]) fun i h₁ h₂ => ?_
    have hi : i < row.length := h₂
    simp [hi]
  have hcall : parseAggregateCall ['*'] = none := by decide
  have hsort : sortSelection (selectAll sql) schema rows = some rows := rfl
  rw [buildRowset_plain hsort rfl hcall]
  change some (RowSet.mk _ _) = _
  rw [hnames]
  exact congrArg (fun cells => some (RowSet.mk (schema.map (·.name)) cells)) hcells

/-- **Where the conditions can be evaluated on every row, a SELECT returns those that match.** -/
theorem matchedBy_of_scan {st : Storage} {table : CStr} {sql : ParsedSQL} {path : Path}
    {schema : List ColDef} {rows : List Row}
    (hopen : (openSelect st table).1 = some (path, schema))
    (hrows : (st.files path).bind (loadTableRows · schema.length) = some rows)
    (hcolumns : validateDeleteClause schema sql = true)
    (hmatch : ∀ row ∈ rows, rowMatchesDelete schema row sql = some (matchesRow schema sql row)) :
    MatchedBy st table sql path schema rows (matchesRow schema sql) := by
  refine ⟨hopen, hrows, ?_⟩
  obtain ⟨paths, hsnd⟩ := openSelect_snd st table
  have hall : ∀ row ∈ rows, row.length = schema.length := by
    obtain ⟨file, -, hload⟩ := Option.bind_eq_some_iff.mp hrows
    exact fun row hrow => (rowOk_of_loadTableRows hload row hrow).1
  have hexist : ((selectAll sql).conds.all fun c => (findSchemaIndex schema c.column).isSome) = true := by
    obtain ⟨hconds, -⟩ := Bool.and_eq_true_iff.mp hcolumns
    refine List.all_eq_true.mpr fun c hc => ?_
    have hvalid := List.all_eq_true.mp hconds c hc
    unfold validateClause at hvalid
    cases hfind : findSchemaIndex schema c.column with
    | none =>
      rw [hfind] at hvalid
      exact absurd hvalid (by simp)
    | some i => rfl
  have hscan : scanRows st path schema (selectAll sql) =
      some (rows.filter (matchesRow schema sql)) := by
    unfold scanRows
    rw [hrows]
    dsimp only
    rw [if_pos hexist]
    refine collectMatchingRows_eq fun row hrow => ?_
    rw [rowMatchesDelete_selectAll, hmatch row hrow]
  unfold storageSelectResult selectBy
  rcases hres : openSelect st table with ⟨found, st₁⟩
  rw [hres] at hsnd hopen
  dsimp only at hsnd hopen
  subst hsnd hopen
  dsimp only
  change (scanRows st path schema (selectAll sql)).bind _ = _
  rw [hscan, Option.bind_some]
  exact buildRowset_selectAll fun row hrow => hall row (List.mem_filter.mp hrow).1

omit [CDouble] in
/-- A rewriting finds the table and the schema that a SELECT opens. -/
theorem rewritePaths_open {st st₁ : Storage} {table : CStr} (hne : table ≠ []) {sp path temp : Path}
    (h : rewritePaths .none st table = (some (sp, path, temp), st₁)) :
    st₁.files = st.files ∧
      (openSelect st table).1 = (loadSchema st₁ sp).map fun schema => (path, schema) := by
  have hprobe : (fun path => st.pathExists path && !RewriteFaults.none.probe path) =
      st.pathExists := by
    funext path
    simp [RewriteFaults.none]
  unfold rewritePaths at h
  rw [hprobe] at h
  unfold openSelect buildSchemaPath buildTablePath
  rw [if_neg hne]
  dsimp only at h
  obtain ⟨paths, hs⟩ := buildSchemaPathWith_snd st.pathExists st table
  rcases hres : buildSchemaPathWith st.pathExists st table with ⟨_ | sp', st₂⟩ <;>
    rw [hres] at h hs <;> subst hs <;> dsimp only at h ⊢
  · exact absurd h (by simp)
  obtain ⟨paths', ht⟩ := buildTablePathWith_snd st.pathExists { st with pathCache := paths } table
  have hexists : Storage.pathExists { st with pathCache := paths } = st.pathExists := rfl
  rw [hexists]
  rcases hres' : buildTablePathWith st.pathExists { st with pathCache := paths } table with
    ⟨_ | path', st₃⟩ <;> rw [hres'] at h ht <;> subst ht <;> dsimp only at h ⊢
  · exact absurd h (by simp)
  cases htemp : buildTempPathWith st.pathExists table with
  | none =>
    rw [htemp] at h
    exact absurd h (by simp)
  | some temp' =>
    rw [htemp] at h
    obtain ⟨hfound, rfl⟩ := Prod.mk.inj h
    obtain ⟨rfl, hrest⟩ := Prod.mk.inj (Option.some.inj hfound)
    obtain ⟨rfl, -⟩ := Prod.mk.inj hrest
    exact ⟨rfl, rfl⟩

omit [CDouble] in
theorem replaceTableFile_none (st : Storage) (path temp : Path) (out : CStr) :
    replaceTableFile .none st path temp out =
      (.ok (), ((appendFpInvalidate st path).setFile temp none).setFile path (some out)) := by
  unfold replaceTableFile
  rfl

omit [CDouble] in
/-- The path and the schema of a rewriting that succeeds are those that a SELECT opens, the file
behind it holds the rows that are left, and the index is rebuilt from this file. -/
theorem rewriteTable_ok {st st' : Storage} {table : CStr} (hne : table ≠ [])
    {plan : List ColDef → Option RowPlan} (hkeeps : KeepsRows plan)
    (h : rewriteTable .none st table plan = (.ok (), st')) :
    ∃ path schema rowPlan rows kept, (openSelect st table).1 = some (path, schema) ∧
      plan schema = some rowPlan ∧
      (st.files path).bind (loadTableRows · schema.length) = some rows ∧
      planRows rowPlan rows = some kept ∧
      (st'.files path).bind (loadTableRows · schema.length) = some kept ∧
      ∃ written : Storage, written.files = st'.files ∧ st' = rebuildIndexWith false written table
        path (findSchemaIndex schema "id".toList) := by
  unfold rewriteTable at h
  rcases hpaths : rewritePaths .none st table with ⟨_ | ⟨sp, path, temp⟩, st₁⟩ <;>
    rw [hpaths] at h <;> dsimp only at h
  · exact absurd h (by simp)
  obtain ⟨hfiles, hopen⟩ := rewritePaths_open hne hpaths
  rw [if_neg (by simp [RewriteFaults.none])] at h
  cases hschema : loadSchema st₁ sp with
  | none =>
    rw [hschema] at h
    exact absurd h (by simp)
  | some schema =>
    rw [hschema] at h hopen
    dsimp only at h
    cases hplan : plan schema with
    | none =>
      rw [hplan] at h
      exact absurd h (by simp)
    | some rowPlan =>
      rw [hplan] at h
      dsimp only at h
      unfold rewriteRows at h
      rw [rewrittenFile_none, hfiles] at h
      cases hkept : (st.files path).bind fun file =>
          (loadTableRows file schema.length).bind (planRows rowPlan) with
      | none =>
        rw [hkept] at h
        exact absurd h (by simp)
      | some kept =>
        obtain ⟨file, hfile, hload⟩ := Option.bind_eq_some_iff.mp hkept
        obtain ⟨rows, hrows, hplanned⟩ := Option.bind_eq_some_iff.mp hload
        rw [hkept, Option.map_some] at h
        dsimp only at h
        rw [replaceTableFile_none] at h
        set written : Storage := invalidateMetaCache (((appendFpInvalidate st₁ path).setFile temp
          none).setFile path (some (kept.flatMap writeCsvRow))) table with hwritten
        have hst' : st' = rebuildIndexWith false written table path
            (findSchemaIndex schema "id".toList) := (Prod.mk.inj h).2.symm
        obtain ⟨registry, hindex⟩ := rebuildIndexWith_snd false written table path
          (findSchemaIndex schema "id".toList)
        have hwrite : st'.files path = some (kept.flatMap writeCsvRow) := by
          rw [hst', hindex]
          exact Function.update_self ..
        have hpos : 0 < schema.length := by
          obtain ⟨text, -, hparse⟩ := Option.bind_eq_some_iff.mp hschema
          exact List.length_pos_of_ne_nil (parseSchema_ne_nil hparse)
        refine ⟨path, schema, rowPlan, rows, kept, hopen, hplan, ?_, hplanned, ?_, written,
          by rw [hst', hindex], hst'⟩
        · rw [hfile]
          exact hrows
        · rw [hwrite]
          exact loadTableRows_flatMap hpos
            (hkeeps hplan (rowOk_of_loadTableRows hrows) hplanned)

/-! ## The two statements -/

/-- **What a SELECT, a DELETE and an UPDATE make of a `WHERE` clause is the same.** A DELETE that
succeeds leaves the rows that the SELECT does not return. An UPDATE that succeeds makes its
assignments in the rows that the SELECT returns, and leaves the others as they are. -/
theorem rewrite_matches_select (st : Storage) (table : CStr) (sql : ParsedSQL) :
    (∀ st', storageDelete st table sql = (.ok (), st') →
      ∃ path schema rows isMatch, MatchedBy st table sql path schema rows isMatch ∧
        (st'.files path).bind (loadTableRows · schema.length) =
          some (rows.filter fun row => !isMatch row)) ∧
    ∀ st', (∀ set ∈ sql.sets, NulFree set.value) → storageUpdate st table sql = (.ok (), st') →
      ∃ path schema rows isMatch, MatchedBy st table sql path schema rows isMatch ∧
        (∀ set ∈ sql.sets, (findSchemaIndex schema set.column).isSome = true) ∧
        (st'.files path).bind (loadTableRows · schema.length) =
          some (rows.map fun row => if isMatch row then assigned schema sql.sets row else row) := by
  constructor
  · intro st' h
    unfold storageDelete storageDeleteWith at h
    split at h
    · rename_i hinput
      have hne := ne_nil_of_validateDeleteInput hinput
      obtain ⟨path, schema, rowPlan, rows, kept, hopen, hplan, hrows, hplanned, hkept, -⟩ :=
        rewriteTable_ok hne (keepsRows_deletePlan sql) h
      unfold deletePlan at hplan
      split at hplan
      · rename_i hclause
        obtain rfl := Option.some.inj hplan
        obtain ⟨hmatch, rfl⟩ := planRows_deleteRow hplanned
        exact ⟨path, schema, rows, matchesRow schema sql,
          matchedBy_of_scan hopen hrows hclause hmatch, hkept⟩
      · exact absurd hplan (by simp)
    · exact absurd h (by simp)
  · intro st' hnul h
    unfold storageUpdate storageUpdateWith at h
    split at h
    · rename_i hinput
      have hne := ne_nil_of_validateUpdateInput hinput
      obtain ⟨path, schema, rowPlan, rows, kept, hopen, hplan, hrows, hplanned, hkept, -⟩ :=
        rewriteTable_ok hne (keepsRows_updatePlan hnul) h
      unfold updatePlan at hplan
      split at hplan
      · exact absurd hplan (by simp)
      · rename_i indexes hsets
        split at hplan
        · rename_i hclause
          obtain rfl := Option.some.inj hplan
          obtain ⟨hmatch, rfl⟩ := planRows_updateRow hsets hplanned
          refine ⟨path, schema, rows, matchesRow schema sql,
            matchedBy_of_scan hopen hrows hclause hmatch, fun set hset => ?_, hkept⟩
          obtain ⟨k, hk, hget⟩ := List.getElem_of_mem hset
          have hspec := validateUpdateSetClause_spec hsets
          have hok := (List.forall₂_iff_get.mp hspec).2 k hk (by rw [← hspec.length_eq]; exact hk)
          rw [List.get_eq_getElem, hget] at hok
          rw [hok.1]
          rfl
        · exact absurd hplan (by simp)
    · exact absurd h (by simp)

/-- A table `t (id INT, n INT)` of three rows. -/
def threeRows : Path → Option CStr := fun path =>
  if path = schemaPath .nested "t".toList then some "id,INT\nn,INT\n".toList
  else if path = tablePath .nested "t".toList then some "1,5\n2,7\n3,5\n".toList
  else none

/-- `n = 5 AND id > 1 OR n = '7'`, with the assignment `n = 0`. -/
def setWhere : ParsedSQL :=
  { parsedNew with
    table := "t".toList
    conds := [⟨"n".toList, ['='], ['5'], []⟩, ⟨"id".toList, ['>'], ['1'], []⟩,
      ⟨"n".toList, ['='], ['7'], []⟩]
    whereLinks := ["AND".toList, "OR".toList]
    sets := [⟨"n".toList, ['0']⟩] }

omit [CDouble] in
theorem exists_of_ok {result : Status × Storage} (h : result.1 = .ok ()) :
    ∃ st', result = (.ok (), st') :=
  ⟨result.2, Prod.ext h rfl⟩

omit [CDouble] in
theorem rewrite_matches_select_three :
    (∃ st', @storageDelete .whole (.start threeRows) "t".toList setWhere = (.ok (), st') ∧
      ∃ path schema rows isMatch,
        @MatchedBy .whole (.start threeRows) "t".toList setWhere path schema rows isMatch ∧
          (st'.files path).bind (loadTableRows · schema.length) =
            some (rows.filter fun row => !isMatch row)) ∧
    ∃ st', @storageUpdate .whole (.start threeRows) "t".toList setWhere = (.ok (), st') ∧
      ∃ path schema rows isMatch,
        @MatchedBy .whole (.start threeRows) "t".toList setWhere path schema rows isMatch ∧
          (∀ set ∈ setWhere.sets, (findSchemaIndex schema set.column).isSome = true) ∧
          (st'.files path).bind (loadTableRows · schema.length) = some (rows.map fun row =>
            if isMatch row then assigned schema setWhere.sets row else row) := by
  have hdelete : (@storageDelete .whole (.start threeRows) "t".toList setWhere).1 = .ok () := by
    decide +kernel
  have hupdate : (@storageUpdate .whole (.start threeRows) "t".toList setWhere).1 = .ok () := by
    decide +kernel
  obtain ⟨st₁, hdelete⟩ := exists_of_ok hdelete
  obtain ⟨st₂, hupdate⟩ := exists_of_ok hupdate
  obtain ⟨hdeleted, hupdated⟩ :=
    @rewrite_matches_select .whole (.start threeRows) "t".toList setWhere
  exact ⟨⟨st₁, hdelete, hdeleted st₁ hdelete⟩, st₂, hupdate, hupdated st₂ (by decide) hupdate⟩

end MiniSql
