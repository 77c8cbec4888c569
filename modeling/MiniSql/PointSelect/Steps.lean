import MiniSql.PointSelect.Insert

/-!
# Statements that keep the tree in step

A DELETE or an UPDATE makes the tree of its own table from the file and throws the trees of all
other tables away; a SELECT fills the tree once; a CREATE of a new table finds no tree.

## Main definitions

* `InsertInStep`, `UpdateInStep`, `CreateInStep` — the statements that keep a tree in step.

## Main results

* `PointReady.insert`, `PointReady.delete`, `PointReady.update`, `PointReady.create`,
  `PointReady.fill` — one statement on the table.
* `PointReady.other` — one statement on another table.
-/

namespace MiniSql
open CText

section Steps

variable {st st' : Storage} {table : CStr}

theorem tablePlace_of_no_legacy (h : st.files (tablePath .legacy table) = none) :
    st.tablePlace table = .nested := by
  cases hplace : st.tablePlace table with
  | nested => rfl
  | legacy => exact absurd h (tablePlace_eq_legacy.mp hplace).2.2

theorem schemaPlace_of_no_legacy (h : st.files (schemaPath .legacy table) = none) :
    st.schemaPlace table = .nested := by
  cases hplace : st.schemaPlace table with
  | nested => rfl
  | legacy => exact absurd h (schemaPlace_eq_legacy.mp hplace).2

/-- The tree of a table in whose tree nothing is left. -/
theorem inStep_emptyTree {ids : List ℤ} {filled : Prop} (h : filled → ids = []) :
    emptyTree.InStep ids filled :=
  ⟨sound_emptyTree, by simp [toList_emptyTree], fun hfilled => by
    rw [h hfilled]
    exact indexes_emptyTree⟩

/-- What a statement that writes the file of its table leaves alone. -/
theorem PointReady.writes (hplain : PlainName table) (h : PointReady table st) {st₁ : Storage}
    (hwrites : Writes table st₁ st') (hc : st₁.Coherent table) (htouch : Touches table st st')
    (hfiles : st₁.files = st.files) :
    st'.Sound ∧ st'.files (binPath table) = none ∧
      (st'.files (schemaPath .legacy table) = none ∧ st'.files (tablePath .legacy table) = none) ∧
      st'.tableSchema table = st.tableSchema table ∧
      st'.content table = st'.files (st.tableFile table) := by
  obtain ⟨hsound, hfile, hschema⟩ := hwrites.sound h.sound hplain htouch hc hfiles
  have hplace : st₁.tablePlace table = .nested :=
    tablePlace_of_no_legacy (by rw [hfiles, h.no_legacy.2])
  refine ⟨hsound, ?_, ⟨?_, ?_⟩, hschema, ?_⟩
  · rw [htouch.files _ (binPath_not_own table table), h.no_bin]
  · rw [hwrites.schemaPath_files, hfiles, h.no_legacy.1]
  · rw [hwrites.tablePath_files (by rw [hplace]; simp), hfiles, h.no_legacy.2]
  · rw [Storage.content, hfile]

/-- An INSERT into a table without a schema registers nothing. -/
theorem storageInsert_missing (hshort : table.length ≤ nameMax) (hc : st.Coherent table)
    (hnone : st.tableSchema table = none) (columns values : List CStr) :
    (storageInsert st table columns values).2.registry = st.registry := by
  unfold storageInsert
  split
  · rfl
  · obtain ⟨paths, schemas, hopen, -⟩ := openTable_view hshort hc
    rw [hopen, hnone]
    rfl

/-- **An INSERT keeps the tree in step**: the row that it appends has a positive `int` that no other
row has for its id, and once the tree counts as filled, the entry in the meta cache counts the rows
of the file, and the tree has not been thrown away, unless there are no rows or no tree can be
made. -/
def InsertInStep (st : Storage) (table : CStr) (columns values : List CStr) : Prop :=
  ∀ schema ∈ st.tableSchema table, ∀ idCol ∈ findSchemaIndex schema "id".toList,
    (schema[idCol]?).map (·.type) = some .int →
    ∀ row ∈ appendedRow st table columns values,
      ∀ rows ∈ loadTableRows ((st.content table).getD []) schema.length,
        (∃ id ∈ (row[idCol]?).bind parseLongValue, 0 < id ∧ id ≤ intMax ∧ id ∉ idsOf idCol rows) ∧
        (table ∈ st.indexRebuilt → st.CountsRows table rows.length ∧
          (st.registry.find table = none → rows = [] ∨ registryMax ≤ st.registry.length))

theorem PointReady.insert (hplain : PlainName table) (h : PointReady table st)
    {columns values : List CStr} (hnul : ∀ v ∈ values, NulFree v)
    (hstep : InsertInStep st table columns values) :
    PointReady table (storageInsert st table columns values).2 := by
  have hc := h.sound.coherent table hplain
  obtain ⟨paths, schemas, hc₁, hwrites, hafter, -⟩ :=
    storageInsert_view hplain.1 hc columns values
  obtain ⟨hsound, hbin, hlegacy, hschema', hcontent⟩ := h.writes hplain hwrites hc₁
    (touches_storageInsert h.sound.wf hplain.1 columns values) rfl
  rw [hafter] at hcontent
  refine ⟨hsound, hbin, hlegacy, fun hnone => ?_, fun schema idCol hschema hidx => ?_⟩
  · rw [hschema'] at hnone
    have happ : appendedRow st table columns values = none := by
      unfold appendedRow
      rw [hnone, Option.bind_none, ite_self]
    obtain ⟨hempty, htree⟩ := h.missing hnone
    rw [hcontent, happ, storageInsert_missing hplain.1 hc hnone]
    exact ⟨hempty, htree⟩
  · rw [hschema'] at hschema
    obtain ⟨file, rows, hfile, hline, hload, hids, htree⟩ := h.rows schema idCol hschema hidx
    have hload' : loadTableRows ((st.content table).getD []) schema.length = some rows := by
      rw [hfile]
      exact hload
    obtain ⟨hrebuilt, hregisters⟩ :=
      storageInsert_tree hplain.1 hc hschema hidx.1 hload' columns values
    rw [hcontent, hrebuilt]
    cases happ : appendedRow st table columns values with
    | none =>
      rw [happ] at hregisters
      dsimp only at hregisters
      rw [hregisters]
      exact ⟨file, rows, hfile, hline, hload, hids, htree⟩
    | some row =>
      rw [happ] at hregisters
      dsimp only at hregisters
      obtain ⟨⟨id, hread, hpos, hmax, hnew⟩, hflag⟩ :=
        hstep schema hschema idCol hidx.1 hidx.2 row happ rows hload'
      have hreads : RowReads idCol row id :=
        ⟨hread, by simp only [intMin]; omega, hmax⟩
      have hid := hreads.rowId_eq.1
      obtain ⟨n, hn, hfind⟩ := hregisters id hreads
      have hrow := rowOk_insertedRow hnul (insertedRow_of_appended hschema happ)
      refine ⟨file ++ writeCsvRow row, rows ++ [row], ?_, endsLine_writeCsvRow file row, ?_,
        hids.append hread hid hpos hnew, fun tree htree' => ?_⟩
      · rw [hfile]
        rfl
      · exact loadTableRows_append (hline.terminated _) hload (tableSchema_ne_nil hschema) hrow
      · rw [hfind, indexRegistryGetOrCreate_fst] at htree'
        have hcount : table ∈ st.indexRebuilt → (n : ℤ) = (idsOf idCol rows).length := by
          intro hfilled
          rw [hids.length, hn (hflag hfilled).1]
        rw [idsOf_append hid]
        cases hold : st.registry.find table with
        | some tree₀ =>
          rw [hold] at htree'
          rw [← Option.some.inj htree']
          exact (htree tree₀ hold).insert hnew hcount
        | none =>
          rw [hold] at htree'
          dsimp only at htree'
          split at htree'
          · exact absurd htree' (by simp)
          · rename_i hroom
            rw [← Option.some.inj htree']
            refine (inStep_emptyTree fun hfilled => ?_).insert hnew hcount
            rcases (hflag hfilled).2 hold with rfl | hfull
            · rfl
            · exact absurd (.inl hfull) hroom

/-- A rewriting marks no table as indexed. -/
theorem rewriteTable_indexRebuilt (st : Storage) (table : CStr)
    (plan : List ColDef → Option RowPlan) :
    (rewriteTable .none st table plan).2.indexRebuilt = st.indexRebuilt := by
  obtain ⟨cache, hpaths⟩ := (rewritePaths_spec .none st table).1
  unfold rewriteTable
  rcases hres : rewritePaths .none st table with ⟨_ | ⟨sp, path, temp⟩, st₁⟩ <;>
    rw [hres] at hpaths <;> subst hpaths <;> dsimp only
  rcases (if RewriteFaults.none.openSchema = true then none
    else loadSchema { st with pathCache := cache } sp) with _ | schema
  · rfl
  dsimp only
  cases plan schema with
  | none => rfl
  | some rowPlan =>
    dsimp only
    unfold rewriteRows
    cases rewrittenFile .none { st with pathCache := cache } path schema.length rowPlan with
    | none => rfl
    | some out =>
      dsimp only
      rw [replaceTableFile_none]
      dsimp only
      obtain ⟨registry, hreg⟩ := rebuildIndexWith_snd RewriteFaults.none.openIndex
        (invalidateMetaCache (((appendFpInvalidate { st with pathCache := cache } path).setFile temp
          none).setFile path (some out)) table) table path (findSchemaIndex schema "id".toList)
      rw [hreg]
      rfl

/-- **A DELETE or an UPDATE that leaves distinct positive ids leaves the tree in step.** -/
theorem PointReady.rewrite (hplain : PlainName table) (hne : table ≠ []) (h : PointReady table st)
    {plan : List ColDef → Option RowPlan} (hplan : KeepsRows plan)
    (hstep : ∀ kept ∈ rewrittenRows st table plan, ∀ schema idCol,
      st.tableSchema table = some schema → IntId schema idCol → IntIds idCol kept) :
    PointReady table (rewriteTable .none st table plan).2 := by
  have hc := h.sound.coherent table hplain
  obtain ⟨paths, hc₁, hwrites, hresult⟩ := rewriteTable_view hplain.1 hc plan
  obtain ⟨hsound, hbin, hlegacy, hschema', hcontent⟩ := h.writes hplain hwrites hc₁
    (touches_rewriteTable h.sound.wf hplain.1 plan) rfl
  have hpreserved : Preserved st table (rewriteTable .none st table plan) :=
    (preserved_rewriteTable_iff .none st table plan).mpr fun hfails => by
      obtain ⟨_, _, _, _, _, _, -, -, -, -, -, -, hrename⟩ := hfails
      exact absurd hrename (by simp [RewriteFaults.none])
  have hrebuilt := rewriteTable_indexRebuilt st table plan
  cases hkept : rewrittenRows st table plan with
  | none =>
    rw [hkept] at hresult
    have htree : (rewriteTable .none st table plan).2.registry.find table =
        st.registry.find table := by
      rcases hres : rewriteTable .none st table plan with ⟨_ | _, st'⟩
      · rw [hres] at hpreserved
        exact hpreserved.2.1
      · rw [hres] at hresult
        exact absurd hresult.1 (by simp)
    refine ⟨hsound, hbin, hlegacy, fun hnone => ?_, fun schema idCol hschema hidx => ?_⟩
    · rw [hcontent, hresult.2, htree]
      exact h.missing (hschema'.symm.trans hnone)
    · rw [hcontent, hresult.2, htree, hrebuilt]
      exact h.rows schema idCol (hschema'.symm.trans hschema) hidx
  | some kept =>
    rw [hkept] at hresult
    refine ⟨hsound, hbin, hlegacy, fun hnone => ?_, fun schema idCol hschema hidx => ?_⟩
    · have hnone' := hschema'.symm.trans hnone
      unfold rewrittenRows at hkept
      rw [hnone', Option.bind_none] at hkept
      exact absurd hkept (by simp)
    · have hschema₀ := hschema'.symm.trans hschema
      have hids := hstep kept hkept schema idCol hschema₀ hidx
      have hok : ∀ row ∈ kept, RowOk schema.length row := by
        obtain ⟨file, rows, hfile, -, hload, -⟩ := h.rows schema idCol hschema₀ hidx
        obtain ⟨rowPlan, hrowPlan, hrows⟩ := rewrittenRows_eq_some hschema₀ hfile hload hkept
        exact hplan hrowPlan (rowOk_of_loadTableRows hload) hrows
      refine ⟨kept.flatMap writeCsvRow, kept, hcontent.trans hresult.2, endsLine_flatMap kept,
        loadTableRows_flatMap (tableSchema_ne_nil hschema) hok, hids, fun tree htree => ?_⟩
      obtain ⟨st', hexec⟩ := exists_of_ok hresult.1
      rw [hexec] at htree ⊢
      obtain ⟨path, schema₁, _, _, _, hopen, -, -, -, -, written, hfiles, hst'⟩ :=
        rewriteTable_ok hne hplan hexec
      obtain ⟨_, hview, -⟩ := openSelect_view hplain.1 hne hc
      rw [hview, hschema₀, Option.map_some, Option.some.injEq, Prod.mk.injEq] at hopen
      obtain ⟨rfl, rfl⟩ := hopen
      rw [hexec] at hresult
      have hwritten : (written.files (st.tableFile table)).bind
          (loadTableRows · schema.length) = some kept := by
        rw [hfiles, hresult.2, Option.bind_some]
        exact loadTableRows_flatMap (tableSchema_ne_nil hschema) hok
      rw [hst', hidx.1, rebuildIndexWith_tree hplain.1 (hfiles ▸ hresult.2)] at htree
      rw [← Option.some.inj htree]
      exact (indexes_indexLoop hwritten hids.hasIds).inStep _

/-- **A DELETE keeps the tree in step.** -/
theorem PointReady.delete [CDouble] (hplain : PlainName table) (h : PointReady table st)
    (sql : ParsedSQL) : PointReady table (storageDelete st table sql).2 := by
  unfold storageDelete storageDeleteWith
  split
  · rename_i hinput
    have hne := ne_nil_of_validateDeleteInput hinput
    refine h.rewrite hplain hne (keepsRows_deletePlan sql) fun kept hkept schema idCol hschema hidx =>
      ?_
    obtain ⟨file, rows, hfile, -, hload, hids, -⟩ := h.rows schema idCol hschema hidx
    obtain ⟨rowPlan, hplan, hrows⟩ := rewrittenRows_eq_some hschema hfile hload hkept
    unfold deletePlan at hplan
    split at hplan
    · obtain rfl := Option.some.inj hplan
      obtain ⟨-, rfl⟩ := planRows_deleteRow hrows
      exact hids.sublist List.filter_sublist
    · exact absurd hplan (by simp)
  · exact h

/-- **An UPDATE keeps the tree in step**: it leaves distinct positive ids. -/
def UpdateInStep [CDouble] (st : Storage) (table : CStr) (sql : ParsedSQL) : Prop :=
  ∀ kept ∈ updatedRows st table sql, ∀ schema ∈ st.tableSchema table,
    ∀ idCol ∈ findSchemaIndex schema "id".toList, (schema[idCol]?).map (·.type) = some .int →
      IntIds idCol kept

theorem PointReady.update [CDouble] (hplain : PlainName table) (h : PointReady table st)
    {sql : ParsedSQL} (hnul : ∀ set ∈ sql.sets, NulFree set.value)
    (hstep : UpdateInStep st table sql) : PointReady table (storageUpdate st table sql).2 := by
  unfold storageUpdate storageUpdateWith
  unfold UpdateInStep updatedRows at hstep
  split
  · rename_i hinput
    have hne := ne_nil_of_validateUpdateInput hinput
    rw [if_pos hinput] at hstep
    exact h.rewrite hplain hne (keepsRows_updatePlan hnul)
      fun kept hkept schema idCol hschema hidx =>
        hstep kept hkept schema hschema idCol hidx.1 hidx.2
  · exact h

/-- A CREATE does not touch the index. -/
theorem storageCreate_index (st : Storage) (table : CStr) (colDefs : List CStr) :
    (storageCreate st table colDefs).2.registry = st.registry ∧
      (storageCreate st table colDefs).2.indexRebuilt = st.indexRebuilt := by
  unfold storageCreate storageCreateWith
  split
  · exact ⟨rfl, rfl⟩
  · obtain ⟨cache, hpaths⟩ := (createPaths_spec .none st table).1
    rcases hres : createPaths .none st table with ⟨_ | ⟨sp, path⟩, st₁⟩ <;>
      rw [hres] at hpaths <;> subst hpaths
    · exact ⟨rfl, rfl⟩
    · dsimp only
      rw [writeSchema_none]
      cases schemaText (fun _ => false) colDefs 0 [] <;> exact ⟨rfl, rfl⟩

/-- **A CREATE keeps the tree in step**: the table is new, or its columns stay what they are. -/
def CreateInStep (st : Storage) (table : CStr) (colDefs : List CStr) : Prop :=
  colDefs ≠ [] → ∀ schema ∈ st.tableSchema table,
    (schemaText (fun _ => false) colDefs 0 []).bind parseSchema = some schema

theorem PointReady.create (hplain : PlainName table) (h : PointReady table st)
    {colDefs : List CStr} (hstep : CreateInStep st table colDefs) :
    PointReady table (storageCreate st table colDefs).2 := by
  by_cases hargs : table ≠ [] ∧ colDefs ≠ []
  · have hsound := sound_storageCreate h.sound hplain colDefs
    obtain ⟨hregistry, hrebuilt⟩ := storageCreate_index st table colDefs
    have hview := (storageCreate_view hplain.1 h.sound.wf (h.sound.coherent table hplain) hargs).2
    have hbin : (storageCreate st table colDefs).2.files (binPath table) = none := by
      rw [(touches_storageCreate h.sound.wf hplain.1 colDefs).files _ (binPath_not_own table table),
        h.no_bin]
    have hschemaFile : st.schemaFile table = schemaPath .nested table := by
      rw [Storage.schemaFile, schemaPlace_of_no_legacy h.no_legacy.1]
    have htableFile : st.tableFile table = tablePath .nested table := by
      rw [Storage.tableFile, tablePlace_of_no_legacy h.no_legacy.2]
    rw [hschemaFile, htableFile] at hview
    have hother : ∀ path, path ≠ schemaPath .nested table → path ≠ tablePath .nested table →
        (storageCreate st table colDefs).2.files path = st.files path := by
      intro path hsp htp
      cases htext : schemaText (fun _ => false) colDefs 0 [] with
      | none =>
        rw [htext] at hview
        rw [hview.2, Function.update_of_ne hsp]
      | some text =>
        rw [htext] at hview
        rw [hview.2, Function.update_of_ne htp, Function.update_of_ne hsp]
    have hlegacy : (storageCreate st table colDefs).2.files (schemaPath .legacy table) = none ∧
        (storageCreate st table colDefs).2.files (tablePath .legacy table) = none := by
      rw [hother _ (fun heq => absurd (schemaPath_inj heq) (by simp))
          (schemaPath_ne_tablePath _ _ _ _),
        hother _ (schemaPath_ne_tablePath _ _ _ _).symm
          fun heq => absurd (tablePath_inj heq) (by simp)]
      exact h.no_legacy
    cases htext : schemaText (fun _ => false) colDefs 0 [] with
    | none =>
      rw [htext] at hview
      have hnone : st.tableSchema table = none := by
        refine Option.eq_none_iff_forall_ne_some.mpr fun schema hschema => ?_
        have hsame := hstep hargs.2 schema hschema
        rw [htext] at hsame
        exact absurd hsame (by simp)
      have hrefused := storageCreate_refused h.sound hplain hargs htext (.inr h.no_legacy.1)
      refine ⟨hsound, hbin, hlegacy, fun _ => ?_, fun schema idCol hschema => ?_⟩
      · have hcontent : (storageCreate st table colDefs).2.content table = st.content table := by
          rw [Storage.content, Storage.tableFile, tablePlace_of_no_legacy hlegacy.2, hview.2,
            Function.update_of_ne (schemaPath_ne_tablePath _ _ _ _).symm, Storage.content,
            htableFile]
        rw [hcontent, hregistry]
        exact h.missing hnone
      · rw [hrefused.2] at hschema
        exact absurd hschema (by simp)
    | some text =>
      have hnested : st.tablePlace table = .legacy → st.schemaPlace table = .legacy := by
        rw [tablePlace_of_no_legacy h.no_legacy.2]
        exact fun hlegacy => absurd hlegacy (by simp)
      obtain ⟨-, hschema', hcontent⟩ := storageCreate_ok h.sound hplain hargs htext hnested
      refine ⟨hsound, hbin, hlegacy, ?_, ?_⟩ <;> rw [hschema', hcontent, hregistry]
      · intro hnone
        cases hold : st.tableSchema table with
        | none =>
          obtain ⟨hempty, htree⟩ := h.missing hold
          rw [hempty]
          exact ⟨rfl, htree⟩
        | some schema =>
          have hsame := hstep hargs.2 schema hold
          rw [htext, Option.bind_some, hnone] at hsame
          exact absurd hsame (by simp)
      · intro schema idCol hschema hidx
        rw [hrebuilt]
        cases hold : st.tableSchema table with
        | none =>
          -- a new table has no rows and no tree
          obtain ⟨hempty, htree⟩ := h.missing hold
          rw [hempty, htree]
          exact ⟨[], [], rfl, .inl rfl, by simp [loadTableRows], intIds_nil idCol, by simp⟩
        | some schema₀ =>
          have hsame := hstep hargs.2 schema₀ hold
          rw [htext, Option.bind_some, hschema] at hsame
          obtain rfl := Option.some.inj hsame
          obtain ⟨file, rows, hfile, hrest⟩ := h.rows schema idCol hold hidx
          rw [hfile]
          exact ⟨file, rows, rfl, hrest⟩
  · have hbad : table = [] ∨ colDefs = [] ∨ CreateFaults.none.mkdir = true := by tauto
    rw [storageCreate, storageCreateWith, if_pos hbad]
    exact h

theorem PointReady.pathCache (h : PointReady table st) {paths : Slots CStr TablePaths}
    (hs : ({ st with pathCache := paths } : Storage).Sound) :
    PointReady table { st with pathCache := paths } :=
  ⟨hs, h.no_bin, h.no_legacy, h.missing, h.rows⟩

/-- **Filling the tree keeps it in step.** -/
theorem PointReady.fill (hplain : PlainName table) (h : PointReady table st) :
    PointReady table (ensureIndex st table) := by
  by_cases hdone : table = [] ∨ table ∈ st.indexRebuilt
  · rw [ensureIndex, if_pos hdone]
    exact h
  obtain ⟨hne, hfresh⟩ := not_or.mp hdone
  obtain ⟨hsound, hfiles⟩ := ensureIndex_table h.sound hplain
  have hsame := sameTable_of_files hfiles table
  refine ⟨hsound, by rw [hfiles, h.no_bin], by rw [hfiles]; exact h.no_legacy, fun hnone => ?_,
    fun schema idCol hschema hidx => ?_⟩
  · rw [hsame.tableSchema] at hnone
    rw [hsame.content, ensureIndex_find hplain.1 (h.sound.coherent table hplain) hne hfresh, hnone]
    exact h.missing hnone
  · rw [hsame.tableSchema] at hschema
    obtain ⟨file, rows, hfile, hline, hload, hids, -⟩ := h.rows schema idCol hschema hidx
    exact ⟨file, rows, hsame.content.trans hfile, hline, hload, hids, fun tree htree =>
      (h.indexes hplain hne hschema hidx hfile hload htree).inStep _⟩

/-- A statement on another table leaves the tree or throws it away. -/
theorem PointReady.other {other : CStr} (hplain : PlainName table) (hother : PlainName other)
    (hne : table ≠ other) (h : PointReady table st) (htouch : Touches other st st')
    (hs : st'.Sound) : PointReady table st' := by
  have hsame := htouch.view hother hplain hne
  have htree : ∀ tree, st'.registry.find table = some tree →
      st.registry.find table = some tree := by
    intro tree hfind
    rcases htouch.trees table hne with hkept | hgone
    · rw [← hkept, hfind]
    · rw [hgone] at hfind
      exact absurd hfind (by simp)
  refine ⟨hs, ?_, ⟨?_, ?_⟩, fun hnone => ?_, fun schema idCol hschema hidx => ?_⟩
  · rw [htouch.files _ (binPath_not_own table other), h.no_bin]
  · rw [htouch.files_of_ne hother hplain hne (ownPath_schema _ table), h.no_legacy.1]
  · rw [htouch.files_of_ne hother hplain hne (ownPath_table _ table), h.no_legacy.2]
  · rw [hsame.tableSchema] at hnone
    obtain ⟨hempty, hgone⟩ := h.missing hnone
    refine ⟨by rw [hsame.content, hempty], ?_⟩
    refine Option.eq_none_iff_forall_ne_some.mpr fun tree hfind => ?_
    rw [htree tree hfind] at hgone
    exact absurd hgone (by simp)
  · rw [hsame.tableSchema] at hschema
    obtain ⟨file, rows, hfile, hline, hload, hids, hstep⟩ := h.rows schema idCol hschema hidx
    refine ⟨file, rows, hsame.content.trans hfile, hline, hload, hids, fun tree hfind => ?_⟩
    obtain ⟨hsound, hkeys, hindexes⟩ := hstep tree (htree tree hfind)
    exact ⟨hsound, hkeys, fun hfilled => hindexes ((htouch.rebuilt table hne).mp hfilled)⟩

end Steps

end MiniSql
