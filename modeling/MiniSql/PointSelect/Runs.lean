import MiniSql.PointSelect.Steps

/-!
# The tree after any run

A statement touches nothing but its own table. A run from an empty directory whose statements keep
the tree of a table in step reaches only states in which the tree answers as a scan does.

## Main definitions

* `ParsedSQL.Plain` — a statement on a table with a plain name.
* `KeepsInStep` — a statement that keeps the tree of a table in step.

## Main results

* `executeStatement_touches` — what a statement touches.
* `PointReady.next` — one step.
* `point_select_of_run` — the answers after any run.
-/

namespace MiniSql
open CText

section Run

variable [CDouble] {table : CStr} {e : Engine} {sql : ParsedSQL}

omit [CDouble] in
/-- A statement whose table has a name that names no other file and fits the caches, and whose
values are C strings. -/
def ParsedSQL.Plain (sql : ParsedSQL) : Prop :=
  PlainName sql.table ∧ (∀ v ∈ sql.values, NulFree v) ∧ ∀ set ∈ sql.sets, NulFree set.value

omit [CDouble] in
instance (sql : ParsedSQL) : Decidable sql.Plain := inferInstanceAs (Decidable (_ ∧ _ ∧ _))

/-- **A statement keeps the tree of a table in step.** A SELECT, a DELETE and what happens to other
tables do so always. -/
def KeepsInStep (table : CStr) (e : Engine) (sql : ParsedSQL) : Prop :=
  sql.table = table → match sql.type with
    | .create => CreateInStep e.storage table sql.colDefs
    | .insert => InsertInStep e.storage table sql.columns sql.values
    | .update => UpdateInStep e.storage table sql
    | _ => True

theorem refreshAfterWrite_sound (hs : e.storage.Sound) (other : CStr) (status : Status) :
    ∃ paths, (refreshAfterWrite e other status).storage = { e.storage with pathCache := paths } ∧
      ({ e.storage with pathCache := paths } : Storage).Sound := by
  obtain ⟨⟨paths, hpaths⟩, -⟩ := @refreshAfterWrite_storage _ e [] (by decide)
    (hs.coherent [] (by decide)) other status
  refine ⟨paths, hpaths, ?_⟩
  rw [← hpaths]
  unfold refreshAfterWrite
  split
  · exact (dictionaryTrieRebuild_sound hs).1
  · exact hs

/-- **A statement touches nothing but its own table**, apart from the paths that the trie is filled
through. -/
theorem executeStatement_touches (hs : e.storage.Sound) (hplain : PlainName sql.table) :
    ∃ st paths, Touches sql.table e.storage st ∧ st.Sound ∧
      (executeStatement e sql).2.storage = { st with pathCache := paths } ∧
      ({ st with pathCache := paths } : Storage).Sound := by
  have hwrite : ∀ {result : Status × Storage}, Touches sql.table e.storage result.2 →
      result.2.Sound → ∃ st paths, Touches sql.table e.storage st ∧ st.Sound ∧
        (executeWrite e sql.table result).2.storage = { st with pathCache := paths } ∧
        ({ st with pathCache := paths } : Storage).Sound := by
    intro result htouch hsound
    obtain ⟨paths, hpaths, hsound'⟩ :=
      @refreshAfterWrite_sound _ { e with storage := result.2 } hsound sql.table result.1
    exact ⟨result.2, paths, htouch, hsound, hpaths, hsound'⟩
  unfold executeStatement
  cases htype : sql.type with
  | create =>
    exact hwrite (touches_storageCreate hs.wf hplain.1 _) (sound_storageCreate hs hplain _)
  | insert =>
    exact hwrite (touches_storageInsert hs.wf hplain.1 _ _) (storageInsert_table hs hplain _ _).1
  | delete =>
    exact hwrite (touches_storageDelete hs.wf hplain.1 sql) (storageDelete_table hs hplain sql).1
  | update =>
    exact hwrite (touches_storageUpdate hs.wf hplain.1 sql) (storageUpdate_table hs hplain sql).1
  | unknown => exact ⟨e.storage, e.storage.pathCache, .refl _ _, hs, rfl, hs⟩
  | select =>
    have hselect : Touches sql.table e.storage (executeSelect e sql).2.storage ∧
        (executeSelect e sql).2.storage.Sound :=
      @executeSelect_keeps _ e sql (fun st => Touches sql.table e.storage st ∧ st.Sound)
        (fun find st hst => ⟨hst.1.trans (touches_selectBy find sql hplain.1),
          (onlyReads_selectBy find sql hplain.1).sound hst.2⟩)
        ⟨touches_ensureIndex hs.wf hplain.1, (ensureIndex_table hs hplain).1⟩
    exact ⟨_, _, hselect.1, hselect.2, rfl, hselect.2⟩

/-- A write on the table and the filling of the trie behind it. -/
theorem PointReady.write {result : Status × Storage} (h : PointReady table result.2)
    (other : CStr) : PointReady table (executeWrite e other result).2.storage := by
  obtain ⟨paths, hpaths, hsound⟩ :=
    @refreshAfterWrite_sound _ { e with storage := result.2 } h.sound other result.1
  unfold executeWrite
  dsimp only
  rw [hpaths]
  exact h.pathCache hsound

/-- **One step.** -/
theorem PointReady.next (hplain : PlainName table) (h : PointReady table e.storage)
    (hsql : sql.Plain) (hkeeps : KeepsInStep table e sql) :
    PointReady table (executeStatement e sql).2.storage := by
  obtain ⟨hname, hvalues, hsets⟩ := hsql
  by_cases heq : sql.table = table
  · unfold KeepsInStep at hkeeps
    replace hkeeps := hkeeps heq
    subst heq
    unfold executeStatement
    cases htype : sql.type with
    | create =>
      rw [htype] at hkeeps
      exact (h.create hplain hkeeps).write sql.table
    | insert =>
      rw [htype] at hkeeps
      exact (h.insert hplain hvalues hkeeps).write sql.table
    | delete => exact (h.delete hplain sql).write sql.table
    | update =>
      rw [htype] at hkeeps
      exact (h.update hplain hsets hkeeps).write sql.table
    | unknown => exact h
    | select =>
      refine executeSelect_keeps (fun find st hst => ?_) (h.fill hplain)
      have hsound := (onlyReads_selectBy find sql hplain.1).sound hst.sound
      obtain ⟨paths, hpaths⟩ := openSelect_snd st sql.table
      rw [selectBy_snd_eq, hpaths] at hsound ⊢
      exact hst.pathCache hsound
  · obtain ⟨st, paths, htouch, hs, hnext, hsound⟩ := executeStatement_touches h.sound hname
    rw [hnext]
    exact (h.other hplain hname (Ne.symm heq) htouch hs).pathCache hsound

omit [CDouble] in
/-- An empty data directory. -/
def noFiles : Path → Option CStr := fun _ => none

omit [CDouble] in
theorem pointReady_start (table : CStr) : PointReady table (.start noFiles) :=
  ⟨sound_start noFiles, rfl, ⟨rfl, rfl⟩, fun _ => ⟨rfl, rfl⟩, fun _ _ hschema => absurd hschema (by
    change none ≠ _
    simp)⟩

/-- `engine_init` creates the dictionary in an empty directory. -/
theorem engineInit_noFiles : engineInit noFiles =
    (executeStatement ⟨.start noFiles, trieCreate, false⟩ dictionaryCreate).2 := rfl

theorem pointReady_engineInit (hplain : PlainName table) :
    PointReady table (engineInit noFiles).storage := by
  rw [engineInit_noFiles]
  refine (pointReady_start table).next hplain (by decide) ?_
  intro _ _ schema hschema
  exact absurd hschema (by
    change none ≠ _
    simp)

omit [CDouble] in
/-- A name that does not fit the registry gets no tree. -/
theorem ensureIndex_long {st : Storage} (hlong : nameMax < table.length)
    (hnone : st.registry.find table = none) :
    (ensureIndex st table).registry.find table = none := by
  have hget : ∀ st : Storage, st.registry.find table = none →
      indexRegistryGetOrCreate st table = (none, st) := by
    intro st hnone
    unfold nameMax at hlong
    unfold indexRegistryGetOrCreate
    rw [hnone]
    exact if_pos (.inr (by omega))
  rw [ensureIndex_eq]
  split
  · exact hnone
  obtain ⟨paths, schemas, hopen⟩ := openTable_snd st table
  rcases hres : openTable st table with ⟨_ | ⟨path, schema⟩, st₁⟩ <;> rw [hres] at hopen <;>
    dsimp only at hopen <;> subst hopen
  · exact hnone
  dsimp only
  cases findSchemaIndex schema "id".toList with
  | none =>
    obtain ⟨rebuilt, hmark⟩ :=
      markRebuilt_snd { st with pathCache := paths, schemaCache := schemas } table
    dsimp only
    rw [hmark]
    exact hnone
  | some idCol =>
    dsimp only
    rw [hget { st with pathCache := paths, schemaCache := schemas } hnone]
    exact hnone

/-- Such a table is never answered through a tree. -/
theorem agrees_of_long (hlong : nameMax < table.length)
    (hnone : e.storage.registry.find table = none) : PointAgrees table e := by
  intro schema idCol _ _ sql clause k htype htable hclause _ rs hrs
  subst htable
  unfold executeStatement at hrs
  rw [htype] at hrs
  have hpoint := executeSelect_point hclause hrs
  have hfind : indexRegistryGet (ensureIndex e.storage sql.table) sql.table = none :=
    ensureIndex_long hlong hnone
  unfold selectPoint at hpoint
  rw [hfind] at hpoint
  exact absurd hpoint (by simp)

theorem noTree_next (hlong : nameMax < table.length) (hs : e.storage.Sound)
    (hnone : e.storage.registry.find table = none) (hsql : sql.Plain) :
    (executeStatement e sql).2.storage.Sound ∧
      (executeStatement e sql).2.storage.registry.find table = none := by
  obtain ⟨st, paths, htouch, -, hnext, hsound⟩ := executeStatement_touches hs hsql.1
  rw [hnext]
  refine ⟨hsound, ?_⟩
  have hne : table ≠ sql.table := by
    intro heq
    rw [heq] at hlong
    exact absurd hsql.1.1 (by omega)
  rcases htouch.trees table hne with hkept | hgone
  · exact hkept.trans hnone
  · exact hgone

/-- **In every state that a run from an empty directory reaches, the answer of the tree to `id = k`
is the answer of a scan**, if every statement of the run has kept the tree of the table in step. -/
theorem point_select_of_run (hslash : '/' ∉ table) {stmts : List ParsedSQL}
    (hplain : ∀ sql ∈ stmts, sql.Plain)
    (hkeeps : Runs.Meets Engine.next (KeepsInStep table) (engineInit noFiles) stmts) {e : Engine}
    (hrun : Runs.run Engine.next (engineInit noFiles) stmts = some e) : PointAgrees table e := by
  have hmeets : Runs.Meets Engine.next (fun e sql => sql.Plain ∧ KeepsInStep table e sql)
      (engineInit noFiles) stmts := hkeeps.imp fun e sql hsql h => ⟨hplain sql hsql, h⟩
  by_cases hshort : table.length ≤ nameMax
  · have hready : PointReady table e.storage :=
      @Runs.invariant Engine ParsedSQL _ _ (fun e => PointReady table e.storage)
        (fun e sql e' hinv hcond hstep => by
          obtain rfl := Option.some.inj hstep
          exact hinv.next ⟨hshort, hslash⟩ hcond.1 hcond.2) _ _ _
        (pointReady_engineInit ⟨hshort, hslash⟩) hmeets hrun
    exact hready.agrees ⟨hshort, hslash⟩
  · have hlong : nameMax < table.length := Nat.lt_of_not_le hshort
    have hstart : (engineInit noFiles).storage.Sound ∧
        (engineInit noFiles).storage.registry.find table = none := by
      rw [engineInit_noFiles]
      exact noTree_next hlong (sound_start noFiles) rfl
        (by decide)
    have hnone : e.storage.Sound ∧ e.storage.registry.find table = none :=
      @Runs.invariant Engine ParsedSQL _ _
        (fun e => e.storage.Sound ∧ e.storage.registry.find table = none)
        (fun e sql e' hinv hcond hstep => by
          obtain rfl := Option.some.inj hstep
          exact noTree_next hlong hinv.1 hinv.2 hcond.1) _ _ _ hstart hmeets hrun
    exact agrees_of_long hlong hnone.2

/-! ## Two runs -/

omit [CDouble] in
instance (idCol : ℕ) (rows : List Row) (ids : List ℤ) : Decidable (HasIds idCol rows ids) :=
  decidable_of_iff (rows.map (rowId idCol) = ids.map some ∧ ids.Nodup ∧ ∀ id ∈ ids, 0 < id)
    ⟨fun h => ⟨h.1, h.2.1, h.2.2⟩, fun h => ⟨h.ids_eq, h.nodup, h.positive⟩⟩

omit [CDouble] in
instance (idCol : ℕ) (rows : List Row) : Decidable (IntIds idCol rows) :=
  decidable_of_iff (HasIds idCol rows (idsOf idCol rows) ∧
      ∀ row ∈ rows, (row[idCol]?).bind parseLongValue = rowId idCol row)
    ⟨fun h => ⟨h.1, h.2⟩, fun h => ⟨h.hasIds, h.read⟩⟩

omit [CDouble] in
instance (st : Storage) (table : CStr) (n : ℕ) : Decidable (st.CountsRows table n) :=
  inferInstanceAs (Decidable (∀ m ∈ st.metaCache.find table, m.nextRowIdx = n))

omit [CDouble] in
instance (st : Storage) (table : CStr) (colDefs : List CStr) :
    Decidable (CreateInStep st table colDefs) :=
  inferInstanceAs (Decidable (_ → ∀ schema ∈ st.tableSchema table, _))

omit [CDouble] in
instance (st : Storage) (table : CStr) (columns values : List CStr) :
    Decidable (InsertInStep st table columns values) :=
  inferInstanceAs (Decidable (∀ schema ∈ st.tableSchema table,
    ∀ idCol ∈ findSchemaIndex schema "id".toList, _ →
      ∀ row ∈ appendedRow st table columns values,
        ∀ rows ∈ loadTableRows ((st.content table).getD []) schema.length,
          (∃ id ∈ (row[idCol]?).bind parseLongValue, _) ∧ _))

instance (st : Storage) (table : CStr) (sql : ParsedSQL) : Decidable (UpdateInStep st table sql) :=
  inferInstanceAs (Decidable (∀ kept ∈ updatedRows st table sql, ∀ schema ∈ st.tableSchema table,
    ∀ idCol ∈ findSchemaIndex schema "id".toList, _ → IntIds idCol kept))

instance (table : CStr) (e : Engine) (sql : ParsedSQL) : Decidable (KeepsInStep table e sql) :=
  have : Decidable (match sql.type with
      | .create => CreateInStep e.storage table sql.colDefs
      | .insert => InsertInStep e.storage table sql.columns sql.values
      | .update => UpdateInStep e.storage table sql
      | _ => True) :=
    match sql.type with
    | .create => inferInstanceAs (Decidable (CreateInStep _ _ _))
    | .insert => inferInstanceAs (Decidable (InsertInStep _ _ _ _))
    | .update => inferInstanceAs (Decidable (UpdateInStep _ _ _))
    | .select | .delete | .unknown => isTrue trivial
  inferInstanceAs (Decidable (_ → _))

omit [CDouble]

/-- `SELECT * FROM t WHERE id = 3`. -/
def selectThree : ParsedSQL :=
  { parsedNew with
    type := .select, table := "t".toList, columns := [['*']],
    conds := [⟨"id".toList, ['='], ['3'], []⟩] }

/-- The tree is filled by a SELECT and filled again by a DELETE behind an INSERT. -/
theorem point_select_after_delete : ∃ e,
    Runs.run (@Engine.next .whole) (@engineInit .whole noFiles)
      [createStatement, insertNamed, selectNames, insertThree, deleteTwo, selectThree] = some e ∧
    @PointAgrees .whole "t".toList e :=
  ⟨_, rfl, @point_select_of_run .whole _ (by decide)
    [createStatement, insertNamed, selectNames, insertThree, deleteTwo, selectThree] (by decide)
    (by decide +kernel) _ rfl⟩

/-- Behind a DELETE, which resets the counter of the rows, an INSERT registers its row under the
number `0`, and the tree answers `id = 3` with the row whose id is `1`. -/
theorem point_select_wrong_row : ∃ e,
    Runs.run (@Engine.next .whole) (@engineInit .whole noFiles)
      [createStatement, insertNamed, selectNames, deleteTwo, insertThree] = some e ∧
    (@executeStatement .whole e selectThree).1 =
      .rows .point ⟨["id".toList, "name".toList], [[['1'], ['c']]]⟩ ∧
    (@storageSelectResult .whole e.storage "t".toList selectThree).1 =
      some ⟨["id".toList, "name".toList], [[['3'], ['d']]]⟩ ∧
    ¬ @PointAgrees .whole "t".toList e := by
  obtain ⟨e, hrun⟩ : ∃ e, Runs.run (@Engine.next .whole) (@engineInit .whole noFiles)
      [createStatement, insertNamed, selectNames, deleteTwo, insertThree] = some e := ⟨_, rfl⟩
  have hpoint : (@executeStatement .whole e selectThree).1 =
      .rows .point ⟨["id".toList, "name".toList], [[['1'], ['c']]]⟩ := by
    obtain rfl := Option.some.inj hrun
    decide +kernel
  have hscan : (@storageSelectResult .whole e.storage "t".toList selectThree).1 =
      some ⟨["id".toList, "name".toList], [[['3'], ['d']]]⟩ := by
    obtain rfl := Option.some.inj hrun
    decide +kernel
  have hschema : e.storage.tableSchema "t".toList = some nameColumns := by
    obtain rfl := Option.some.inj hrun
    decide +kernel
  refine ⟨e, hrun, hpoint, hscan, fun hagrees => ?_⟩
  have hsame := hagrees nameColumns 0 hschema ⟨by decide, by decide⟩ selectThree
    ⟨"id".toList, ['='], ['3'], []⟩ 3 rfl rfl rfl (by decide) _ hpoint
  rw [hscan] at hsame
  exact absurd hsame (by decide)

end Run

end MiniSql
