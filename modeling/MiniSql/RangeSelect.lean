import MiniSql.EngineFiles
import MiniSql.Lib.Runs
import MiniSql.Storage.Binary
import MiniSql.Storage.Calls

/-!
# Range searches and the `.bin` file

`SELECT … WHERE id BETWEEN a AND b` takes its rows from the `.bin` file of the table, where there
is one. INSERT, UPDATE and DELETE write the CSV file only. The SELECT returns what it would return
without the `.bin` file as long as the last row with each id of the range is the same in both.

## Main definitions

* `RangeReady` — what the statements keep of a table that has not been searched yet.
* `Engine.write` — a successful statement that writes rows.
* `SameInRange` — the condition on the state at the SELECT.

## Main results

* `rangeRows_eq` — the growing array ends with the row numbers of the range.
* `executeSelect_range` — the answer to a range search.
* `select_range_of_run` — the answer after any run is the answer without the `.bin` file.
-/

namespace MiniSql
open CText

/-! ## The row numbers of a range -/

/-- The array grows until all rows fit, or until it cannot grow any more. -/
theorem rangeRows_of_take {tree : BPTree} {from' to' : ℤ} {all : List ℤ}
    (hrange : ∀ capacity, capacity ≤ 2 ^ 30 →
      bptreeRange tree from' to' capacity = all.take capacity) :
    rangeRows tree from' to' 28 16 = if all.length < 2 ^ 30 then some all else none := by
  -- `n` is how often the array can still grow
  have hgrow : ∀ n capacity, capacity * 2 ^ n = 2 ^ 30 → rangeRows tree from' to' (n + 2) capacity =
      if all.length < 2 ^ 30 then some all else none := by
    intro n
    induction n with
    | zero =>
      intro capacity hcap
      obtain rfl : capacity = 2 ^ 30 := by omega
      rw [rangeRows, hrange _ le_rfl, List.length_take]
      by_cases hlen : all.length < 2 ^ 30
      · rw [if_pos (by omega), if_pos hlen, List.take_of_length_le (by omega)]
      · rw [if_neg (by omega), if_neg hlen, if_pos (by decide)]
    | succ n ih =>
      intro capacity hcap
      have hpow : capacity * 2 ^ (n + 1) = capacity * 2 * 2 ^ n := by ring
      have hpos : 1 ≤ 2 ^ n := Nat.one_le_two_pow
      have hsmall : capacity * 2 ≤ 2 ^ 30 := by
        calc capacity * 2 = capacity * 2 * 1 := by ring
          _ ≤ capacity * 2 * 2 ^ n := Nat.mul_le_mul_left _ hpos
          _ = 2 ^ 30 := by omega
      rw [rangeRows, hrange _ (by omega), List.length_take]
      by_cases hlen : all.length < capacity
      · rw [if_pos (by omega), if_pos (by omega), List.take_of_length_le (by omega)]
      · rw [if_neg (by omega), if_neg (by simp only [intMax]; omega)]
        exact ih (capacity * 2) (by omega)
  exact hgrow 26 16 (by decide)

/-- **The array grows until the rows of the range fit, or until it cannot grow any more.** -/
theorem rangeRows_eq {tree : BPTree} (h : tree.Sound) {from' to' : ℤ} (hle : from' ≤ to') :
    rangeRows tree from' to' 28 16 =
      if (hits tree from' to').length < 2 ^ 30 then some (hits tree from' to') else none :=
  rangeRows_of_take fun capacity _ => bptreeRange_eq h hle capacity

/-- The same for a tree of any shape. -/
theorem rangeRows_eq_none_iff (tree : BPTree) (from' to' : ℤ) :
    rangeRows tree from' to' 28 16 = none ↔
      2 ^ 30 ≤ (bptreeRange tree from' to' (2 ^ 30)).length := by
  rw [rangeRows_of_take fun capacity hle => bptreeRange_take tree hle]
  by_cases hlen : (bptreeRange tree from' to' (2 ^ 30)).length < 2 ^ 30
  · rw [if_pos hlen]
    exact iff_of_false (by simp) (not_le.mpr hlen)
  · rw [if_neg hlen]
    exact iff_of_true rfl (not_lt.mp hlen)

theorem parseBetweenBounds_le {clause : WhereClause} {from' to' : ℤ}
    (h : parseBetweenBounds clause = some (from', to')) : from' ≤ to' := by
  unfold parseBetweenBounds at h
  split at h
  · split at h <;>
    · obtain ⟨rfl, rfl⟩ := Prod.mk.inj (Option.some.inj h)
      omega
  · exact absurd h (by simp)

example : parseBetweenBounds ⟨"id".toList, "BETWEEN".toList, ['7'], ['-', '3']⟩ = some (-3, 7) := by
  decide +kernel

/-! ## The answer -/

section Answer

variable [CDouble]

/-- The answer to a range search, from the tree of the table. -/
def rangeAnswer (st : Storage) (sql : ParsedSQL) (tree : Option BPTree) (bounds : Option (ℤ × ℤ)) :
    Outcome :=
  match tree, bounds with
  | some tree, some (from', to') =>
    match rangeRows tree from' to' 28 16 with
    | none => .status false
    | some indices =>
      match (st.tableSchema sql.table).bind fun schema =>
        (fetchRows st sql.table (st.tableFile sql.table) schema indices).bind (buildRowset sql schema) with
      | some rs => .rows .range rs
      | none => scanAnswer st sql
  | _, _ => scanAnswer st sql

omit [CDouble] in
theorem shouldUseTriePrefix_of_range {sql : ParsedSQL} {clause : WhereClause}
    (h : shouldUseIdRange sql = some clause) : shouldUseTriePrefix sql = none := by
  unfold shouldUseIdRange at h
  unfold shouldUseTriePrefix
  split at h
  · split at h
    · rename_i hop
      dsimp only
      rw [if_neg]
      rintro ⟨-, -, hlike, -⟩
      rw [hlike] at hop
      exact absurd hop.2 (by decide)
    · exact absurd h (by simp)
  · exact absurd h (by simp)

variable {e : Engine} {sql : ParsedSQL} {clause : WhereClause}

/-- **What a range search answers.** -/
theorem executeSelect_range (hclause : shouldUseIdRange sql = some clause)
    (hshort : sql.table.length ≤ nameMax) (hne : sql.table ≠ [])
    (hc : e.storage.Coherent sql.table) :
    (executeSelect e sql).1 = rangeAnswer e.storage sql
      ((ensureIndex e.storage sql.table).registry.find sql.table) (parseBetweenBounds clause) := by
  obtain ⟨hfiles, hc'⟩ := ensureIndex_view hshort hc
  have hsame : SameTable sql.table e.storage (ensureIndex e.storage sql.table) :=
    sameTable_of_own fun path _ => by rw [hfiles]
  have hscan := scanAnswer_congr hsame
  have hfetchRows : ∀ schema indices, fetchRows (ensureIndex e.storage sql.table) sql.table
      ((ensureIndex e.storage sql.table).tableFile sql.table) schema indices =
      fetchRows e.storage sql.table (e.storage.tableFile sql.table) schema indices := by
    intro schema indices
    rw [hsame.tableFile, fetchRows, hfiles, fetchRows]
  have hrest : ∀ paths, ({ ensureIndex e.storage sql.table with pathCache := paths } :
      Storage).Coherent sql.table →
        (selectUnindexed e { ensureIndex e.storage sql.table with pathCache := paths } sql).1 =
          scanAnswer e.storage sql := by
    intro paths hpaths
    rw [selectUnindexed_scan (shouldUseTriePrefix_of_range hclause) hshort hne hpaths, ← hscan]
    rfl
  unfold executeSelect rangeAnswer selectRange
  rw [hclause]
  dsimp only
  cases hbounds : parseBetweenBounds clause with
  | none =>
    cases indexRegistryGet (ensureIndex e.storage sql.table) sql.table <;>
    cases (ensureIndex e.storage sql.table).registry.find sql.table <;> exact hrest _ hc'
  | some bounds =>
    cases htree : (ensureIndex e.storage sql.table).registry.find sql.table with
    | none =>
      rw [indexRegistryGet, htree]
      exact hrest _ hc'
    | some tree =>
      rw [indexRegistryGet, htree]
      dsimp only
      cases rangeRows tree bounds.1 bounds.2 28 16 with
      | none => rfl
      | some indices =>
        obtain ⟨paths, hselect, hc''⟩ := @selectBy_view (ensureIndex e.storage sql.table) sql.table _
          (fun st path schema => fetchRows st sql.table path schema indices) (fun _ => rfl) sql hshort
          hne hc'
        dsimp only
        rw [storageSelectResultByRowIndices, hselect]
        simp only [hfetchRows, hsame.tableSchema]
        cases (e.storage.tableSchema sql.table).bind fun schema =>
          (fetchRows e.storage sql.table (e.storage.tableFile sql.table) schema indices).bind
            (buildRowset sql schema) with
        | some rs => rfl
        | none => exact hrest _ hc''

/-- A SELECT needs the name of a table. -/
theorem executeSelect_nil (hclause : shouldUseIdRange sql = some clause) (hnil : sql.table = []) :
    (executeSelect e sql).1 = .status false := by
  have hselect : ∀ (find : Storage → Path → List ColDef → Option (List Row)) (st : Storage),
      selectBy find st sql.table sql = (none, st) := by
    intro find st
    rw [selectBy, openSelect, if_pos hnil]
  have hrest : ∀ st : Storage, (selectUnindexed e st sql).1 = .status false := by
    intro st
    unfold selectUnindexed storageSelectResult
    rw [shouldUseTriePrefix_of_range hclause]
    dsimp only
    rw [hselect]
  unfold executeSelect selectRange storageSelectResultByRowIndices
  rw [hclause]
  dsimp only
  cases hbounds : parseBetweenBounds clause with
  | none =>
    cases indexRegistryGet (ensureIndex e.storage sql.table) sql.table <;> exact hrest _
  | some bounds =>
    cases htree : indexRegistryGet (ensureIndex e.storage sql.table) sql.table with
    | none => exact hrest _
    | some tree =>
      dsimp only
      cases rangeRows tree bounds.1 bounds.2 28 16 with
      | none => rfl
      | some indices =>
        dsimp only
        rw [hselect]
        exact hrest _

end Answer

/-! ## What the statements keep -/

/-- The table has not been searched since the process started; its rows can be read, and its tree
knows no id that none of them has. -/
structure RangeReady (table : CStr) (st : Storage) : Prop where
  coherent : st.Coherent table
  counters : st.CountersOk table
  fresh : table ∉ st.indexRebuilt
  rows : ∃ schema file rows, st.tableSchema table = some schema ∧ st.content table = some file ∧
    loadTableRows file schema.length = some rows ∧ match findSchemaIndex schema "id".toList with
    | none => st.registry.find table = none
    | some idCol => ∀ tree, st.registry.find table = some tree →
        tree.Sound ∧ ∀ entry ∈ tree.toList, ∃ row ∈ rows, rowId idCol row = some entry.1

/-- The state of the table before the first statement: its rows can be read. -/
def Readable (table : CStr) (st : Storage) : Prop :=
  ∃ schema file rows, st.tableSchema table = some schema ∧ st.content table = some file ∧
    loadTableRows file schema.length = some rows

section Keep

variable {table : CStr} {st st' : Storage}

/-- The paths in the cache do not matter. -/
theorem RangeReady.pathCache (h : RangeReady table st) {paths : Slots CStr TablePaths}
    (hc : ({ st with pathCache := paths } : Storage).Coherent table) :
    RangeReady table { st with pathCache := paths } :=
  ⟨hc, h.counters, h.fresh, h.rows⟩

/-- The ids that a filled tree knows are ids of the rows or were there before. -/
theorem mem_insertAll {tree : BPTree} (hwf : tree.Wf) (pairs : List (ℤ × ℤ)) {entry : ℤ × ℤ}
    (h : entry ∈ (bptreeInsertAll tree pairs).toList) :
    (∃ v, (entry.1, v) ∈ pairs) ∨ entry ∈ tree.toList := by
  have hsorted : SortedAssoc.Sorted (bptreeInsertAll tree pairs).toList :=
    (wf_bptreeInsertAll hwf pairs).ordered.sorted
  have hlookup := (SortedAssoc.lookup_eq_some_iff hsorted).mpr h
  rw [lookup_bptreeInsertAll hwf] at hlookup
  rcases Option.or_eq_some_iff.mp hlookup with hlast | ⟨-, hold⟩
  · have hmem := List.lookup_eq_some_iff.mp hlast
    obtain ⟨l, r, heq, -⟩ := hmem
    refine .inl ⟨entry.2, List.mem_reverse.mp ?_⟩
    rw [heq]
    simp
  · have hbefore : SortedAssoc.Sorted tree.toList := hwf.ordered.sorted
    exact .inr ((SortedAssoc.lookup_eq_some_iff hbefore).mp hold)

theorem mem_numbered {α : Type*} {key : α → Option ℤ} {xs : List α} {n : ℕ} {id v : ℤ}
    (h : (id, v) ∈ numbered key xs n) : ∃ x ∈ xs, key x = some id := by
  induction xs generalizing n with
  | nil => exact absurd h (by simp [numbered])
  | cons x xs ih =>
    rw [numbered] at h
    cases hx : key x with
    | none =>
      rw [hx] at h
      obtain ⟨y, hy, hkey⟩ := ih h
      exact ⟨y, by simp [hy], hkey⟩
    | some i =>
      rw [hx] at h
      rcases List.mem_cons.mp h with heq | h
      · exact ⟨x, by simp, by rw [hx, (Prod.mk.inj heq).1]⟩
      · obtain ⟨y, hy, hkey⟩ := ih h
        exact ⟨y, by simp [hy], hkey⟩

/-- An INSERT behind a complete last line. -/
theorem RangeReady.insert (hshort : table.length ≤ nameMax) (h : RangeReady table st)
    {columns values : List CStr} (hnul : ∀ v ∈ values, NulFree v)
    (hline : ∀ file, st.content table = some file → EndsLine file)
    (hexec : storageInsert st table columns values = (.ok (), st')) : RangeReady table st' := by
  obtain ⟨schema, file, rows, hschema, hfile, hload, htree⟩ := h.rows
  obtain ⟨schema', row, hschema', hrow, hrebuilt, hcount, hregister⟩ :=
    storageInsert_index hshort h.coherent h.counters hexec
  obtain rfl := Option.some.inj (hschema.symm.trans hschema')
  obtain ⟨paths, schemas, hc, hwrites, hcontent, -⟩ :=
    storageInsert_view hshort h.coherent columns values
  rw [hexec] at hwrites hcontent
  have happend : appendedRow st table columns values = some row := by
    unfold storageInsert at hexec
    split at hexec
    · exact absurd (Prod.mk.inj hexec).1 (by simp)
    · rename_i hargs
      rw [appendedRow, if_neg hargs, hschema, Option.bind_some, hrow]
  have hpos := tableSchema_ne_nil hschema
  have hsame := hwrites.tableSchema_eq
  have hcontent' : st'.content table = some (file ++ writeCsvRow row) := by
    rw [Storage.content, hwrites.tableFile_eq]
    rw [happend, hfile] at hcontent
    exact hcontent
  have hload' := loadTableRows_append ((hline file hfile).terminated _) hload hpos
    (rowOk_insertedRow hnul hrow)
  refine ⟨hwrites.coherent hc, hcount, by rw [hrebuilt]; exact h.fresh,
    schema, _, _, hsame.trans hschema, hcontent', hload', ?_⟩
  unfold Registers at hregister
  cases hidx : findSchemaIndex schema "id".toList with
  | none =>
    rw [hidx] at htree hregister
    dsimp only at htree hregister ⊢
    rw [hregister]
    exact htree
  | some idCol =>
    rw [hidx] at htree hregister
    obtain ⟨id, rowIdx, hid, hregister⟩ := hregister
    intro tree' htree'
    have hbase : ((st.registry.find table).getD emptyTree).Sound ∧
        ∀ entry ∈ ((st.registry.find table).getD emptyTree).toList,
          ∃ row ∈ rows, rowId idCol row = some entry.1 := by
      cases hfind : st.registry.find table with
      | none => exact ⟨sound_emptyTree, by simp [emptyTree, BPTree.toList, Node.toList, leaves]⟩
      | some tree => exact htree tree hfind
    obtain rfl := hregister tree' htree'
    refine ⟨hbase.1.bptreeInsert id rowIdx, fun entry hentry => ?_⟩
    rw [(wf_bptreeInsert hbase.1.wf id rowIdx).2] at hentry
    rcases SortedAssoc.mem_insert hentry with rfl | hold
    · exact ⟨row, by simp, hid⟩
    · obtain ⟨row', hrow', hid'⟩ := hbase.2 entry hold
      exact ⟨row', by simp [hrow'], hid'⟩

/-- A DELETE or an UPDATE. -/
theorem RangeReady.rewrite (hshort : table.length ≤ nameMax) (h : RangeReady table st)
    {plan : List ColDef → Option RowPlan} (hplan : KeepsRows plan)
    (hexec : rewriteTable .none st table plan = (.ok (), st')) : RangeReady table st' := by
  obtain ⟨schema, file, rows, hschema, hfile, hload, -⟩ := h.rows
  obtain ⟨schema', hschema', hrebuilt, hcount, hregistry⟩ :=
    rewriteTable_index hshort h.coherent h.counters hexec
  obtain rfl := Option.some.inj (hschema.symm.trans hschema')
  obtain ⟨paths, hc, hwrites, hresult⟩ := rewriteTable_view hshort h.coherent plan
  rw [hexec] at hwrites hresult
  have hpos := tableSchema_ne_nil hschema
  cases hkept : rewrittenRows st table plan with
  | none =>
    rw [hkept] at hresult
    exact absurd hresult.1 (by simp)
  | some kept =>
    rw [hkept] at hresult
    obtain ⟨rowPlan, hrowPlan, hrows⟩ := rewrittenRows_eq_some hschema hfile hload hkept
    have hok := hplan hrowPlan (rowOk_of_loadTableRows hload) hrows
    have hfile' : st'.files (st.tableFile table) = some (kept.flatMap writeCsvRow) := hresult.2
    have hcontent : st'.content table = some (kept.flatMap writeCsvRow) := by
      rw [Storage.content, hwrites.tableFile_eq]
      exact hfile'
    have hload' := loadTableRows_flatMap hpos hok
    refine ⟨hwrites.coherent hc, hcount, by rw [hrebuilt]; exact h.fresh,
      schema, _, _, hwrites.tableSchema_eq.trans hschema, hcontent, hload', ?_⟩
    cases hidx : findSchemaIndex schema "id".toList with
    | none =>
      rw [hidx] at hregistry
      dsimp only at hregistry ⊢
      rw [hregistry]
      obtain ⟨schema', file', rows', hschema', -, -, htree⟩ := h.rows
      obtain rfl := Option.some.inj (hschema.symm.trans hschema')
      rw [hidx] at htree
      exact htree
    | some idCol =>
      rw [hidx] at hregistry
      intro tree htree
      rw [hregistry tree htree, indexLoop_eq]
      refine ⟨sound_bptreeInsertAll sound_emptyTree _, fun entry hentry => ?_⟩
      rcases mem_insertAll sound_emptyTree.wf _ hentry with ⟨v, hv⟩ | hempty
      · have hrecords : st'.records (st.tableFile table) =
            (csvRecords (kept.flatMap writeCsvRow)).1 := by rw [Storage.records, hfile']
        rw [hrecords, numbered_records (loadTableRows_eq_some.mp hload').2] at hv
        obtain ⟨row, hrow, hid⟩ := mem_numbered hv
        exact ⟨row, hrow, (Option.filter_eq_some_iff.mp hid).1⟩
      · exact absurd hempty (by simp [emptyTree, BPTree.toList, Node.toList, leaves])

end Keep

/-! ## Runs -/

section Run

variable [CDouble]

/-- An INSERT, an UPDATE or a DELETE on the table. -/
def ParsedSQL.Writes (table : CStr) (sql : ParsedSQL) : Prop :=
  (sql.type = .insert ∨ sql.type = .update ∨ sql.type = .delete) ∧ sql.table = table ∧
    (∀ v ∈ sql.values, NulFree v) ∧ ∀ set ∈ sql.sets, NulFree set.value

omit [CDouble] in
instance (table : CStr) (sql : ParsedSQL) : Decidable (sql.Writes table) :=
  inferInstanceAs (Decidable (_ ∧ _ ∧ _ ∧ _))

/-- The engine after a statement that was successful. -/
def Engine.write (e : Engine) (sql : ParsedSQL) : Option Engine :=
  if (executeStatement e sql).1.ok then some (executeStatement e sql).2 else none

/-- An INSERT finds the file of the table empty or at the end of a line. -/
def AppendsLine (table : CStr) (e : Engine) (sql : ParsedSQL) : Prop :=
  sql.type = .insert → ∀ file ∈ e.storage.content table, EndsLine file

/-- One step. -/
theorem RangeReady.write {table : CStr} (hshort : table.length ≤ nameMax) {e e' : Engine}
    {sql : ParsedSQL} (h : RangeReady table e.storage) (hsql : sql.Writes table)
    (hline : AppendsLine table e sql) (hstep : e.write sql = some e') :
    RangeReady table e'.storage := by
  obtain ⟨htype, htable, hvalues, hsets⟩ := hsql
  unfold Engine.write at hstep
  split at hstep
  · rename_i hok
    obtain rfl := Option.some.inj hstep
    -- the storage after the statement, then the trie
    have hwrite : ∀ result : Status × Storage, (executeWrite e table result).1.ok = true →
        (∀ st', result = (.ok (), st') → RangeReady table st') →
          RangeReady table (executeWrite e table result).2.storage := by
      intro result hres hready
      obtain ⟨status, st'⟩ := result
      rcases status with ⟨_ | _⟩ | ⟨⟩
      · exact absurd hres (by simp [executeWrite, Outcome.ofStatus, Outcome.ok])
      · exact absurd hres (by simp [executeWrite, Outcome.ofStatus, Outcome.ok])
      · have hst' := hready st' rfl
        obtain ⟨⟨paths, hpaths⟩, hc⟩ := @refreshAfterWrite_storage _ { e with storage := st' } table
          hshort hst'.coherent table (.ok ())
        rw [hpaths] at hc
        unfold executeWrite
        dsimp only
        rw [hpaths]
        exact hst'.pathCache hc
    unfold executeStatement at hok ⊢
    rcases htype with htype | htype | htype <;> rw [htype] at hok ⊢ <;> dsimp only at hok ⊢ <;>
      rw [htable] at hok ⊢
    · exact hwrite _ hok fun st' heq =>
        h.insert hshort hvalues (fun file hfile => hline htype file hfile) heq
    · refine hwrite _ hok fun st' heq => ?_
      unfold storageUpdate storageUpdateWith at heq
      split at heq
      · exact h.rewrite hshort (keepsRows_updatePlan hsets) heq
      · exact absurd (Prod.mk.inj heq).1 (by simp)
    · refine hwrite _ hok fun st' heq => ?_
      unfold storageDelete storageDeleteWith at heq
      split at heq
      · exact h.rewrite hshort (keepsRows_deletePlan sql) heq
      · exact absurd (Prod.mk.inj heq).1 (by simp)
  · exact absurd hstep (by simp)

/-- After `engine_init` no table has been searched. -/
theorem rangeReady_engineInit {files : Path → Option CStr} {table : CStr}
    (hshort : table.length ≤ nameMax) (h : Readable table (engineInit files).storage) :
    RangeReady table (engineInit files).storage := by
  obtain ⟨files', paths, hstorage, hc⟩ := engineInit_storage files
  obtain ⟨schema, file, rows, hschema, hfile, hload⟩ := h
  have hnone : (engineInit files).storage.registry.find table = none := by rw [hstorage]; rfl
  refine ⟨hc table hshort, ?_, ?_, schema, file, rows, hschema, hfile, hload, ?_⟩
  · rw [hstorage]
    intro m hm
    exact absurd hm (by simp [Storage.start])
  · rw [hstorage]
    simp [Storage.start]
  · rw [hnone]
    split
    · rfl
    · simp

/-! ## The same answer without the file -/

/-- The `.bin` file has the same last row with each id of the range as the CSV file, and the tree
of the table, as far as INSERTs have filled it, has no id in the range that is not positive. -/
def SameInRange (st : Storage) (table : CStr) (from' to' : ℤ) : Prop :=
  (∀ schema idCol rows bin, st.tableSchema table = some schema →
    findSchemaIndex schema "id".toList = some idCol →
    (st.content table).bind (loadTableRows · schema.length) = some rows →
    st.files (binPath table) = some bin → SameLast schema idCol rows bin from' to') ∧
  ∀ tree, st.registry.find table = some tree →
    ∀ entry ∈ tree.toList, from' ≤ entry.1 → entry.1 ≤ to' → 0 < entry.1

omit [CDouble] in
theorem sameTable_setFile {b : Path} (hb : Foreign b) (x : Option CStr) (st : Storage)
    (table : CStr) : SameTable table st (st.setFile b x) := by
  refine sameTable_of_own fun path hown => setFile_files_of_ne x st ?_
  obtain ⟨place, rfl | rfl | rfl⟩ := hown
  · exact (hb place table).1
  · exact (hb place table).2.1
  · exact (hb place table).2.2

omit [CDouble] in
theorem coherent_setFile {b : Path} (hb : Foreign b) (x : Option CStr) {st : Storage} {table : CStr}
    (hc : st.Coherent table) : (st.setFile b x).Coherent table := by
  have hschema : (st.setFile b x).schemaPlace table = st.schemaPlace table := by
    unfold Storage.schemaPlace
    rw [(pathExists_setFile hb x st _ _).1, (pathExists_setFile hb x st _ _).1]
  have htable : (st.setFile b x).tablePlace table = st.tablePlace table := by
    unfold Storage.tablePlace
    rw [(pathExists_setFile hb x st _ _).1, (pathExists_setFile hb x st _ _).2,
      (pathExists_setFile hb x st _ _).2]
  refine ⟨?_, ?_, fun place schema h => ?_, fun place h => hc.handle place ⟨h.1, ?_⟩⟩
  · rw [hschema]
    exact hc.schemaPlace
  · rw [htable]
    exact hc.tablePlace
  · rw [loadSchema_setFile hb]
    exact hc.schema place schema h
  · rw [← setFile_files_of_ne x st (hb place table).2.1]
    exact h.2

theorem scanAnswer_setFile {b : Path} (hb : Foreign b) (x : Option CStr) (st : Storage)
    (sql : ParsedSQL) : scanAnswer (st.setFile b x) sql = scanAnswer st sql :=
  scanAnswer_congr (sameTable_setFile hb x st sql.table)

/-! The two sources of the rows. -/

section Sources

variable {st : Storage} {table : CStr} {schema : List ColDef} {idCol : ℕ} {file : CStr}
variable {rows : List Row} {bin : CStr}

theorem fetchRows_csv (hbin : st.files (binPath table) = none)
    (hfile : st.files (st.tableFile table) = some file)
    (hload : loadTableRows file schema.length = some rows) (indices : List ℤ) :
    fetchRows st table (st.tableFile table) schema indices = some (pickRows rows indices) := by
  rw [fetchRows, hbin, hfile, Option.bind_some, hload]
  simp

theorem fetchRows_bin (hshort : table.length ≤ nameMax)
    (hbin : st.files (binPath table) = some bin) (path : Path) (indices : List ℤ) :
    fetchRows st table path schema indices = some (loadBinaryRowsByIndices schema bin indices) := by
  rw [fetchRows, fitsPath_binPath hshort, if_pos rfl, hbin]

omit [CDouble] in
theorem fillPairs_csv (hbin : st.files (binPath table) = none)
    (hfile : st.files (st.tableFile table) = some file)
    (hload : loadTableRows file schema.length = some rows) (tree : BPTree) :
    bptreeInsertAll tree (fillPairs st table schema idCol) = filled tree (rowId idCol) rows := by
  rw [fillPairs, hbin, Storage.records, hfile, filled]
  exact congrArg _ (numbered_records (loadTableRows_eq_some.mp hload).2 0)

omit [CDouble] in
theorem fillPairs_bin (hbin : st.files (binPath table) = some bin) (tree : BPTree) :
    bptreeInsertAll tree (fillPairs st table schema idCol) =
      filled tree (binId (binRowSize (schema.take idCol))) (binRows (binRowSize schema) bin) := by
  rw [fillPairs, hbin, positiveBinId_eq, filled]

omit [CDouble] in
theorem sound_filled {α : Type*} {tree : BPTree} (h : tree.Sound) (key : α → Option ℤ) (rows : List α) :
    (filled tree key rows).Sound := sound_bptreeInsertAll h _

end Sources

omit [CDouble] in
/-- The tree that a SELECT fills knows ids of rows only. -/
theorem RangeReady.base {table : CStr} {st : Storage} (h : RangeReady table st)
    {schema : List ColDef} {file : CStr} {rows : List Row} {idCol : ℕ}
    (hschema : st.tableSchema table = some schema) (hfile : st.content table = some file)
    (hload : loadTableRows file schema.length = some rows)
    (hidx : findSchemaIndex schema "id".toList = some idCol) {tree : BPTree} {st₁ : Storage}
    (hget : indexRegistryGetOrCreate st table = (some tree, st₁)) :
    tree.Sound ∧ ∀ entry ∈ tree.toList,
      st.registry.find table = some tree ∧ ∃ row ∈ rows, rowId idCol row = some entry.1 := by
  obtain ⟨schema', file', rows', hschema', hfile', hload', htree⟩ := h.rows
  obtain rfl := Option.some.inj (hschema.symm.trans hschema')
  obtain rfl := Option.some.inj (hfile.symm.trans hfile')
  obtain rfl := Option.some.inj (hload.symm.trans hload')
  rw [hidx] at htree
  obtain ⟨-, hbase⟩ := indexRegistryGetOrCreate_find hget
  have heq := hbase tree rfl
  cases hreg : st.registry.find table with
  | none =>
    rw [hreg] at heq
    subst heq
    exact ⟨sound_emptyTree, by simp [emptyTree, BPTree.toList, Node.toList, leaves]⟩
  | some tree' =>
    rw [hreg, Option.getD_some] at heq
    subst heq
    exact ⟨(htree tree hreg).1, fun entry hentry => ⟨rfl, (htree tree hreg).2 entry hentry⟩⟩

/-- **A range search gives what it gives without the `.bin` file.** -/
theorem executeSelect_setFile {e : Engine} {sql : ParsedSQL} {clause : WhereClause}
    (hshort : sql.table.length ≤ nameMax) (h : RangeReady sql.table e.storage)
    (hclause : shouldUseIdRange sql = some clause)
    (hsame : ∀ from' to', parseBetweenBounds clause = some (from', to') →
      SameInRange e.storage sql.table from' to') :
    (executeSelect (e.setFile (binPath sql.table) none) sql).1 = (executeSelect e sql).1 := by
  by_cases hne : sql.table = []
  · rw [executeSelect_nil hclause hne, executeSelect_nil hclause hne]
  have hb := foreign_binPath sql.table
  cases hbin : e.storage.files (binPath sql.table) with
  | none =>
    have hkeep : e.storage.setFile (binPath sql.table) none = e.storage := by
      rw [Storage.setFile, ← hbin, Function.update_eq_self]
    rw [Engine.setFile, hkeep]
  | some bin =>
    have hview := sameTable_setFile hb none e.storage sql.table
    have hc' := coherent_setFile hb none h.coherent
    obtain ⟨schema, file, rows, hschema, hfile, hload, htree⟩ := h.rows
    -- both answers, from the same tree before it is filled
    rw [executeSelect_range hclause hshort hne h.coherent,
      executeSelect_range (e := e.setFile (binPath sql.table) none) hclause hshort hne hc',
      ensureIndex_find hshort h.coherent hne h.fresh]
    change rangeAnswer (e.storage.setFile (binPath sql.table) none) sql
      ((ensureIndex (e.storage.setFile (binPath sql.table) none) sql.table).registry.find sql.table)
      (parseBetweenBounds clause) = _
    rw [ensureIndex_find hshort hc' hne h.fresh, hview.tableSchema, hschema, Option.bind_some,
      indexRegistryGetOrCreate_setFile]
    have hscan := scanAnswer_setFile hb none e.storage sql
    cases hidx : findSchemaIndex schema "id".toList with
    | none =>
      rw [hidx] at htree
      dsimp only [Option.map_none, Storage.setFile_registry] at htree ⊢
      rw [htree]
      exact hscan
    | some idCol =>
      dsimp only [Option.map_some]
      rcases hget : indexRegistryGetOrCreate e.storage sql.table with ⟨_ | tree, st₁⟩
      · exact hscan
      obtain ⟨hsound, hbase⟩ := h.base hschema hfile hload hidx hget
      have hbin' : (e.storage.setFile (binPath sql.table) none).files (binPath sql.table) = none :=
        Function.update_self ..
      have hfile' : (e.storage.setFile (binPath sql.table) none).files
          ((e.storage.setFile (binPath sql.table) none).tableFile sql.table) = some file := by
        have hne' : binPath sql.table ≠ e.storage.tableFile sql.table := (hb _ _).2.1
        rw [hview.tableFile, setFile_files_of_ne none e.storage hne']
        exact hfile
      dsimp only [Option.map_some]
      rw [fillPairs_csv hbin' hfile' hload, fillPairs_bin hbin]
      unfold rangeAnswer
      cases hbounds : parseBetweenBounds clause with
      | none => exact hscan
      | some bounds =>
        obtain ⟨from', to'⟩ := bounds
        obtain ⟨hlast, hpositive⟩ := hsame from' to' hbounds
        have hle := parseBetweenBounds_le hbounds
        have hrange := hlast schema idCol rows bin hschema hidx
          (by rw [hfile, Option.bind_some]; exact hload) hbin
        have hold : ∀ entry ∈ tree.toList, from' ≤ entry.1 → entry.1 ≤ to' →
            0 < entry.1 ∧ ∃ row ∈ rows, rowId idCol row = some entry.1 :=
          fun entry hentry hfrom hto =>
            ⟨hpositive tree (hbase entry hentry).1 entry hentry hfrom hto, (hbase entry hentry).2⟩
        dsimp only
        rw [rangeRows_eq (sound_filled hsound _ _) hle, rangeRows_eq (sound_filled hsound _ _) hle,
          length_hits hsound.wf hrange hold]
        by_cases hfew : (hits (filled tree (binId (binRowSize (schema.take idCol)))
            (binRows (binRowSize schema) bin)) from' to').length < 2 ^ 30
        · rw [if_pos hfew, if_pos hfew]
          simp only [hview.tableSchema, hschema, hscan, Option.bind_some,
            fetchRows_csv hbin' hfile' hload, fetchRows_bin hshort hbin,
            pickRows_hits hsound.wf hrange hold (binRowSize_pos (tableSchema_ne_nil hschema))]
        · rw [if_neg hfew, if_neg hfew]

/-- Statements that write do not see the file. -/
theorem run_setFile {b : Path} (hb : Foreign b) (x : Option CStr) {table : CStr}
    {stmts : List ParsedSQL} (hwrites : ∀ sql ∈ stmts, sql.Writes table) :
    ∀ {e e' : Engine}, Runs.run Engine.write e stmts = some e' →
      Runs.run Engine.write (e.setFile b x) stmts = some (e'.setFile b x) := by
  induction stmts with
  | nil =>
    intro e e' hrun
    obtain rfl : e = e' := by simpa [Runs.run] using hrun
    rfl
  | cons sql stmts ih =>
    intro e e'' hrun
    obtain ⟨e', hstep, hrest⟩ := Runs.run_cons.mp hrun
    refine Runs.run_cons.mpr ⟨e'.setFile b x, ?_, ih (fun s hs => hwrites s (by simp [hs])) hrest⟩
    have htype : sql.type ≠ .select := by
      rcases (hwrites sql (by simp)).1 with h | h | h <;> rw [h] <;> decide
    unfold Engine.write at hstep ⊢
    rw [executeStatement_setFile hb x e htype]
    split at hstep
    · rename_i hok
      rw [if_pos hok, ← Option.some.inj hstep]
    · exact absurd hstep (by simp)

/-- **After any run of successful statements on a table, a range search gives what it gives
without the `.bin` file, if at that moment the last row with each id of the range is the same in
both files.** -/
theorem select_range_of_run {files : Path → Option CStr} {table : CStr}
    (hshort : table.length ≤ nameMax) (hread : Readable table (engineInit files).storage)
    {stmts : List ParsedSQL} (hwrites : ∀ sql ∈ stmts, sql.Writes table)
    (hline : Runs.Meets Engine.write (AppendsLine table) (engineInit files) stmts) {e : Engine}
    (hrun : Runs.run Engine.write (engineInit files) stmts = some e) {sql : ParsedSQL}
    {clause : WhereClause} (htable : sql.table = table) (hclause : shouldUseIdRange sql = some clause)
    (hsame : ∀ from' to', parseBetweenBounds clause = some (from', to') →
      SameInRange e.storage table from' to') :
    ∃ e', Runs.run Engine.write (engineInit (Function.update files (binPath table) none)) stmts =
        some e' ∧ (executeSelect e' sql).1 = (executeSelect e sql).1 := by
  subst htable
  have hmeets : Runs.Meets Engine.write
      (fun e stmt => stmt.Writes sql.table ∧ AppendsLine sql.table e stmt) (engineInit files) stmts :=
    hline.imp fun e stmt hstmt h => ⟨hwrites stmt hstmt, h⟩
  have hready : RangeReady sql.table e.storage :=
    @Runs.invariant Engine ParsedSQL _ _ (fun e => RangeReady sql.table e.storage)
      (fun e stmt e' hinv hcond hstep => hinv.write hshort hcond.1 hcond.2 hstep) _ _ _
      (rangeReady_engineInit hshort hread) hmeets hrun
  refine ⟨e.setFile (binPath sql.table) none, ?_, executeSelect_setFile hshort hready hclause hsame⟩
  rw [engineInit_setFile (foreign_binPath sql.table)]
  exact run_setFile (foreign_binPath sql.table) none hwrites hrun

/-! ## Two runs -/

/-- A table `t (id INT, name VARCHAR)` with the row `1,a`, and its `.bin` file. -/
def binTable : Path → Option CStr := fun path =>
  if path = schemaPath .nested "t".toList then some "id,INT\nname,VARCHAR\n".toList
  else if path = tablePath .nested "t".toList then some "1,a\n".toList
  else if path = binPath "t".toList then
    some ('\x01' :: List.replicate 3 '\x00' ++ 'a' :: List.replicate 31 '\x00')
  else none

/-- `SELECT * FROM t WHERE id BETWEEN 1 AND 5`. -/
def betweenOneAndFive : ParsedSQL :=
  { parsedNew with
    type := .select, table := "t".toList, columns := [['*']],
    conds := [⟨"id".toList, "BETWEEN".toList, ['1'], ['5']⟩] }

/-- `INSERT INTO t (id, name) VALUES (2, 'b')`. -/
def insertTwo : ParsedSQL :=
  { parsedNew with
    type := .insert, table := "t".toList, columns := ["id".toList, "name".toList],
    values := [['2'], ['b']] }

/-- `DELETE FROM t WHERE id = 2`. -/
def deleteTwo : ParsedSQL :=
  { parsedNew with
    type := .delete, table := "t".toList, conds := [⟨"id".toList, ['='], ['2'], []⟩] }

example :
    parseSql .zero "SELECT * FROM t WHERE id BETWEEN 1 AND 5".toList = some betweenOneAndFive ∧
      parseSql .zero "INSERT INTO t (id, name) VALUES (2, 'b')".toList = some insertTwo ∧
      parseSql .zero "DELETE FROM t WHERE id = 2".toList = some deleteTwo := by
  decide +kernel

omit [CDouble]

instance (table : CStr) (e : Engine) (sql : ParsedSQL) : Decidable (AppendsLine table e sql) :=
  inferInstanceAs (Decidable (_ → ∀ file ∈ e.storage.content table, EndsLine file))

/-- The row that was inserted has been deleted again. -/
theorem select_range_insert_delete : ∃ e e',
    Runs.run (@Engine.write .whole) (@engineInit .whole binTable) [insertTwo, deleteTwo] = some e ∧
      Runs.run (@Engine.write .whole)
        (@engineInit .whole (Function.update binTable (binPath "t".toList) none))
          [insertTwo, deleteTwo] = some e' ∧
      (@executeSelect .whole e' betweenOneAndFive).1 =
        (@executeSelect .whole e betweenOneAndFive).1 := by
  have hrun : (Runs.run (@Engine.write .whole) (@engineInit .whole binTable)
      [insertTwo, deleteTwo]).map (fun e => decide (
        e.storage.tableSchema "t".toList =
          some [⟨"id".toList, .int⟩, ⟨"name".toList, .varchar⟩] ∧
        (e.storage.content "t".toList).bind (loadTableRows · 2) = some [[['1'], ['a']]] ∧
        e.storage.files (binPath "t".toList) = binTable (binPath "t".toList) ∧
        (e.storage.registry.find "t".toList).map (fun tree => tree.toList) = some [(1, 0)])) =
      some true := by
    decide +kernel
  obtain ⟨e, hrun, he⟩ := Option.map_eq_some_iff.mp hrun
  obtain ⟨hschema, hrows, hbin, htree⟩ := of_decide_eq_true he
  obtain ⟨e', hrun', hsame⟩ := @select_range_of_run .whole binTable "t".toList (by decide)
    ⟨[⟨"id".toList, .int⟩, ⟨"name".toList, .varchar⟩], "1,a\n".toList, [[['1'], ['a']]],
      by decide +kernel, by decide +kernel, by decide +kernel⟩
    [insertTwo, deleteTwo] (by decide) (by decide +kernel) e hrun betweenOneAndFive _ rfl rfl (by
      intro from' to' _
      refine ⟨fun schema idCol rows bin hs hidx hr hb => ?_, fun tree ht entry hentry _ _ => ?_⟩
      · obtain rfl := Option.some.inj (hschema.symm.trans hs)
        obtain rfl := Option.some.inj (hrows.symm.trans hr)
        obtain rfl : 0 = idCol := Option.some.inj ((by decide : _ = some 0).symm.trans hidx)
        rw [hbin] at hb
        refine @sameLast_of_encodes .whole _ _ _ _ rfl ?_ from' to'
        rw [← Option.some.inj hb]
        exact ⟨by decide +kernel, by decide +kernel⟩
      · rw [ht, Option.map_some, Option.some.injEq] at htree
        rw [htree, List.mem_singleton] at hentry
        rw [hentry]
        decide)
  exact ⟨e, e', hrun, hrun', hsame⟩

/-- Behind an INSERT the range search with the `.bin` file misses the new row. -/
theorem select_range_misses_row :
    (∃ schema, (@engineInit .whole binTable).storage.tableSchema "t".toList = some schema ∧
      ∃ bin rows, binTable (binPath "t".toList) = some bin ∧
        (((@engineInit .whole binTable).storage.content "t".toList).bind
          (loadTableRows · schema.length)) = some rows ∧ @Encodes .whole schema bin rows) ∧
    (Runs.run (@Engine.write .whole) (@engineInit .whole binTable) [insertTwo]).map
        (fun e => (@executeSelect .whole e betweenOneAndFive).1) =
      some (.rows .range ⟨["id".toList, "name".toList], [[['1'], ['a']]]⟩) ∧
    (Runs.run (@Engine.write .whole)
        (@engineInit .whole (Function.update binTable (binPath "t".toList) none)) [insertTwo]).map
        (fun e => (@executeSelect .whole e betweenOneAndFive).1) =
      some (.rows .range ⟨["id".toList, "name".toList], [[['1'], ['a']], [['2'], ['b']]]⟩) := by
  refine ⟨⟨[⟨"id".toList, .int⟩, ⟨"name".toList, .varchar⟩], by decide +kernel, _,
    [[['1'], ['a']]], rfl, by decide +kernel, by decide +kernel, by decide +kernel⟩, ?_, ?_⟩
  · decide +kernel
  · decide +kernel

end Run

end MiniSql
