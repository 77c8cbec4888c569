import MiniSql.BPTree.Range
import MiniSql.Storage.Statements

/-!
# What the trees hold

The loops that fill a tree register rows under their ids, one after the other, so that a tree
says of an id where the last row with it is. The statements keep the tree of their table: an
INSERT registers the row it appends, a DELETE or an UPDATE makes the tree again from the file
it has written.

## Main definitions

* `numbered` — the pairs that such a loop inserts.
* `lastWith` — the last row with an id.
* `Storage.CountersOk` — the counter of a table is an `int`.

## Main results

* `lookup_numbered` — the row that a filled tree finds under an id.
* `storageInsert_index`, `rewriteTable_index` — the tree of a table after a statement.
-/

namespace MiniSql
open CText

/-! ## The loops -/

section Loops

variable {α : Type*} (key : α → Option ℤ)

/-- The pairs of a loop that registers every row with a key under its number. -/
def numbered : List α → ℕ → List (ℤ × ℤ)
  | [], _ => []
  | x :: xs, row => match key x with
    | some id => (id, (row : ℤ)) :: numbered xs (row + 1)
    | none => numbered xs (row + 1)

/-- The last row with a key. -/
def lastWith (xs : List α) (id : ℤ) : Option α := xs.reverse.find? fun x => key x = some id

theorem lastWith_cons (x : α) (xs : List α) (id : ℤ) :
    lastWith key (x :: xs) id = (lastWith key xs id).or (if key x = some id then some x else none) := by
  unfold lastWith
  rw [List.reverse_cons, List.find?_append]
  by_cases h : key x = some id <;> simp [h]

theorem lastWith_isSome {xs : List α} {id : ℤ} :
    (lastWith key xs id).isSome ↔ ∃ x ∈ xs, key x = some id := by
  simp [lastWith, List.find?_isSome]

/-- The number under an id is the number of the last row with it. -/
theorem lastValue_numbered (xs : List α) (id : ℤ) (row : ℕ) :
    match lastWith key xs id with
    | none => lastValue (numbered key xs row) id = none
    | some x => ∃ k : ℕ, lastValue (numbered key xs row) id = some ((row + k : ℕ) : ℤ) ∧
        xs[k]? = some x := by
  induction xs generalizing row with
  | nil => rfl
  | cons x xs ih =>
    have hrest := ih (row + 1)
    rw [lastWith_cons, numbered]
    cases hlast : lastWith key xs id with
    | some y =>
      rw [hlast] at hrest
      obtain ⟨k, hk, hy⟩ := hrest
      have hnum : row + 1 + k = row + (k + 1) := by omega
      rw [hnum] at hk
      refine ⟨k + 1, ?_, by simpa using hy⟩
      cases key x with
      | none => exact hk
      | some i =>
        dsimp only
        rw [lastValue_cons, hk]
        rfl
    | none =>
      rw [hlast] at hrest
      dsimp only at hrest
      cases hx : key x with
      | none => simpa using hrest
      | some i =>
        by_cases hi : i = id
        · subst hi
          rw [if_pos rfl, Option.none_or]
          refine ⟨0, ?_, rfl⟩
          dsimp only
          rw [lastValue_cons, hrest]
          simp
        · have hne : ¬ id = i := fun h => hi h.symm
          simp only [Option.some.injEq, hi, if_false, Option.or_none]
          rw [lastValue_cons, hrest, if_neg hne]
          rfl

end Loops

/-- The id of a record, where it is positive. -/
def positiveId (idCol : ℕ) (record : CStr) : Option ℤ :=
  (idOfRecord idCol record).filter fun id => 0 < id

/-- The id of a row of a `.bin` file, where it is positive. -/
def positiveBinId (offset : ℕ) (row : CStr) : Option ℤ :=
  if 0 < binInt row offset then some (binInt row offset) else none

theorem indexLoop_eq (idCol : ℕ) (records : List CStr) (row : ℕ) (tree : BPTree) :
    indexLoop idCol records row tree =
      bptreeInsertAll tree (numbered (positiveId idCol) records row) := by
  induction records generalizing row tree with
  | nil => rfl
  | cons record records ih =>
    rw [indexLoop, ih, numbered, positiveId]
    cases idOfRecord idCol record with
    | none => rfl
    | some id =>
      by_cases h : 0 < id
      · simp [h, Option.filter, bptreeInsertAll_cons]
      · simp [h, Option.filter]

theorem binIndexLoop_eq (offset : ℕ) (rows : List CStr) (row : ℕ) (tree : BPTree) :
    binIndexLoop offset rows row tree =
      bptreeInsertAll tree (numbered (positiveBinId offset) rows row) := by
  fun_induction binIndexLoop offset rows row tree with
  | case1 => rfl
  | case2 r rows row tree ih =>
    rw [ih, numbered, positiveBinId]
    by_cases h : 0 < binInt r offset
    · rw [if_pos h, if_pos h, bptreeInsertAll_cons]
    · rw [if_neg h, if_neg h]

/-! ## The registry -/

theorem sound_emptyTree : emptyTree.Sound := by
  have hcreate : bptreeCreate 128 = some emptyTree := bptreeCreate_of_le (by omega)
  exact sound_bptreeCreate hcreate

section Registry

variable {st : Storage} {table : CStr}

theorem indexRegistryGetOrCreate_find {found : Option BPTree} {st₁ : Storage}
    (h : indexRegistryGetOrCreate st table = (found, st₁)) :
    st₁.registry.find table = found ∧
      ∀ tree, found = some tree → tree = (st.registry.find table).getD emptyTree := by
  unfold indexRegistryGetOrCreate at h
  cases hfind : st.registry.find table with
  | some tree =>
    rw [hfind] at h
    obtain ⟨rfl, rfl⟩ := Prod.mk.inj h
    exact ⟨hfind, fun tree' htree => (Option.some.inj htree).symm⟩
  | none =>
    rw [hfind] at h
    dsimp only at h
    split at h
    · obtain ⟨rfl, rfl⟩ := Prod.mk.inj h
      exact ⟨hfind, by simp⟩
    · rename_i hroom
      obtain ⟨rfl, rfl⟩ := Prod.mk.inj h
      have hlt : st.registry.length < registryMax := by omega
      refine ⟨?_, fun tree htree => (Option.some.inj htree).symm⟩
      exact Slots.find_add_self _ hlt hfind

@[simp] theorem setTree_find (st : Storage) (table : CStr) (tree : BPTree) :
    (setTree st table tree).registry.find table = (st.registry.find table).map fun _ => tree :=
  Slots.find_modify_self table _ st.registry

/-- The counter that a table has is an `int`. -/
def Storage.CountersOk (st : Storage) (table : CStr) : Prop :=
  ∀ m, st.metaCache.find table = some m → intMin ≤ m.nextId ∧ m.nextId ≤ intMax

theorem toInt32_mem (n : ℤ) : intMin ≤ toInt32 n ∧ toInt32 n ≤ intMax := by
  rw [toInt32, Int.bmod_def, intMin, intMax]
  split <;> omega

theorem Storage.CountersOk.modify (h : st.CountersOk table) {f : Meta → Meta}
    (hf : ∀ m, intMin ≤ m.nextId → m.nextId ≤ intMax →
      intMin ≤ (f m).nextId ∧ (f m).nextId ≤ intMax) :
    ({ st with metaCache := st.metaCache.modify table f } : Storage).CountersOk table := by
  intro m hm
  rw [Slots.find_modify_self] at hm
  obtain ⟨m', hm', rfl⟩ := Option.map_eq_some_iff.mp hm
  exact hf m' (h m' hm').1 (h m' hm').2

theorem countersOk_ensureMeta (hshort : table.length ≤ nameMax) (h : st.CountersOk table)
    (path : Path) (idCol : ℕ) : (ensureMeta st table path idCol).CountersOk table := by
  unfold ensureMeta
  cases hfind : st.metaCache.find table with
  | some m => exact h
  | none =>
    intro m hm
    dsimp only at hm
    rw [List.take_of_length_le hshort] at hm
    by_cases hroom : st.metaCache.length < metaCacheMax
    · rw [Slots.find_add_self _ hroom hfind] at hm
      rw [← Option.some.inj hm]
      exact toInt32_mem _
    · rw [Slots.add_of_full hroom, hfind] at hm
      exact absurd hm (by simp)

/-- The automatic id is a counter. -/
theorem countersOk_nextAutoId (hshort : table.length ≤ nameMax) (h : st.CountersOk table)
    (path : Path) (idCol : ℕ) :
    (nextAutoId st table path idCol).2.CountersOk table ∧
      ∀ id, (nextAutoId st table path idCol).1 = some id → intMin ≤ id ∧ id ≤ intMax := by
  have hrefresh : (refreshMeta st table path).CountersOk table := by
    unfold refreshMeta
    cases st.metaCache.find table with
    | none => exact h
    | some m =>
      dsimp only
      split
      · exact h.modify fun _ _ _ => by decide
      · exact h
  unfold nextAutoId
  dsimp only
  cases hfind : (refreshMeta st table path).metaCache.find table with
  | some m => exact ⟨hrefresh, fun id hid => Option.some.inj hid ▸ hrefresh m hfind⟩
  | none =>
    dsimp only
    split
    · exact ⟨countersOk_ensureMeta hshort hrefresh path idCol,
        fun id hid => Option.some.inj hid ▸ toInt32_mem _⟩
    · exact ⟨hrefresh, by simp⟩

end Registry

/-! ## Inserting -/

/-- The tree of the table has taken the row under its id. -/
def Registers (table : CStr) (schema : List ColDef) (row : Row) (st st' : Storage) : Prop :=
  match findSchemaIndex schema "id".toList with
  | none => st'.registry = st.registry
  | some idCol => ∃ id rowIdx, (row[idCol]?).map atoi = some id ∧
      ∀ tree, st'.registry.find table = some tree →
        tree = bptreeInsert ((st.registry.find table).getD emptyTree) id rowIdx

section Statements

variable {st : Storage} {table : CStr}

/-- The end of `storage_insert` registers the row under the id that its `id` cell holds. -/
theorem finishInsert_index {path : Path} {idCol : ℕ} {row : Row} {auto : Option ℤ} {st' : Storage}
    (hcount : st.CountersOk table)
    (hauto : ∀ id, auto = some id → (row[idCol]?).map atoi = some id)
    (h : finishInsert st table path idCol row auto = (.ok (), st')) :
    st'.indexRebuilt = st.indexRebuilt ∧ st'.CountersOk table ∧
      ∃ id rowIdx, (row[idCol]?).map atoi = some id ∧
        ∀ tree, st'.registry.find table = some tree →
          tree = bptreeInsert ((st.registry.find table).getD emptyTree) id rowIdx := by
  obtain ⟨files, fps, happ⟩ := appendCsvRow_snd st path row
  unfold finishInsert at h
  rw [happ] at h
  cases hid : auto.or (explicitId (row[idCol]?.getD [])) with
  | none =>
    rw [hid] at h
    exact absurd (Prod.mk.inj h).1 (by simp)
  | some id =>
    have hcell : (row[idCol]?).map atoi = some id := by
      rcases Option.or_eq_some_iff.mp hid with hsome | ⟨-, hexplicit⟩
      · exact hauto id hsome
      · unfold explicitId at hexplicit
        dsimp only at hexplicit
        split at hexplicit
        · exact absurd hexplicit (by simp)
        · rename_i hread
          cases hcell : row[idCol]? with
          | none =>
            rw [hcell] at hread
            exact absurd (.inr rfl) hread
          | some cell =>
            rw [hcell] at hexplicit
            exact congrArg some (Option.some.inj hexplicit)
    rw [hid] at h
    dsimp only at h
    rcases hget : indexRegistryGetOrCreate { st with files := files, appendFp := fps } table with
      ⟨found, st₁⟩
    obtain ⟨hfind, htree⟩ := indexRegistryGetOrCreate_find hget
    obtain ⟨registry, hsnd⟩ :=
      indexRegistryGetOrCreate_snd { st with files := files, appendFp := fps } table
    rw [hget] at h hsnd
    have hbump : ∀ m : Meta, intMin ≤ m.nextId → m.nextId ≤ intMax →
        intMin ≤ (if auto.isSome then toInt32 (m.nextId + 1) else m.nextId) ∧
          (if auto.isSome then toInt32 (m.nextId + 1) else m.nextId) ≤ intMax := by
      intro m hmin hmax
      split
      · exact toInt32_mem _
      · exact ⟨hmin, hmax⟩
    dsimp only at hsnd
    subst hsnd
    have hkeep : ∀ registry : Slots CStr BPTree, ({ st with
        files := files, appendFp := fps, registry := registry,
        metaCache := st.metaCache.modify table fun m =>
          ⟨if auto.isSome then toInt32 (m.nextId + 1) else m.nextId, m.nextRowIdx + 1⟩ } :
            Storage).CountersOk table := fun _ => hcount.modify hbump
    cases found with
    | none =>
      obtain rfl := (Prod.mk.inj h).2
      exact ⟨rfl, hkeep registry, id, 0, hcell,
        fun tree hfound => absurd (hfind.symm.trans hfound) (by simp)⟩
    | some tree =>
      obtain rfl := (Prod.mk.inj h).2
      refine ⟨rfl, hkeep _, id, ?rowIdx, hcell, fun tree' hfound => ?_⟩
      rotate_left
      · change (registry.modify table _).find table = _ at hfound
        change registry.find table = _ at hfind
        rw [Slots.find_modify_self, hfind, htree tree rfl] at hfound
        exact (Option.some.inj hfound).symm

/-- The cell of the `id` column is the automatic id that was put in front of the values. -/
theorem buildRow_autoId {schema : List ColDef} {idCol : ℕ} {id : ℤ} {columns values : List CStr}
    {row : Row} (hidx : findSchemaIndex schema "id".toList = some idCol)
    (hmem : intMin ≤ id ∧ id ≤ intMax)
    (h : buildRowInSchemaOrder schema ("id".toList :: columns) (intText id :: values) = .ok row) :
    (row[idCol]?).map atoi = some id := by
  have hcell : row[idCol]? = some (intText id) :=
    @buildRow_getElem? _ _ _ _ h 0 _ _ _ rfl rfl hidx
  rw [hcell, Option.map_some, atoi_intText hmem.1 hmem.2]

/-- **A successful INSERT registers the row it appends in the tree of its table.** -/
theorem storageInsert_index (hshort : table.length ≤ nameMax) (hc : st.Coherent table)
    (hcount : st.CountersOk table) {columns values : List CStr} {st' : Storage}
    (h : storageInsert st table columns values = (.ok (), st')) :
    ∃ schema row, st.tableSchema table = some schema ∧
      insertedRow st table columns values schema = some row ∧
      st'.indexRebuilt = st.indexRebuilt ∧ st'.CountersOk table ∧
        Registers table schema row st st' := by
  unfold storageInsert at h
  by_cases hargs : table = [] ∨ values = []
  · rw [if_pos hargs] at h
    exact absurd (Prod.mk.inj h).1 (by simp)
  rw [if_neg hargs] at h
  obtain ⟨paths, schemas, hopen, -⟩ := openTable_view hshort hc
  rw [hopen] at h
  set st₁ : Storage := { st with pathCache := paths, schemaCache := schemas } with hst₁
  cases hschema : st.tableSchema table with
  | none =>
    rw [hschema] at h
    exact absurd (Prod.mk.inj h).1 (by simp)
  | some schema =>
    rw [hschema, Option.map_some] at h
    dsimp only at h
    refine ⟨schema, ?_⟩
    unfold insertedRow Registers
    cases hidx : findSchemaIndex schema "id".toList with
    | none =>
      rw [hidx] at h
      dsimp only at h ⊢
      cases hrow : buildRowInSchemaOrder schema columns values with
      | error e =>
        rw [hrow] at h
        exact absurd (Prod.mk.inj h).1 (by simp)
      | ok row =>
        rw [hrow] at h
        obtain ⟨files, fps, happ⟩ := appendCsvRow_snd st₁ (st.tableFile table) row
        obtain rfl := (Prod.mk.inj h).2
        refine ⟨row, rfl, rfl, ?_⟩
        rw [happ]
        exact ⟨rfl, hcount, rfl⟩
    | some idCol =>
      rw [hidx] at h
      dsimp only at h ⊢
      unfold insertWithId at h
      have hens := @countersOk_ensureMeta st₁ table hshort hcount (st.tableFile table) idCol
      obtain ⟨cache, heq, -⟩ := ensureMeta_snd st₁ table (st.tableFile table) idCol
      have hauto : (nextAutoId (ensureMeta st₁ table (st.tableFile table) idCol) table
          (st.tableFile table) idCol).1 = st.autoId table idCol :=
        autoId_eq st paths schemas table (st.tableFile table) idCol
      rw [heq] at h hens hauto
      dsimp only at h
      rcases hgives : (if columns = [] then Except.ok true else userHasId values.length columns) with
        e | _ | _ <;> rw [hgives] at h <;> dsimp only at h ⊢
      · exact absurd (Prod.mk.inj h).1 (by simp)
      · obtain ⟨hnext, hmem⟩ := countersOk_nextAutoId hshort hens (st.tableFile table) idCol
        obtain ⟨cache', hsnd, -⟩ := nextAutoId_snd { st₁ with metaCache := cache } table
          (st.tableFile table) idCol
        rcases hres : nextAutoId { st₁ with metaCache := cache } table (st.tableFile table) idCol with
          ⟨_ | id, st₂⟩ <;> rw [hres] at h hnext hmem hsnd hauto <;> dsimp only at h hsnd hauto
        · exact absurd (Prod.mk.inj h).1 (by simp)
        subst hsnd
        rw [← hauto, Option.bind_some]
        cases hrow : buildRowInSchemaOrder schema ("id".toList :: columns) (intText id :: values) with
        | error e =>
          rw [hrow] at h
          exact absurd (Prod.mk.inj h).1 (by simp)
        | ok row =>
          rw [hrow] at h
          have hcell := buildRow_autoId hidx (hmem id rfl) hrow
          obtain ⟨hrebuilt, hok, hregister⟩ := finishInsert_index hnext
            (fun id' heq => Option.some.inj heq ▸ hcell) h
          exact ⟨row, rfl, rfl, hrebuilt, hok, hregister⟩
      · cases hrow : buildRowInSchemaOrder schema columns values with
        | error e =>
          rw [hrow] at h
          exact absurd (Prod.mk.inj h).1 (by simp)
        | ok row =>
          rw [hrow] at h
          obtain ⟨hrebuilt, hok, hregister⟩ := finishInsert_index hens (by simp) h
          exact ⟨row, rfl, rfl, hrebuilt, hok, hregister⟩

/-! ## Deleting and updating -/

/-- `rebuild_index` fills an empty tree. -/
theorem rebuildIndexWith_find {path : Path} {file : CStr} (hfile : st.files path = some file)
    {idCol : ℕ} {tree : BPTree}
    (h : (rebuildIndexWith false st table path (some idCol)).registry.find table = some tree) :
    tree = indexLoop idCol (st.records path) 0 emptyTree := by
  unfold rebuildIndexWith at h
  dsimp only at h
  rcases hget : indexRegistryGetOrCreate (indexRegistryDestroyAll st) table with ⟨found, st₁⟩
  obtain ⟨hfind, hempty⟩ := indexRegistryGetOrCreate_find hget
  obtain ⟨registry, hsnd⟩ := indexRegistryGetOrCreate_snd (indexRegistryDestroyAll st) table
  rw [hget] at h hsnd
  dsimp only at hsnd
  subst hsnd
  cases found with
  | none => exact absurd (hfind.symm.trans h) (by simp)
  | some tree' =>
    obtain rfl := hempty tree' rfl
    have hfile' : (indexRegistryDestroyAll st).files path = some file := hfile
    simp only [Bool.false_eq_true, if_false, hfile', setTree_find] at h
    rw [hfind] at h
    exact (Option.some.inj h).symm

/-- **A successful DELETE or UPDATE makes the tree of its table from the file it has written.** -/
theorem rewriteTable_index (hshort : table.length ≤ nameMax) (hc : st.Coherent table)
    (hcount : st.CountersOk table) {plan : List ColDef → Option RowPlan} {st' : Storage}
    (h : rewriteTable .none st table plan = (.ok (), st')) :
    ∃ schema, st.tableSchema table = some schema ∧
      st'.indexRebuilt = st.indexRebuilt ∧ st'.CountersOk table ∧
        match findSchemaIndex schema "id".toList with
        | none => st'.registry = st.registry
        | some idCol => ∀ tree, st'.registry.find table = some tree →
            tree = indexLoop idCol (st'.records (st.tableFile table)) 0 emptyTree := by
  obtain ⟨paths, hpaths, -⟩ := rewritePaths_view hshort hc
  unfold rewriteTable at h
  rw [hpaths] at h
  set st₁ : Storage := { st with pathCache := paths } with hst₁
  have hload : loadSchema st₁ (st.schemaFile table) = st.tableSchema table := rfl
  dsimp only at h
  rw [if_neg (by simp [RewriteFaults.none]), hload] at h
  cases hschema : st.tableSchema table with
  | none =>
    rw [hschema] at h
    exact absurd (Prod.mk.inj h).1 (by simp)
  | some schema =>
    rw [hschema] at h
    dsimp only at h
    refine ⟨schema, rfl, ?_⟩
    cases hplan : plan schema with
    | none =>
      rw [hplan] at h
      exact absurd (Prod.mk.inj h).1 (by simp)
    | some rowPlan =>
      rw [hplan] at h
      dsimp only at h
      unfold rewriteRows at h
      cases hout : rewrittenFile .none st₁ (st.tableFile table) schema.length rowPlan with
      | none =>
        rw [hout] at h
        exact absurd (Prod.mk.inj h).1 (by simp)
      | some out =>
        rw [hout] at h
        simp only [replaceTableFile, RewriteFaults.none, Bool.false_eq_true, if_false] at h
        obtain rfl := (Prod.mk.inj h).2
        set st₂ : Storage := invalidateMetaCache (((appendFpInvalidate st₁ (st.tableFile table)).setFile
          (tempPath (st.tablePlace table) table) none).setFile (st.tableFile table) (some out)) table
          with hst₂
        have hmeta : st₂.CountersOk table := by
          refine Storage.CountersOk.modify (f := fun _ => ⟨0, 0⟩) ?_ fun _ _ _ => by decide
          exact hcount
        have hfile : st₂.files (st.tableFile table) = some out := Function.update_self ..
        obtain ⟨registry, hreg⟩ := rebuildIndexWith_snd false st₂ table (st.tableFile table)
          (findSchemaIndex schema "id".toList)
        refine ⟨by rw [hreg]; rfl, by rw [hreg]; exact hmeta, ?_⟩
        cases hidx : findSchemaIndex schema "id".toList with
        | none => rfl
        | some idCol =>
          intro tree htree
          rw [hidx] at hreg
          rw [rebuildIndexWith_find hfile htree, hreg]
          rfl

/-! ## Filling the tree before a SELECT -/

/-- The pairs that `storage_ensure_index` inserts: from the `.bin` file, where there is one. -/
def fillPairs (st : Storage) (table : CStr) (schema : List ColDef) (idCol : ℕ) : List (ℤ × ℤ) :=
  match st.files (binPath table) with
  | some bin => numbered (positiveBinId (binRowSize (schema.take idCol)))
      (binRows (binRowSize schema) bin) 0
  | none => numbered (positiveId idCol) (st.records (st.tableFile table)) 0

/-- **A SELECT finds the tree of its table filled, if it was not marked as filled before.** -/
theorem ensureIndex_find (hshort : table.length ≤ nameMax) (hc : st.Coherent table)
    (hne : table ≠ []) (hfresh : table ∉ st.indexRebuilt) :
    (ensureIndex st table).registry.find table =
      match (st.tableSchema table).bind fun schema =>
        (findSchemaIndex schema "id".toList).map fun idCol => (schema, idCol) with
      | none => st.registry.find table
      | some (schema, idCol) => (indexRegistryGetOrCreate st table).1.map fun tree =>
          bptreeInsertAll tree (fillPairs st table schema idCol) := by
  obtain ⟨paths, schemas, hopen, -⟩ := openTable_view hshort hc
  rw [ensureIndex_eq, hopen, if_neg (by simp [hne, hfresh])]
  set st₁ : Storage := { st with pathCache := paths, schemaCache := schemas } with hst₁
  have hmark : ∀ st : Storage, (markRebuilt st table).registry = st.registry := by
    intro st
    obtain ⟨rebuilt, h⟩ := markRebuilt_snd st table
    rw [h]
  have hput : ∀ (st : Storage) (m : Meta), (putMeta st table m).registry = st.registry := by
    intro st m
    obtain ⟨cache, h⟩ := putMeta_snd st table m
    rw [h]
  cases st.tableSchema table with
  | none => rfl
  | some schema =>
    rw [Option.map_some, Option.bind_some]
    dsimp only
    cases findSchemaIndex schema "id".toList with
    | none => rw [hmark]; rfl
    | some idCol =>
      dsimp only [Option.map_some]
      have hsame : (indexRegistryGetOrCreate st₁ table).1 = (indexRegistryGetOrCreate st table).1 := by
        unfold indexRegistryGetOrCreate
        cases st.registry.find table with
        | some tree => rfl
        | none =>
          dsimp only
          split <;> rfl
      obtain ⟨registry, hsnd⟩ := indexRegistryGetOrCreate_snd st₁ table
      rcases hget : indexRegistryGetOrCreate st₁ table with ⟨found, st₂⟩
      obtain ⟨hfind, -⟩ := indexRegistryGetOrCreate_find hget
      rw [hget] at hsame hsnd
      dsimp only at hsame hsnd
      subst hsnd
      rw [← hsame]
      cases found with
      | none => exact hfind
      | some tree =>
        have hbin : (if fitsPath (binPath table) = true then st₁.files (binPath table) else none) =
            st.files (binPath table) := if_pos (fitsPath_binPath hshort)
        unfold fillIndex fillPairs
        dsimp only
        rw [hbin]
        cases st.files (binPath table) with
        | some bin =>
          dsimp only
          rw [hmark, hput, setTree_find, binIndexLoop_eq, hfind]
          rfl
        | none =>
          dsimp only
          have hsame : st₁.files (st.tableFile table) = st.files (st.tableFile table) := rfl
          rw [hsame]
          cases hfile : st.files (st.tableFile table) with
          | none =>
            have hnone : st.records (st.tableFile table) = [] := by rw [Storage.records, hfile]
            rw [hnone]
            dsimp only
            rw [hmark]
            exact hfind
          | some file =>
            dsimp only
            rw [hmark, hput, setTree_find, indexLoop_eq, hfind]
            rfl

end Statements

end MiniSql
