import MiniSql.RangeSelect.Rows

/-!
# The tree after a DELETE or an UPDATE

A B+ tree that cannot delete is thrown away and filled again from the file that was written. The
numbers it gives to the ids are the numbers of the rows in this file.

## Main definitions

* `BPTree.Maps` — what a search in a tree finds.

## Main results

* `rebuildIndexWith_tree` — the tree of the table is made from its file.
* `rewrite_index_sync` — the tree agrees with the rows that are left.
-/

namespace MiniSql
open CText

/-- A search finds the number of the row with the id, and `-1` where no row has it. -/
def BPTree.Maps (tree : BPTree) (idCol : ℕ) (rows : List Row) : Prop :=
  ∀ k : ℤ, (∀ i : ℕ, bptreeSearch tree k = i ↔
      ∃ row, rows[i]? = some row ∧ rowId idCol row = some k) ∧
    ((∀ row ∈ rows, rowId idCol row ≠ some k) → bptreeSearch tree k = -1)

section Tree

variable {st : Storage} {table : CStr} {idCol : ℕ} {rows : List Row} {ids : List ℤ} {tree : BPTree}

/-- A search in a tree that has the positions of the ids. -/
theorem BPTree.Indexes.maps (h : tree.Indexes ids) (hids : HasIds idCol rows ids) :
    tree.Maps idCol rows := by
  have hsorted : SortedAssoc.Sorted tree.toList := h.sound.wf.ordered.sorted
  have hrow : ∀ (k : ℤ) (i : ℕ), ids[i]? = some k ↔
      ∃ row, rows[i]? = some row ∧ rowId idCol row = some k := by
    intro k i
    constructor
    · exact hids.exists_row
    · rintro ⟨row, hget, hid⟩
      obtain ⟨id, hid', heq⟩ := hids.rowId_eq hget
      rw [hid', ← heq, hid]
  have hlookup : ∀ k v, tree.toList.lookup k = some v ↔ ∃ i : ℕ, ids[i]? = some k ∧ v = i := by
    intro k v
    rw [SortedAssoc.lookup_eq_some_iff hsorted, h.mem_iff]
  intro k
  rw [bptreeSearch_eq h.sound.wf]
  constructor
  · intro i
    rw [← hrow k i]
    cases hfound : tree.toList.lookup k with
    | none =>
      refine iff_of_false (by simp) fun hid => ?_
      have := (hlookup k i).mpr ⟨i, hid, rfl⟩
      rw [hfound] at this
      exact absurd this (by simp)
    | some v =>
      obtain ⟨j, hj, rfl⟩ := (hlookup k v).mp hfound
      rw [Option.getD_some, Nat.cast_inj]
      constructor
      · rintro rfl
        exact hj
      · intro hi
        obtain ⟨hjlt, hjget⟩ := List.getElem?_eq_some_iff.mp hj
        obtain ⟨hilt, higet⟩ := List.getElem?_eq_some_iff.mp hi
        exact (List.Nodup.getElem_inj_iff hids.nodup).mp (hjget.trans higet.symm)
  · intro habsent
    cases hfound : tree.toList.lookup k with
    | none => rfl
    | some v =>
      obtain ⟨j, hj, -⟩ := (hlookup k v).mp hfound
      obtain ⟨row, hget, hid⟩ := (hrow k j).mp hj
      exact absurd hid (habsent row (List.mem_of_getElem? hget))

/-- `rebuild_index` registers a tree that is made from the file. -/
theorem rebuildIndexWith_tree (hshort : table.length ≤ nameMax) {path : Path} {file : CStr}
    (hfile : st.files path = some file) (idCol : ℕ) :
    (rebuildIndexWith false st table path (some idCol)).registry.find table =
      some (indexLoop idCol (st.records path) 0 emptyTree) := by
  have hget : indexRegistryGetOrCreate (indexRegistryDestroyAll st) table =
      (some emptyTree, { indexRegistryDestroyAll st with registry := [(table, emptyTree)] }) := by
    have hroom : ¬ (registryMax ≤ 0 ∨ 64 < table.length + 1) := by
      unfold nameMax at hshort
      unfold registryMax
      omega
    unfold indexRegistryGetOrCreate indexRegistryDestroyAll
    dsimp only [Slots.find_nil, List.length_nil]
    rw [if_neg hroom]
    rfl
  unfold rebuildIndexWith
  rw [hget]
  have hfile' : (indexRegistryDestroyAll st).files path = some file := hfile
  simp only [Bool.false_eq_true, if_false, hfile', setTree_find, Slots.find_cons, if_true,
    Option.map_some]
  rfl

/-- The tree from a file whose rows have distinct positive ids. -/
theorem indexes_indexLoop {path : Path} {width : ℕ}
    (hload : (st.files path).bind (loadTableRows · width) = some rows)
    (hids : HasIds idCol rows ids) :
    (indexLoop idCol (st.records path) 0 emptyTree).Indexes ids := by
  obtain ⟨file, hfile, hload⟩ := Option.bind_eq_some_iff.mp hload
  have hrecords : st.records path = (csvRecords file).1 := by rw [Storage.records, hfile]
  rw [hrecords, indexLoop_eq, numbered_records (loadTableRows_eq_some.mp hload).2]
  exact indexes_filled hids

end Tree

/-- The tree of the table agrees with the rows of the file that a rewriting has left, if their ids
are distinct and positive. -/
theorem rewriteTable_maps {st st' : Storage} {table : CStr} (hne : table ≠ [])
    (hshort : table.length ≤ nameMax) {plan : List ColDef → Option RowPlan}
    (hkeeps : KeepsRows plan) (h : rewriteTable .none st table plan = (.ok (), st')) :
    ∃ path schema rows, (openSelect st table).1 = some (path, schema) ∧
      (st'.files path).bind (loadTableRows · schema.length) = some rows ∧
      ∀ idCol ids, findSchemaIndex schema "id".toList = some idCol → HasIds idCol rows ids →
        ∃ tree, st'.registry.find table = some tree ∧ tree.Maps idCol rows := by
  obtain ⟨path, schema, rowPlan, rows, kept, hopen, -, -, -, hkept, written, hfiles, hst'⟩ :=
    rewriteTable_ok hne hkeeps h
  refine ⟨path, schema, kept, hopen, hkept, fun idCol ids hidCol hids => ?_⟩
  rw [← hfiles] at hkept
  obtain ⟨file, hfile, -⟩ := Option.bind_eq_some_iff.mp hkept
  rw [hidCol] at hst'
  refine ⟨_, ?_, (indexes_indexLoop hkept hids).maps hids⟩
  rw [hst']
  exact rebuildIndexWith_tree hshort hfile idCol

/-- **A DELETE or an UPDATE that succeeds and leaves rows with distinct positive ids leaves a tree
that maps each of these ids to the number of its row, and no other one.** -/
theorem rewrite_index_sync [CDouble] {st : Storage} {table : CStr} (hshort : table.length ≤ nameMax)
    {sql : ParsedSQL} (hnul : ∀ set ∈ sql.sets, NulFree set.value) {st' : Storage}
    (h : storageDelete st table sql = (.ok (), st') ∨ storageUpdate st table sql = (.ok (), st')) :
    ∃ path schema rows, (openSelect st table).1 = some (path, schema) ∧
      (st'.files path).bind (loadTableRows · schema.length) = some rows ∧
      ∀ idCol ids, findSchemaIndex schema "id".toList = some idCol → HasIds idCol rows ids →
        ∃ tree, st'.registry.find table = some tree ∧ tree.Maps idCol rows := by
  rcases h with h | h
  · unfold storageDelete storageDeleteWith at h
    split at h
    · rename_i hinput
      have hne := ne_nil_of_validateDeleteInput hinput
      exact rewriteTable_maps hne hshort (keepsRows_deletePlan sql) h
    · exact absurd h (by simp)
  · unfold storageUpdate storageUpdateWith at h
    split at h
    · rename_i hinput
      have hne := ne_nil_of_validateUpdateInput hinput
      exact rewriteTable_maps hne hshort (keepsRows_updatePlan hnul) h
    · exact absurd h (by simp)

/-- The DELETE leaves one row of three. -/
theorem rewrite_index_sync_three :
    ∃ st', @storageDelete .whole (.start threeRows) "t".toList setWhere = (.ok (), st') ∧
      ∃ path schema rows, (openSelect (.start threeRows) "t".toList).1 = some (path, schema) ∧
        (st'.files path).bind (loadTableRows · schema.length) = some rows ∧
        ∀ idCol ids, findSchemaIndex schema "id".toList = some idCol → HasIds idCol rows ids →
          ∃ tree, st'.registry.find "t".toList = some tree ∧ tree.Maps idCol rows := by
  have hdelete : (@storageDelete .whole (.start threeRows) "t".toList setWhere).1 = .ok () := by
    decide +kernel
  obtain ⟨st', hdelete⟩ := exists_of_ok hdelete
  exact ⟨st', hdelete, @rewrite_index_sync .whole (.start threeRows) "t".toList (by decide) setWhere
    (by decide) st' (.inl hdelete)⟩

end MiniSql
