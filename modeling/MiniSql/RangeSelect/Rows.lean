import MiniSql.RangeSelect
import MiniSql.Storage.Matching

/-!
# What a range search returns

A table without a `.bin` file whose rows have different positive ids, and a tree that knows the
number of the row with each id: `SELECT … WHERE id BETWEEN a AND b` returns what the columns, the
order and the limit make of the rows with an id between the bounds. There is no other way to
evaluate `BETWEEN`. The array of row numbers does not grow beyond `2 ^ 30` entries.

## Main definitions

* `HasIds` — the ids of the rows.
* `BPTree.Indexes` — the tree maps the id of each row to its number.
* `Storage.IndexedTable` — a table with such a tree.
* `RowBetween` — a row with an id between two bounds, in either order.

## Main results

* `perm_pickRows_hits`, `pairwise_pickRows_hits` — the rows that the tree leads to.
* `executeSelect_between` — the answer.
-/

namespace MiniSql
open CText

/-- The rows have the ids, all of them positive and no two of them equal. -/
structure HasIds (idCol : ℕ) (rows : List Row) (ids : List ℤ) : Prop where
  ids_eq : rows.map (rowId idCol) = ids.map some
  nodup : ids.Nodup
  positive : ∀ id ∈ ids, 0 < id

/-- The tree maps each id to its position in the list, and nothing else to anything. -/
structure BPTree.Indexes (tree : BPTree) (ids : List ℤ) : Prop where
  sound : tree.Sound
  mem_iff : ∀ id v, (id, v) ∈ tree.toList ↔ ∃ i : ℕ, ids[i]? = some id ∧ v = i

/-- A table without a `.bin` file whose tree knows the ids of its rows. -/
structure Storage.IndexedTable (st : Storage) (table : CStr) (schema : List ColDef) (idCol : ℕ)
    (rows : List Row) : Prop where
  coherent : st.Coherent table
  schema_eq : st.tableSchema table = some schema
  idCol_eq : findSchemaIndex schema "id".toList = some idCol
  rows_eq : (st.content table).bind (loadTableRows · schema.length) = some rows
  no_bin : st.files (binPath table) = none
  indexed : ∃ ids tree, HasIds idCol rows ids ∧ st.registry.find table = some tree ∧ tree.Indexes ids

/-- The row has an id between two bounds, which may stand in either order. -/
def RowBetween (idCol : ℕ) (a b : ℤ) (row : Row) : Bool :=
  (rowId idCol row).any fun id => min a b ≤ id && id ≤ max a b

/-! ## The rows that the tree leads to -/

section Tree

variable {idCol : ℕ} {rows : List Row} {ids : List ℤ} {tree : BPTree}

theorem HasIds.rowId_eq (h : HasIds idCol rows ids) {i : ℕ} {row : Row} (hrow : rows[i]? = some row) :
    ∃ id, ids[i]? = some id ∧ rowId idCol row = some id := by
  have hget := congrArg (·[i]?) h.ids_eq
  simp only [List.getElem?_map, hrow, Option.map_some] at hget
  obtain ⟨id, hid, heq⟩ := Option.map_eq_some_iff.mp hget.symm
  exact ⟨id, hid, heq.symm⟩

theorem HasIds.exists_row (h : HasIds idCol rows ids) {i : ℕ} {id : ℤ} (hid : ids[i]? = some id) :
    ∃ row, rows[i]? = some row ∧ rowId idCol row = some id := by
  have hget := congrArg (·[i]?) h.ids_eq
  simp only [List.getElem?_map, hid, Option.map_some] at hget
  exact Option.map_eq_some_iff.mp hget

/-- The pairs of the tree are the ids with their positions. -/
theorem BPTree.Indexes.perm (h : tree.Indexes ids) :
    tree.toList.Perm (ids.zipIdx.map fun p => (p.1, (p.2 : ℤ))) := by
  have hsorted : SortedAssoc.Sorted tree.toList := h.sound.wf.ordered.sorted
  have hleft : tree.toList.Nodup := hsorted.imp fun {e e'} hlt heq => by
    rw [heq] at hlt
    exact lt_irrefl _ hlt
  have hright : (ids.zipIdx.map fun p => (p.1, (p.2 : ℤ))).Nodup := by
    have hpositions : ((ids.zipIdx.map fun p => (p.1, (p.2 : ℤ))).map Prod.snd).Nodup := by
      rw [List.map_map]
      change (ids.zipIdx.map fun p => ((p.2 : ℕ) : ℤ)).Nodup
      have hrange : (ids.zipIdx.map Prod.snd).Nodup := by
        rw [List.zipIdx_map_snd]
        exact List.nodup_range'
      have hcast := hrange.map Nat.cast_injective (f := ((↑) : ℕ → ℤ))
      rwa [List.map_map] at hcast
    exact hpositions.of_map
  refine (List.perm_ext_iff_of_nodup hleft hright).mpr fun e => ?_
  rw [h.mem_iff e.1 e.2, List.mem_map]
  constructor
  · rintro ⟨i, hid, hv⟩
    exact ⟨(e.1, i), List.mem_zipIdx_iff_getElem?.mpr hid, Prod.ext rfl hv.symm⟩
  · rintro ⟨p, hp, rfl⟩
    exact ⟨p.2, List.mem_zipIdx_iff_getElem?.mp hp, rfl⟩

/-- The rows at the positions of some of the ids are the rows with these ids. -/
theorem HasIds.filterMap_zipIdx (h : HasIds idCol rows ids) (p : ℤ → Bool) :
    ((ids.zipIdx.map fun q => (q.1, (q.2 : ℤ))).filter fun e => p e.1).filterMap
        (fun e => if e.2 < 0 then none else rows[e.2.toNat]?) =
      rows.filter fun row => (rowId idCol row).any p := by
  have hids : ids = rows.map fun row => (rowId idCol row).getD 0 := by
    have hget := congrArg (List.map fun id => Option.getD id 0) h.ids_eq
    rw [List.map_map, List.map_map] at hget
    exact (List.map_id ids).symm.trans hget.symm
  have hposition : ∀ q ∈ rows.zipIdx.filter fun q => p ((rowId idCol q.1).getD 0),
      rows[q.2]? = some q.1 := fun q hq => List.mem_zipIdx_iff_getElem?.mp (List.mem_filter.mp hq).1
  have hany : ∀ row ∈ rows, (rowId idCol row).any p = p ((rowId idCol row).getD 0) := by
    intro row hrow
    obtain ⟨i, hi⟩ := List.mem_iff_getElem?.mp hrow
    obtain ⟨id, -, hid⟩ := h.rowId_eq hi
    rw [hid]
    rfl
  rw [hids, List.zipIdx_map, List.map_map, List.filter_map, List.filterMap_map]
  change (rows.zipIdx.filter fun q => p ((rowId idCol q.1).getD 0)).filterMap
    (fun q => if ((q.2 : ℕ) : ℤ) < 0 then none else rows[((q.2 : ℕ) : ℤ).toNat]?) = _
  calc (rows.zipIdx.filter fun q => p ((rowId idCol q.1).getD 0)).filterMap
        (fun q => if ((q.2 : ℕ) : ℤ) < 0 then none else rows[((q.2 : ℕ) : ℤ).toNat]?)
      = (rows.zipIdx.filter fun q => p ((rowId idCol q.1).getD 0)).filterMap (some ∘ Prod.fst) := by
        refine List.filterMap_congr fun q hq => ?_
        rw [if_neg (by omega), Int.toNat_natCast, hposition q hq]
        rfl
    _ = (rows.zipIdx.map Prod.fst).filter fun row => p ((rowId idCol row).getD 0) := by
        rw [List.filterMap_eq_map, List.filter_map]
        rfl
    _ = rows.filter fun row => (rowId idCol row).any p := by
        rw [List.zipIdx_map_fst]
        exact List.filter_congr fun row hrow => (hany row hrow).symm

/-- **The tree leads to the rows with an id between the bounds.** -/
theorem perm_pickRows_hits (hids : HasIds idCol rows ids) (htree : tree.Indexes ids) (a b : ℤ) :
    (pickRows rows (hits tree (min a b) (max a b))).Perm (rows.filter (RowBetween idCol a b)) := by
  have hfilter := htree.perm.filter (inBounds (min a b) (max a b))
  have hrows := hfilter.filterMap fun e => if e.2 < 0 then none else rows[e.2.toNat]?
  have hrest := hids.filterMap_zipIdx fun id => min a b ≤ id && id ≤ max a b
  unfold pickRows hits
  rw [List.filterMap_map]
  exact hrows.trans (List.Perm.of_eq hrest)

/-- **It leads to them in the order of their ids.** -/
theorem pairwise_pickRows_hits (hids : HasIds idCol rows ids) (htree : tree.Indexes ids) (a b : ℤ) :
    (pickRows rows (hits tree a b)).Pairwise fun row row' =>
      (rowId idCol row).getD 0 < (rowId idCol row').getD 0 := by
  have hsorted : SortedAssoc.Sorted tree.toList := htree.sound.wf.ordered.sorted
  -- the row behind a pair of the tree has the id of the pair
  have hid : ∀ e ∈ tree.toList, ∀ row, (if e.2 < 0 then none else rows[e.2.toNat]?) = some row →
      (rowId idCol row).getD 0 = e.1 := by
    intro e he row hrow
    obtain ⟨i, hi, hv⟩ := (htree.mem_iff e.1 e.2).mp he
    rw [hv, if_neg (by omega), Int.toNat_natCast] at hrow
    obtain ⟨id, hid, heq⟩ := hids.rowId_eq hrow
    rw [heq, Option.getD_some]
    exact Option.some.inj (hid.symm.trans hi)
  unfold pickRows hits
  rw [List.filterMap_map, List.pairwise_filterMap]
  refine (hsorted.filter _).imp_of_mem fun {e e'} he he' hlt row hrow row' hrow' => ?_
  rw [hid e (List.mem_filter.mp he).1 row hrow, hid e' (List.mem_filter.mp he').1 row' hrow']
  exact hlt

/-- Each number in the tree is the number of a row. -/
theorem length_pickRows_hits (hids : HasIds idCol rows ids) (htree : tree.Indexes ids) (a b : ℤ) :
    (pickRows rows (hits tree a b)).length = (hits tree a b).length := by
  have hsome : ∀ v ∈ hits tree a b, ((if v < 0 then none else rows[v.toNat]?) : Option Row).isSome := by
    intro v hv
    obtain ⟨e, he, rfl⟩ := List.mem_map.mp hv
    obtain ⟨i, hi, hval⟩ := (htree.mem_iff e.1 e.2).mp (List.mem_filter.mp he).1
    obtain ⟨row, hrow, -⟩ := hids.exists_row hi
    rw [hval, if_neg (by omega), Int.toNat_natCast, hrow]
    rfl
  unfold pickRows
  rw [List.length_filterMap_eq_countP]
  exact List.countP_eq_length.mpr hsome

/-! ## The tree that a SELECT finds -/

theorem mem_numbered_iff {α : Type*} {key : α → Option ℤ} {xs : List α} {n : ℕ} {e : ℤ × ℤ} :
    e ∈ numbered key xs n ↔ ∃ (i : ℕ) (x : α), xs[i]? = some x ∧ key x = some e.1 ∧ e.2 = n + i := by
  induction xs generalizing n with
  | nil => simp [numbered]
  | cons x xs ih =>
    have hrest : (∃ (i : ℕ) (y : α), (x :: xs)[i]? = some y ∧ key y = some e.1 ∧ e.2 = n + i) ↔
        (key x = some e.1 ∧ e.2 = n) ∨ e ∈ numbered key xs (n + 1) := by
      rw [ih]
      constructor
      · rintro ⟨_ | i, y, hy, hkey, hv⟩
        · obtain rfl : x = y := by simpa using hy
          exact .inl ⟨hkey, by simpa using hv⟩
        · exact .inr ⟨i, y, by simpa using hy, hkey, by push_cast at hv ⊢; omega⟩
      · rintro (⟨hkey, hv⟩ | ⟨i, y, hy, hkey, hv⟩)
        · exact ⟨0, x, rfl, hkey, by simpa using hv⟩
        · exact ⟨i + 1, y, by simpa using hy, hkey, by push_cast at hv ⊢; omega⟩
    rw [hrest, numbered]
    cases hx : key x with
    | none => simp
    | some id =>
      rw [List.mem_cons]
      refine or_congr ?_ Iff.rfl
      rw [Option.some.injEq, Prod.ext_iff, eq_comm (a := e.1)]

/-- **A tree that knows no other ids than those of the rows maps them to the numbers of the rows once
it is filled from them**, wherever it has led before. -/
theorem BPTree.Sound.indexes_filled (hsound : tree.Sound) (hkeys : ∀ e ∈ tree.toList, e.1 ∈ ids)
    (hids : HasIds idCol rows ids) : (filled tree (rowId idCol) rows).Indexes ids := by
  have hfilled := sound_filled hsound (rowId idCol) rows
  have hsorted : SortedAssoc.Sorted (filled tree (rowId idCol) rows).toList :=
    hfilled.wf.ordered.sorted
  set pairs := numbered (fun row => (rowId idCol row).filter fun id => 0 < id) rows 0 with hpairs
  have hmem : ∀ id v, (id, v) ∈ pairs ↔ ∃ i : ℕ, ids[i]? = some id ∧ v = i := by
    intro id v
    rw [hpairs, mem_numbered_iff]
    constructor
    · rintro ⟨i, row, hrow, hkey, hv⟩
      obtain ⟨id', hid', heq⟩ := hids.rowId_eq hrow
      obtain ⟨hkey, -⟩ := Option.filter_eq_some_iff.mp hkey
      exact ⟨i, by rw [hid', ← heq, hkey], by simpa using hv⟩
    · rintro ⟨i, hid, rfl⟩
      obtain ⟨row, hrow, hkey⟩ := hids.exists_row hid
      have hpos := hids.positive id (List.mem_of_getElem? hid)
      exact ⟨i, row, hrow, Option.filter_eq_some_iff.mpr ⟨hkey, by simpa using hpos⟩, by simp⟩
  have hlast : ∀ id v, (id, v) ∈ pairs → ∃ w, lastValue pairs id = some w ∧ (id, w) ∈ pairs := by
    intro id v hin
    cases hlast : lastValue pairs id with
    | none =>
      have hnone := List.lookup_eq_none_iff.mp hlast (id, v) (List.mem_reverse.mpr hin)
      exact absurd hnone (by simp)
    | some w =>
      obtain ⟨l, r, hsplit, -⟩ := List.lookup_eq_some_iff.mp hlast
      exact ⟨w, rfl, List.mem_reverse.mp (by rw [hsplit]; simp)⟩
  refine ⟨hfilled, fun id v => ?_⟩
  rw [← SortedAssoc.lookup_eq_some_iff hsorted, ← hmem, filled, lookup_bptreeInsertAll hsound.wf]
  constructor
  · intro hfound
    rcases Option.or_eq_some_iff.mp hfound with hnew | ⟨hnone, hold⟩
    · obtain ⟨l, r, hsplit, -⟩ := List.lookup_eq_some_iff.mp hnew
      exact List.mem_reverse.mp (by rw [hsplit]; simp)
    · -- an id of the tree is the id of a row, and that row was inserted
      have hid := hkeys _ ((SortedAssoc.lookup_eq_some_iff hsound.wf.ordered.sorted).mp hold)
      obtain ⟨i, hi⟩ := List.mem_iff_getElem?.mp hid
      obtain ⟨w, hw, -⟩ := hlast id i ((hmem id i).mpr ⟨i, hi, rfl⟩)
      rw [← hpairs] at hnone
      rw [hnone] at hw
      exact absurd hw (by simp)
  · intro hin
    obtain ⟨w, hw, hmem'⟩ := hlast id v hin
    -- both pairs have the position of the same id
    obtain ⟨i, hi, rfl⟩ := (hmem id w).mp hmem'
    obtain ⟨j, hj, rfl⟩ := (hmem id v).mp hin
    obtain ⟨hi', hgi⟩ := List.getElem?_eq_some_iff.mp hi
    obtain ⟨hj', hgj⟩ := List.getElem?_eq_some_iff.mp hj
    have hij := (@List.Nodup.getElem_inj_iff _ _ hids.nodup i hi' j hj').mp (hgi.trans hgj.symm)
    rw [← hpairs, hw, Option.some_or, hij]

/-- A tree that is filled from the rows again is as good as before. -/
theorem BPTree.Indexes.refill (h : tree.Indexes ids) (hids : HasIds idCol rows ids) :
    (filled tree (rowId idCol) rows).Indexes ids := by
  refine h.sound.indexes_filled (fun e he => ?_) hids
  obtain ⟨i, hi, -⟩ := (h.mem_iff e.1 e.2).mp he
  exact List.mem_of_getElem? hi

/-- A new tree that is filled from the rows maps their ids to their numbers. -/
theorem indexes_filled (hids : HasIds idCol rows ids) :
    (filled emptyTree (rowId idCol) rows).Indexes ids :=
  sound_emptyTree.indexes_filled (by simp [emptyTree, BPTree.toList, Node.toList, leaves]) hids

end Tree

/-- **A SELECT searches a tree that knows the ids of the rows.** -/
theorem Storage.IndexedTable.ensureIndex {st : Storage} {table : CStr} {schema : List ColDef}
    {idCol : ℕ} {rows : List Row} (h : st.IndexedTable table schema idCol rows)
    (hshort : table.length ≤ nameMax) (hne : table ≠ []) :
    ∃ ids tree, HasIds idCol rows ids ∧
      (MiniSql.ensureIndex st table).registry.find table = some tree ∧ tree.Indexes ids := by
  obtain ⟨ids, tree, hids, htree, hindexes⟩ := h.indexed
  by_cases hfresh : table ∈ st.indexRebuilt
  · refine ⟨ids, tree, hids, ?_, hindexes⟩
    rw [MiniSql.ensureIndex, if_pos (.inr hfresh)]
    exact htree
  · obtain ⟨file, hfile, hload⟩ := Option.bind_eq_some_iff.mp h.rows_eq
    refine ⟨ids, filled tree (rowId idCol) rows, hids, ?_, hindexes.refill hids⟩
    rw [ensureIndex_find hshort h.coherent hne hfresh, h.schema_eq, Option.bind_some, h.idCol_eq,
      Option.map_some]
    dsimp only
    rw [indexRegistryGetOrCreate, htree]
    dsimp only
    rw [Option.map_some, fillPairs_csv h.no_bin hfile hload]

/-! ## The answer -/

variable [CDouble]

omit [CDouble] in
theorem not_supported_between {op : CStr} (h : equalsIgnoreCase op "BETWEEN".toList = true) :
    isSupportedOperator op = false := by
  have hlen := length_eq_of_equalsIgnoreCase h
  by_contra hsupported
  rw [Bool.not_eq_false] at hsupported
  simp only [isSupportedOperator, Bool.or_eq_true, beq_iff_eq] at hsupported
  rcases hsupported with (((((rfl | rfl) | rfl) | rfl) | rfl) | rfl) | rfl <;>
    exact absurd hlen (by decide)

omit [CDouble] in
theorem shouldUseIdRange_spec {sql : ParsedSQL} {clause : WhereClause}
    (h : shouldUseIdRange sql = some clause) :
    sql.conds = [clause] ∧ equalsIgnoreCase clause.op "BETWEEN".toList = true := by
  unfold shouldUseIdRange at h
  split at h
  · rename_i c hconds
    split at h
    · rename_i hboth
      obtain rfl := Option.some.inj h
      exact ⟨hconds, hboth.2⟩
    · exact absurd h (by simp)
  · exact absurd h (by simp)

example : (parseSql .zero "SELECT * FROM t WHERE ID between 1 AND 5".toList).bind shouldUseIdRange =
    some ⟨"ID".toList, "BETWEEN".toList, ['1'], ['5']⟩ := by
  decide +kernel

/-- There is no other way to evaluate `BETWEEN`: where the rows that the tree leads to have no
result, the SELECT has none. -/
theorem scanAnswer_between {st : Storage} {sql : ParsedSQL} {clause : WhereClause}
    (hclause : shouldUseIdRange sql = some clause) {schema : List ColDef} {rows : List Row}
    (hschema : st.tableSchema sql.table = some schema)
    (hrows : (st.content sql.table).bind (loadTableRows · schema.length) = some rows)
    (hempty : rows = [] → buildRowset sql schema [] = none) :
    scanAnswer st sql = .status false := by
  obtain ⟨hconds, hop⟩ := shouldUseIdRange_spec hclause
  have hnone : (scanRows st (st.tableFile sql.table) schema sql).bind (buildRowset sql schema) =
      none := by
    change (st.files (st.tableFile sql.table)).bind _ = _ at hrows
    unfold scanRows
    rw [hrows]
    dsimp only
    split
    · cases rows with
      | nil => exact hempty rfl
      | cons row rows =>
        have hrow : rowMatchesDelete schema row sql = none := by
          unfold rowMatchesDelete
          rw [hconds]
          dsimp only
          have heval : evaluateSelectClause schema row clause = none := by
            unfold evaluateSelectClause
            split
            · rfl
            · split
              · rw [if_pos (not_supported_between hop)]
              · rfl
          rw [heval]
          rfl
        rw [collectMatchingRows, hrow]
        rfl
    · rfl
  unfold scanAnswer
  rw [hschema, Option.bind_some, hnone]

section Between

variable {e : Engine} {sql : ParsedSQL} {clause : WhereClause} {a b : ℤ} {schema : List ColDef}
variable {idCol : ℕ} {rows : List Row}

/-- The tree and the bounds of a range search. -/
theorem executeSelect_indexed (h : e.storage.IndexedTable sql.table schema idCol rows)
    (hshort : sql.table.length ≤ nameMax) (hne : sql.table ≠ [])
    (hclause : shouldUseIdRange sql = some clause) (ha : parseIntLiteral clause.value = some a)
    (hb : parseIntLiteral clause.valueTo = some b) :
    ∃ ids tree, HasIds idCol rows ids ∧ tree.Indexes ids ∧
      (executeSelect e sql).1 =
        rangeAnswer e.storage sql (some tree) (some (min a b, max a b)) := by
  obtain ⟨ids, tree, hids, htree, hindexes⟩ := h.ensureIndex hshort hne
  have hbounds : parseBetweenBounds clause = some (min a b, max a b) := by
    unfold parseBetweenBounds
    rw [ha, hb]
    dsimp only
    split
    · rw [min_eq_right (by omega), max_eq_left (by omega)]
    · rw [min_eq_left (by omega), max_eq_right (by omega)]
  refine ⟨ids, tree, hids, hindexes, ?_⟩
  rw [executeSelect_range hclause hshort hne h.coherent, htree, hbounds]

/-- **A range search returns what the columns, the order and the limit make of the rows with an id
between the bounds, in the order of their ids, as long as there are fewer than `2 ^ 30` of them.**
With more it fails, and so it does where there is no result for these rows. -/
theorem executeSelect_between (h : e.storage.IndexedTable sql.table schema idCol rows)
    (hshort : sql.table.length ≤ nameMax) (hne : sql.table ≠ [])
    (hclause : shouldUseIdRange sql = some clause) (ha : parseIntLiteral clause.value = some a)
    (hb : parseIntLiteral clause.valueTo = some b) :
    ∃ selection : List Row, selection.Perm (rows.filter (RowBetween idCol a b)) ∧
      (selection.Pairwise fun row row' =>
        (rowId idCol row).getD 0 < (rowId idCol row').getD 0) ∧
      (executeSelect e sql).1 =
        if selection.length < 2 ^ 30 then
          match buildRowset sql schema selection with
          | some rs => .rows .range rs
          | none => .status false
        else .status false := by
  obtain ⟨ids, tree, hids, hindexes, hanswer⟩ := executeSelect_indexed h hshort hne hclause ha hb
  obtain ⟨file, hfile, hload⟩ := Option.bind_eq_some_iff.mp h.rows_eq
  have hle : min a b ≤ max a b := le_trans (min_le_left a b) (le_max_left a b)
  refine ⟨pickRows rows (hits tree (min a b) (max a b)), perm_pickRows_hits hids hindexes a b,
    pairwise_pickRows_hits hids hindexes _ _, ?_⟩
  rw [hanswer, length_pickRows_hits hids hindexes]
  unfold rangeAnswer
  dsimp only
  rw [rangeRows_eq hindexes.sound hle]
  by_cases hfew : (hits tree (min a b) (max a b)).length < 2 ^ 30
  · rw [if_pos hfew, if_pos hfew]
    dsimp only
    rw [h.schema_eq, Option.bind_some, fetchRows_csv h.no_bin hfile hload, Option.bind_some]
    cases hbuild : buildRowset sql schema (pickRows rows (hits tree (min a b) (max a b))) with
    | some rs => rfl
    | none =>
      refine scanAnswer_between hclause h.schema_eq h.rows_eq fun hnil => ?_
      rw [hnil] at hbuild
      have hpick : ∀ indices, pickRows [] indices = [] := by
        intro indices
        unfold pickRows
        simp
      rwa [hpick] at hbuild
  · rw [if_neg hfew, if_neg hfew]

end Between

/-! ## A table of any size -/

omit [CDouble]

/-- The ids from 1 on. -/
def countIds (n : ℕ) : List ℤ := (List.range n).map fun i : ℕ => (i : ℤ) + 1

/-- A table `t (id INT)` with these ids. -/
def countRows (n : ℕ) : List Row := (countIds n).map fun id => [intText id]

def countFiles (n : ℕ) : Path → Option CStr := fun path =>
  if path = schemaPath .nested "t".toList then some "id,INT\n".toList
  else if path = tablePath .nested "t".toList then some ((countRows n).flatMap writeCsvRow)
  else none

/-- The engine whose tree was filled from these rows. -/
def countEngine (n : ℕ) : Engine where
  storage := { Storage.start (countFiles n) with
    registry := [("t".toList, filled emptyTree (rowId 0) (countRows n))]
    indexRebuilt := ["t".toList] }
  trie := trieCreate
  trieReady := false

def countSchema : List ColDef := [⟨"id".toList, .int⟩]

/-- `SELECT * FROM t WHERE id BETWEEN high AND low`. -/
def countSelect (high low : CStr) : ParsedSQL :=
  { parsedNew with
    type := .select, table := "t".toList, columns := [['*']],
    conds := [⟨"id".toList, "BETWEEN".toList, high, low⟩] }

theorem countEngine_schema (n : ℕ) :
    (countEngine n).storage.tableSchema "t".toList = some countSchema := by
  have hfile : countFiles n (schemaPath .nested "t".toList) = some "id,INT\n".toList := if_pos rfl
  have hplace : (countEngine n).storage.schemaPlace "t".toList = .nested := by
    change (if (!(countFiles n (schemaPath .nested "t".toList)).isSome && _) = true then Place.legacy
      else Place.nested) = _
    rw [hfile]
    rfl
  unfold Storage.tableSchema Storage.schemaFile loadSchema
  rw [hplace]
  change (countFiles n (schemaPath .nested "t".toList)).bind parseSchema = _
  rw [hfile]
  rfl

theorem countEngine_rows (n : ℕ) :
    ((countEngine n).storage.content "t".toList).bind (loadTableRows · countSchema.length) =
      some (countRows n) := by
  have hne : tablePath .nested "t".toList ≠ schemaPath .nested "t".toList := by decide
  have hfile : countFiles n (tablePath .nested "t".toList) =
      some ((countRows n).flatMap writeCsvRow) := by
    rw [countFiles, if_neg hne, if_pos rfl]
  have hplace : (countEngine n).storage.tablePlace "t".toList = .nested := by
    change (if (!((countFiles n (tablePath .nested "t".toList)).isSome || _) && _) = true
      then Place.legacy else Place.nested) = _
    rw [hfile]
    rfl
  unfold Storage.content Storage.tableFile
  rw [hplace]
  change (countFiles n (tablePath .nested "t".toList)).bind _ = _
  rw [hfile, Option.bind_some]
  refine loadTableRows_flatMap (by decide) fun row hrow => ?_
  obtain ⟨id, -, rfl⟩ := List.mem_map.mp hrow
  refine ⟨rfl, fun v hv => ?_⟩
  rw [List.mem_singleton.mp hv]
  exact nulFree_intText id

theorem mem_countIds {n : ℕ} {id : ℤ} : id ∈ countIds n ↔ 0 < id ∧ id ≤ n := by
  rw [countIds, List.mem_map]
  constructor
  · rintro ⟨i, hi, rfl⟩
    have := List.mem_range.mp hi
    omega
  · rintro ⟨hpos, hle⟩
    exact ⟨(id - 1).toNat, List.mem_range.mpr (by omega), by omega⟩

theorem countRows_ids {n : ℕ} (hn : (n : ℤ) ≤ intMax) : HasIds 0 (countRows n) (countIds n) where
  ids_eq := by
    rw [countRows, List.map_map]
    refine List.map_congr_left fun id hid => ?_
    obtain ⟨hpos, hle⟩ := mem_countIds.mp hid
    change some (atoi (intText id)) = some id
    rw [atoi_intText (by simp only [intMin]; omega) (by omega)]
  nodup := List.nodup_range.map fun i j h => by
    have heq : (i : ℤ) + 1 = j + 1 := h
    omega
  positive := fun id hid => (mem_countIds.mp hid).1

theorem countTable {n : ℕ} (hn : (n : ℤ) ≤ intMax) :
    (countEngine n).storage.IndexedTable "t".toList countSchema 0 (countRows n) where
  coherent := ((sound_start (countFiles n)).coherent "t".toList (by decide)).index [] _ _
  schema_eq := countEngine_schema n
  idCol_eq := by decide
  rows_eq := countEngine_rows n
  no_bin := rfl
  indexed := ⟨countIds n, _, countRows_ids hn, rfl, indexes_filled (countRows_ids hn)⟩

/-- All of its ids are in range. -/
theorem filter_countRows {n : ℕ} (hn : (n : ℤ) ≤ intMax) :
    (countRows n).filter (RowBetween 0 1 intMax) = countRows n := by
  refine List.filter_eq_self.mpr fun row hrow => ?_
  obtain ⟨id, hid, rfl⟩ := List.mem_map.mp hrow
  obtain ⟨hpos, hle⟩ := mem_countIds.mp hid
  have hatoi : rowId 0 [intText id] = some id := by
    change some (atoi (intText id)) = _
    rw [atoi_intText (by simp only [intMin]; omega) (by omega)]
  have hmin : min 1 intMax = 1 := by decide
  have hmax : max 1 intMax = intMax := by decide
  rw [RowBetween, hatoi, hmin, hmax]
  simp only [Option.any_some, Bool.and_eq_true, decide_eq_true_eq]
  omega

theorem length_hits_count {n : ℕ} (hn : (n : ℤ) ≤ intMax) {ids : List ℤ} {tree : BPTree}
    (hids : HasIds 0 (countRows n) ids) (hindexes : tree.Indexes ids) :
    (hits tree (min 1 intMax) (max 1 intMax)).length = n := by
  rw [← length_pickRows_hits hids hindexes, (perm_pickRows_hits hids hindexes 1 intMax).length_eq,
    filter_countRows hn, countRows, List.length_map, countIds, List.length_map, List.length_range]

/-- Five rows, with the bounds in the wrong order. -/
theorem executeSelect_between_five :
    (@executeSelect .whole (countEngine 5) (countSelect ['4'] ['2'])).1 =
        .rows .range ⟨["id".toList], [[['2']], [['3']], [['4']]]⟩ ∧
      ∃ selection : List Row, selection.Perm ((countRows 5).filter (RowBetween 0 4 2)) ∧
        (selection.Pairwise fun row row' => (rowId 0 row).getD 0 < (rowId 0 row').getD 0) ∧
        (@executeSelect .whole (countEngine 5) (countSelect ['4'] ['2'])).1 =
          if selection.length < 2 ^ 30 then
            match @buildRowset .whole (countSelect ['4'] ['2']) countSchema selection with
            | some rs => .rows .range rs
            | none => .status false
          else .status false := by
  refine ⟨by rfl, ?_⟩
  exact @executeSelect_between .whole (countEngine 5) (countSelect ['4'] ['2'])
    ⟨"id".toList, "BETWEEN".toList, ['4'], ['2']⟩ 4 2 countSchema 0 (countRows 5)
    (countTable (by decide)) (by decide) (by decide) (by decide) (by decide) (by decide)

/-- With `2 ^ 30` rows between the bounds the array cannot grow any more, and the SELECT fails,
though all columns of these rows can be returned. -/
theorem executeSelect_between_full :
    (countEngine (2 ^ 30)).storage.IndexedTable "t".toList countSchema 0 (countRows (2 ^ 30)) ∧
      (@executeSelect .whole (countEngine (2 ^ 30)) (countSelect ['1'] "2147483647".toList)).1 =
        .status false ∧
      ∀ selection : List Row,
        selection.Perm ((countRows (2 ^ 30)).filter (RowBetween 0 1 intMax)) →
          ∃ rs, @buildRowset .whole (countSelect ['1'] "2147483647".toList) countSchema selection =
            some rs := by
  have hn : ((2 ^ 30 : ℕ) : ℤ) ≤ intMax := by
    simp only [intMax]
    norm_num
  -- nothing below may compute the rows
  generalize hcount : 2 ^ 30 = n at hn ⊢
  have htable := countTable hn
  obtain ⟨ids, tree, hids, hindexes, hanswer⟩ :=
    @executeSelect_indexed .whole (countEngine n) (countSelect ['1'] "2147483647".toList)
      ⟨"id".toList, "BETWEEN".toList, ['1'], "2147483647".toList⟩ 1 intMax countSchema 0
      (countRows n) htable (by decide) (by decide) (by decide) rfl
      rfl
  refine ⟨htable, ?_, fun selection hperm => ?_⟩
  · rw [hanswer]
    unfold rangeAnswer
    dsimp only
    rw [rangeRows_eq hindexes.sound (by decide), length_hits_count hn hids hindexes, hcount,
      if_neg (lt_irrefl n)]
  · refine ⟨_, @buildRowset_selectAll .whole (countSelect ['1'] "2147483647".toList) countSchema
      selection fun row hrow => ?_⟩
    rw [filter_countRows hn] at hperm
    obtain ⟨id, -, rfl⟩ := List.mem_map.mp (hperm.mem_iff.mp hrow)
    rfl

end MiniSql
