import MiniSql.AutoIds
import MiniSql.RangeSelect.Rebuild
import MiniSql.Storage.Scanners

/-!
# Finding a row by its id

`SELECT ... WHERE id = k` asks the B+ tree of its table for the number of a row and does not look at
the condition again. It returns the rows of a full scan where the tree is in step with the file: it
leads from each id to the number of its row, and from nothing else to anything.

## Main definitions

* `IntIds` — the rows have distinct positive ids.
* `BPTree.InStep` — a tree that agrees with the ids, or will do so once it is filled.
* `PointReady` — a table whose tree is in step with its file.
* `PointAgrees` — what a SELECT by id returns.

## Main results

* `PointReady.agrees` — the answer of the tree is the answer of a scan.
-/

namespace MiniSql
open CText

/-! ## Numbers -/

theorem strtol_dropWhile (text : CStr) :
    (strtol (text.dropWhile isSpace)).value = (strtol text).value := by
  unfold strtol
  rw [List.dropWhile_idempotent]
  dsimp only
  by_cases hdigits : (signOf (text.dropWhile isSpace)).2.takeWhile Char.isDigit = []
  · rw [if_pos hdigits, if_pos hdigits]
  · rw [if_neg hdigits, if_neg hdigits]

theorem signOf_suffix (text : CStr) : (signOf text).2 <:+ text := by
  unfold signOf
  split
  · exact List.suffix_cons _ _
  · exact List.suffix_cons _ _
  · exact List.suffix_rfl

/-- A numeral that `strtol` reads to its end ends with a digit. -/
theorem getLast?_of_strtol {text : CStr} (hne : text ≠ []) (hrest : (strtol text).rest = []) :
    ∃ c, (text.dropWhile isSpace).getLast? = some c ∧ c.isDigit = true := by
  set digits := (signOf (text.dropWhile isSpace)).2 with hdigits
  have hall : digits.takeWhile Char.isDigit ≠ [] ∧ digits.dropWhile Char.isDigit = [] := by
    unfold strtol at hrest
    dsimp only at hrest
    rw [← hdigits] at hrest
    split at hrest
    · exact absurd hrest hne
    · rename_i hsome
      refine ⟨hsome, ?_⟩
      generalize (if (signOf (text.dropWhile isSpace)).1 = true then
        -(digitsValue (digits.takeWhile Char.isDigit) : ℤ)
          else digitsValue (digits.takeWhile Char.isDigit)) = v at hrest
      split at hrest
      · exact hrest
      · split at hrest <;> exact hrest
  have hdigit := List.dropWhile_eq_nil_iff.mp hall.2
  have hsome : digits ≠ [] := by
    intro hnil
    rw [hnil] at hall
    exact hall.1 rfl
  obtain ⟨pre, hpre⟩ := signOf_suffix (text.dropWhile isSpace)
  refine ⟨digits.getLast hsome, ?_, hdigit _ (List.getLast_mem hsome)⟩
  rw [← hpre, ← hdigits, List.getLast?_append, List.getLast?_eq_getLast_of_ne_nil hsome,
    Option.some_or]

/-- A literal that is read to its end as a `long` is, if at all, read as the same `int`. -/
theorem parseIntLiteral_eq {literal : CStr} {k id : ℤ}
    (hlong : parseLongValue (stripOptionalQuotes literal 256) = some k)
    (hint : parseIntLiteral literal = some id) : id = k := by
  unfold parseLongValue at hlong
  unfold parseIntLiteral at hint
  generalize stripOptionalQuotes literal 256 = text at hlong hint
  dsimp only at hlong hint
  split at hlong
  · exact absurd hlong (by simp)
  rename_i hread
  obtain ⟨hne, -, hrest⟩ := not_or.mp hread |>.imp_right not_or.mp
  obtain ⟨c, hlast, hdigit⟩ := getLast?_of_strtol hne (not_not.mp hrest)
  have htrim : trimSpace text = text.dropWhile isSpace := by
    rw [trimSpace, List.rdropWhile_eq_self_iff]
    intro hne'
    rw [List.getLast?_eq_getLast_of_ne_nil hne', Option.some.injEq] at hlast
    simp [hlast, (digit_spec hdigit).1]
  split at hint
  · exact absurd hint (by simp)
  · rw [← Option.some.inj hint, htrim, strtol_dropWhile, Option.some.inj hlong]

theorem strtol_rest_of_digits {text : CStr} (hne : text ≠ [])
    (hdigits : ∀ c ∈ text, c.isDigit = true) : (strtol text).rest = [] := by
  obtain ⟨c, s, rfl⟩ := List.exists_cons_of_ne_nil hne
  have hc := hdigits c (by simp)
  have hdrop : (c :: s).dropWhile isSpace = c :: s := by
    rw [List.dropWhile_cons, (digit_spec hc).1]
    rfl
  have hsign : signOf (c :: s) = (false, c :: s) := by
    unfold signOf
    split
    · rename_i heq
      obtain ⟨rfl, -⟩ := List.cons.inj heq
      exact absurd hc (by decide)
    · rename_i heq
      obtain ⟨rfl, -⟩ := List.cons.inj heq
      exact absurd hc (by decide)
    · rfl
  have htake : (c :: s).takeWhile Char.isDigit = c :: s := List.takeWhile_eq_self_iff.mpr hdigits
  have hrest : (c :: s).dropWhile Char.isDigit = [] := List.dropWhile_eq_nil_iff.mpr hdigits
  unfold strtol
  rw [hdrop, hsign]
  dsimp only
  rw [htake, if_neg hne, hrest]
  simp only [Bool.false_eq_true, if_false]
  split
  · rfl
  · split <;> rfl

/-- Of digits both functions read the same number. -/
theorem parseLongValue_of_parseIntLiteral {literal : CStr} {id : ℤ}
    (hdigits : ∀ c ∈ literal, c.isDigit = true) (h : parseIntLiteral literal = some id) :
    parseLongValue (stripOptionalQuotes literal 256) = some id := by
  have hstrip : ∀ c ∈ stripOptionalQuotes literal 256, c.isDigit = true := by
    intro c hc
    unfold stripOptionalQuotes at hc
    split at hc
    · exact hdigits c (List.mem_of_mem_tail (List.mem_of_mem_dropLast (List.mem_of_mem_take hc)))
    · exact hdigits c (List.mem_of_mem_take hc)
  unfold parseIntLiteral at h
  generalize stripOptionalQuotes literal 256 = text at hstrip h
  have htrim : trimSpace text = text := by
    refine trimSpace_of_trimmed ⟨fun c hc => ?_, fun c hc => ?_⟩
    · exact (digit_spec (hstrip c (List.mem_of_head? hc))).1
    · exact (digit_spec (hstrip c (List.mem_of_getLast? hc))).1
  rw [htrim] at h
  dsimp only at h
  split at h
  · exact absurd h (by simp)
  · rename_i hread
    obtain ⟨hne, hread⟩ := not_or.mp hread
    obtain ⟨herange, -⟩ := not_or.mp hread
    unfold parseLongValue
    dsimp only
    rw [if_neg]
    · exact h
    · rintro (hnil | he | hrest)
      · exact hne hnil
      · exact herange he
      · exact hrest (strtol_rest_of_digits hne hstrip)

/-- The id of a cell that is an `int` numeral. -/
theorem explicitId_of_parseLongValue {cell : CStr} {id : ℤ} (h : parseLongValue cell = some id)
    (hmin : intMin ≤ id) (hmax : id ≤ intMax) : explicitId cell = some id ∧ atoi cell = id := by
  unfold parseLongValue at h
  dsimp only at h
  split at h
  · exact absurd h (by simp)
  rename_i hread
  obtain ⟨hne, herange, hrest⟩ := not_or.mp hread |>.imp_right not_or.mp
  have hvalue := Option.some.inj h
  have hkeep : ¬ ((strtol cell).erange = true ∨ (strtol cell).rest = cell) := by
    rw [not_not.mp hrest]
    rintro (he | hnil)
    · exact herange he
    · exact hne hnil.symm
  unfold explicitId atoi
  dsimp only
  rw [if_neg hkeep, hvalue, toInt32_of_mem hmin hmax]
  exact ⟨rfl, rfl⟩

/-! ## Trees in step -/

/-- The ids of the rows. -/
def idsOf (idCol : ℕ) (rows : List Row) : List ℤ := rows.filterMap (rowId idCol)

/-- Each row has a positive number for its id, which is read to its end, and no two rows have the
same one. -/
structure IntIds (idCol : ℕ) (rows : List Row) : Prop where
  hasIds : HasIds idCol rows (idsOf idCol rows)
  read : ∀ row ∈ rows, (row[idCol]?).bind parseLongValue = rowId idCol row

/-- A tree that knows no id but these and, where it counts as filled, leads to their positions. -/
structure BPTree.InStep (tree : BPTree) (ids : List ℤ) (filled : Prop) : Prop where
  sound : tree.Sound
  keys : ∀ e ∈ tree.toList, e.1 ∈ ids
  indexes : filled → tree.Indexes ids

section Trees

variable {tree : BPTree} {ids : List ℤ} {idCol : ℕ} {rows : List Row} {row : Row} {id : ℤ}

theorem toList_emptyTree : emptyTree.toList = [] := by
  simp [emptyTree, BPTree.toList, Node.toList, leaves]

theorem indexes_emptyTree : emptyTree.Indexes [] :=
  ⟨sound_emptyTree, fun id v => by simp [toList_emptyTree]⟩

theorem BPTree.Indexes.inStep (h : tree.Indexes ids) (filled : Prop) : tree.InStep ids filled := by
  refine ⟨h.sound, fun e he => ?_, fun _ => h⟩
  obtain ⟨i, hi, -⟩ := (h.mem_iff e.1 e.2).mp he
  exact List.mem_of_getElem? hi

/-- A new id behind the others takes the next position. -/
theorem BPTree.Indexes.insert (h : tree.Indexes ids) (hnew : id ∉ ids) :
    (bptreeInsert tree id ids.length).Indexes (ids ++ [id]) := by
  obtain ⟨hwf, hcontent⟩ := wf_bptreeInsert h.sound.wf id ids.length
  have hsorted : SortedAssoc.Sorted tree.toList := h.sound.wf.ordered.sorted
  have hsorted' : SortedAssoc.Sorted (bptreeInsert tree id ids.length).toList := hwf.ordered.sorted
  refine ⟨h.sound.bptreeInsert id _, fun k v => ?_⟩
  rw [← SortedAssoc.lookup_eq_some_iff hsorted', hcontent, SortedAssoc.lookup_insert]
  by_cases hk : k = id
  · subst hk
    rw [if_pos rfl, Option.some.injEq]
    constructor
    · rintro rfl
      exact ⟨ids.length, by simp, rfl⟩
    · rintro ⟨i, hi, rfl⟩
      rcases Nat.lt_trichotomy i ids.length with hlt | rfl | hgt
      · rw [List.getElem?_append_left hlt] at hi
        exact absurd (List.mem_of_getElem? hi) hnew
      · rfl
      · rw [List.getElem?_eq_none (by simp; omega)] at hi
        exact absurd hi (by simp)
  · rw [if_neg hk, SortedAssoc.lookup_eq_some_iff hsorted, h.mem_iff]
    constructor
    · rintro ⟨i, hi, rfl⟩
      exact ⟨i, by rw [List.getElem?_append_left (List.getElem?_eq_some_iff.mp hi).1, hi], rfl⟩
    · rintro ⟨i, hi, rfl⟩
      rcases Nat.lt_or_ge i ids.length with hlt | hge
      · rw [List.getElem?_append_left hlt] at hi
        exact ⟨i, hi, rfl⟩
      · rw [List.getElem?_append_right hge, List.getElem?_singleton] at hi
        split at hi
        · exact absurd (Option.some.inj hi).symm hk
        · exact absurd hi (by simp)

theorem mem_bptreeInsert (hwf : tree.Wf) {v : ℤ} {e : ℤ × ℤ}
    (h : e ∈ (bptreeInsert tree id v).toList) : e.1 = id ∨ e ∈ tree.toList := by
  rw [(wf_bptreeInsert hwf id v).2] at h
  rcases SortedAssoc.mem_insert h with rfl | hold
  · exact .inl rfl
  · exact .inr hold

/-- **A tree stays in step with the ids when the id of a new row is inserted**: where it counts as
filled, at the position of that row. -/
theorem BPTree.InStep.insert {filled : Prop} (h : tree.InStep ids filled) (hnew : id ∉ ids) {v : ℤ}
    (hv : filled → v = ids.length) : (bptreeInsert tree id v).InStep (ids ++ [id]) filled := by
  refine ⟨h.sound.bptreeInsert id v, fun e he => ?_, fun hfilled => ?_⟩
  · rcases mem_bptreeInsert h.sound.wf he with heq | hold
    · rw [heq]
      simp
    · exact List.mem_append_left _ (h.keys e hold)
  · rw [hv hfilled]
    exact (h.indexes hfilled).insert hnew

theorem idsOf_append (hid : rowId idCol row = some id) :
    idsOf idCol (rows ++ [row]) = idsOf idCol rows ++ [id] := by
  simp [idsOf, List.filterMap_append, hid]

theorem IntIds.length (h : IntIds idCol rows) : (idsOf idCol rows).length = rows.length := by
  have hlen := congrArg List.length h.hasIds.ids_eq
  simpa using hlen.symm

theorem IntIds.append (h : IntIds idCol rows) (hread : (row[idCol]?).bind parseLongValue = some id)
    (hid : rowId idCol row = some id) (hpos : 0 < id) (hnew : id ∉ idsOf idCol rows) :
    IntIds idCol (rows ++ [row]) := by
  refine ⟨⟨?_, ?_, fun k hk => ?_⟩, fun row' hrow' => ?_⟩
  · rw [idsOf_append hid, List.map_append, List.map_append, h.hasIds.ids_eq]
    simp [hid]
  · rw [idsOf_append hid]
    exact List.nodup_append.mpr ⟨h.hasIds.nodup, by simp, by
      rintro a ha b hb rfl
      exact hnew (List.mem_singleton.mp hb ▸ ha)⟩
  · rw [idsOf_append hid] at hk
    rcases List.mem_append.mp hk with hold | hlast
    · exact h.hasIds.positive k hold
    · rw [List.mem_singleton.mp hlast]
      exact hpos
  · rcases List.mem_append.mp hrow' with hold | hlast
    · exact h.read row' hold
    · rw [List.mem_singleton.mp hlast, hread, hid]

/-- Fewer rows have fewer ids. -/
theorem IntIds.sublist {kept : List Row} (h : IntIds idCol rows) (hkept : kept.Sublist rows) :
    IntIds idCol kept := by
  have hids : (idsOf idCol kept).Sublist (idsOf idCol rows) := hkept.filterMap _
  refine ⟨⟨?_, h.hasIds.nodup.sublist hids, fun id hid => h.hasIds.positive id (hids.mem hid)⟩,
    fun row hrow => h.read row (hkept.mem hrow)⟩
  have hall : ∀ row ∈ kept, rowId idCol row ≠ none := by
    intro row hrow hnone
    obtain ⟨i, hi⟩ := List.mem_iff_getElem?.mp (hkept.mem hrow)
    obtain ⟨id, -, hid⟩ := h.hasIds.rowId_eq hi
    rw [hnone] at hid
    exact absurd hid (by simp)
  clear hids hkept
  induction kept with
  | nil => rfl
  | cons row kept ih =>
    obtain ⟨id, hid⟩ := Option.ne_none_iff_exists'.mp (hall row (by simp))
    have hrest := ih fun row hrow => hall row (by simp [hrow])
    simp only [idsOf] at hrest ⊢
    rw [List.map_cons, List.filterMap_cons_some hid, List.map_cons, hrest, hid]

theorem intIds_nil (idCol : ℕ) : IntIds idCol [] :=
  ⟨⟨rfl, List.nodup_nil, by simp [idsOf]⟩, by simp⟩

end Trees

/-! ## The answer -/

/-- The column is the `id` column of the schema, and it has the type `INT`. -/
def IntId (schema : List ColDef) (idCol : ℕ) : Prop :=
  findSchemaIndex schema "id".toList = some idCol ∧ (schema[idCol]?).map (·.type) = some .int

/-- A table without a `.bin` file whose tree, if it has one, is in step with the rows of its file. A
table without a schema has neither rows nor a tree. -/
structure PointReady (table : CStr) (st : Storage) : Prop where
  sound : st.Sound
  no_bin : st.files (binPath table) = none
  no_legacy : st.files (schemaPath .legacy table) = none ∧ st.files (tablePath .legacy table) = none
  missing : st.tableSchema table = none →
    (st.content table).getD [] = [] ∧ st.registry.find table = none
  rows : ∀ schema idCol, st.tableSchema table = some schema → IntId schema idCol →
    ∃ file rows, st.content table = some file ∧ EndsLine file ∧
      loadTableRows file schema.length = some rows ∧ IntIds idCol rows ∧
        ∀ tree, st.registry.find table = some tree →
          tree.InStep (idsOf idCol rows) (table ∈ st.indexRebuilt)

variable [CDouble]

/-- **What the tree answers is what a full scan answers**: a SELECT with `id = k` on the table, for
a column `id INT` and a literal `k`, which returns the rows that the tree leads to. -/
def PointAgrees (table : CStr) (e : Engine) : Prop :=
  ∀ schema idCol, e.storage.tableSchema table = some schema → IntId schema idCol →
    ∀ sql clause k, sql.type = .select → sql.table = table → shouldUseIdIndex sql = some clause →
      parseLongValue (stripOptionalQuotes clause.value 256) = some k →
      ∀ rs, (executeStatement e sql).1 = .rows .point rs →
        (storageSelectResult e.storage table sql).1 = some rs

section Answer

variable {e : Engine} {st : Storage} {sql : ParsedSQL} {clause : WhereClause} {table : CStr}
variable {schema : List ColDef} {idCol : ℕ} {rows : List Row} {k : ℤ}

omit [CDouble] in
theorem shouldUseIdIndex_spec (h : shouldUseIdIndex sql = some clause) :
    sql.conds = [clause] ∧ equalsIgnoreCase clause.column "id".toList = true ∧
      clause.op = "=".toList ∧ shouldUseIdRange sql = none := by
  unfold shouldUseIdIndex at h
  split at h
  · rename_i c hconds
    split at h
    · rename_i hboth
      obtain rfl := Option.some.inj h
      refine ⟨hconds, hboth.1, hboth.2, ?_⟩
      unfold shouldUseIdRange
      rw [hconds]
      dsimp only
      rw [if_neg]
      rintro ⟨-, hop⟩
      rw [hboth.2] at hop
      exact absurd hop (by decide)
    · exact absurd h (by simp)
  · exact absurd h (by simp)

/-- The way through the tree is taken where there is a tree, and where the row that it leads to can
be read. -/
theorem executeSelect_point (hclause : shouldUseIdIndex sql = some clause) {rs : RowSet}
    (h : (executeSelect e sql).1 = .rows .point rs) :
    (selectPoint (ensureIndex e.storage sql.table) sql clause).1 = some rs := by
  have hrest : ∀ st, (selectUnindexed e st sql).1 ≠ .rows .point rs := by
    intro st
    unfold selectUnindexed
    dsimp only
    split
    · simp
    · split <;> simp
  unfold executeSelect at h
  rw [(shouldUseIdIndex_spec hclause).2.2.2, hclause] at h
  dsimp only at h
  rcases hres : selectPoint (ensureIndex e.storage sql.table) sql clause with ⟨_ | rs', st⟩ <;>
    rw [hres] at h
  · exact absurd h (hrest st)
  · injection h with hpath hrs
    rw [hrs]

/-- A scan selects the rows with the id. -/
theorem scanRows_point (hidx : IntId schema idCol)
    (hload : (st.content table).bind (loadTableRows · schema.length) = some rows)
    (hids : IntIds idCol rows) (hclause : shouldUseIdIndex sql = some clause)
    (hk : parseLongValue (stripOptionalQuotes clause.value 256) = some k) :
    scanRows st (st.tableFile table) schema sql =
      some (rows.filter fun row => rowId idCol row = some k) := by
  obtain ⟨hconds, hcolumn, hop, -⟩ := shouldUseIdIndex_spec hclause
  have hcol : findSchemaIndex schema clause.column = some idCol :=
    (findSchemaIndex_congr hcolumn).trans hidx.1
  obtain ⟨col, hget, htype⟩ := Option.map_eq_some_iff.mp hidx.2
  have hmatch : ∀ row ∈ rows,
      rowMatchesDelete schema row sql = some (decide (rowId idCol row = some k)) := by
    intro row hrow
    obtain ⟨i, hi⟩ := List.mem_iff_getElem?.mp hrow
    obtain ⟨id, -, hid⟩ := hids.hasIds.rowId_eq hi
    have hread := hids.read row hrow
    rw [hid] at hread
    obtain ⟨cell, hcell, hlong⟩ := Option.bind_eq_some_iff.mp hread
    have heval : evaluateSelectClause schema row clause =
        some (decide (rowId idCol row = some k)) := by
      unfold evaluateSelectClause
      rw [hcol]
      dsimp only
      rw [hget, hcell]
      dsimp only
      rw [hop, if_neg (by decide), htype, if_neg (by decide), validateLiteralForType, hk,
        if_neg (by simp)]
      unfold compareValueByType
      dsimp only
      rw [hlong, hk]
      dsimp only
      rw [compareOrderingResult, if_pos rfl, hid]
      simp only [sign3, Option.some.injEq, decide_eq_decide, decide_eq_true_eq]
      split <;> split <;> omega
    unfold rowMatchesDelete
    rw [hconds]
    dsimp only
    rw [heval]
    rfl
  unfold scanRows
  change (st.files (st.tableFile table)).bind _ = _ at hload
  rw [hload]
  dsimp only
  rw [hconds, List.all_cons, hcol]
  exact collectMatchingRows_eq hmatch

omit [CDouble] in
/-- Where no two elements have the same key, one of them is all that has its key. -/
theorem filter_key_eq {α β : Type*} [DecidableEq β] {f : α → β} {xs : List α}
    (h : (xs.map f).Nodup) {x : α} (hx : x ∈ xs) : (xs.filter fun y => f y = f x) = [x] := by
  induction xs with
  | nil => exact absurd hx (by simp)
  | cons y ys ih =>
    obtain ⟨hy, hys⟩ := List.nodup_cons.mp h
    rcases List.mem_cons.mp hx with rfl | hmem
    · rw [List.filter_cons_of_pos (by simp), List.filter_eq_nil_iff.mpr fun z hz heq => ?_]
      exact hy (of_decide_eq_true heq ▸ List.mem_map_of_mem hz)
    · have hne : ¬ decide (f y = f x) = true := by
        intro heq
        exact hy (of_decide_eq_true heq ▸ List.mem_map_of_mem hmem)
      rw [List.filter_cons, if_neg hne]
      exact ih hys hmem

omit [CDouble] in
/-- The tree leads to the row with the id, if there is one. -/
theorem loadRow_point {tree : BPTree}
    (hload : (st.content table).bind (loadTableRows · schema.length) = some rows)
    (hids : IntIds idCol rows) (htree : tree.Indexes (idsOf idCol rows)) :
    loadRowAtIndex st (st.tableFile table) schema.length (bptreeSearch tree k) =
      some (rows.filter fun row => rowId idCol row = some k) := by
  obtain ⟨hfound, habsent⟩ := htree.maps hids.hasIds k
  by_cases hrow : ∃ row ∈ rows, rowId idCol row = some k
  · obtain ⟨row, hmem, hid⟩ := hrow
    obtain ⟨i, hi⟩ := List.mem_iff_getElem?.mp hmem
    have hnodup : (rows.map (rowId idCol)).Nodup := by
      rw [hids.hasIds.ids_eq]
      exact hids.hasIds.nodup.map (Option.some_injective _)
    rw [(hfound i).mpr ⟨row, hi, hid⟩, loadRowAtIndex_eq hload, hi, ← hid,
      filter_key_eq hnodup hmem]
    rfl
  · have hnone : ∀ row ∈ rows, rowId idCol row ≠ some k := fun row hmem hid => hrow ⟨row, hmem, hid⟩
    rw [habsent hnone, loadRowAtIndex, if_pos (by decide),
      List.filter_eq_nil_iff.mpr fun row hmem heq => hnone row hmem (of_decide_eq_true heq)]

omit [CDouble] in
/-- **A SELECT finds a tree that leads to the rows**, if it finds a tree. -/
theorem PointReady.indexes (hplain : PlainName table) (hne : table ≠ [])
    (h : PointReady table st) (hschema : st.tableSchema table = some schema)
    (hidx : IntId schema idCol) {file : CStr} (hfile : st.content table = some file)
    (hload : loadTableRows file schema.length = some rows) {tree : BPTree}
    (hfind : (ensureIndex st table).registry.find table = some tree) :
    tree.Indexes (idsOf idCol rows) := by
  obtain ⟨file', rows', hfile', -, hload', hids, htree⟩ := h.rows schema idCol hschema hidx
  obtain rfl := Option.some.inj (hfile.symm.trans hfile')
  obtain rfl := Option.some.inj (hload.symm.trans hload')
  by_cases hfresh : table ∈ st.indexRebuilt
  · rw [ensureIndex, if_pos (.inr hfresh)] at hfind
    exact (htree tree hfind).indexes hfresh
  · have hpairs : fillPairs st table schema idCol =
        numbered (fun row => (rowId idCol row).filter fun id => 0 < id) rows 0 := by
      unfold fillPairs
      rw [h.no_bin]
      have hrows : loadTableRows ((st.files (st.tableFile table)).getD []) schema.length =
          some rows := by
        change loadTableRows ((st.content table).getD []) schema.length = _
        rw [hfile]
        exact hload
      exact numbered_records (records_of_getD hrows) 0
    rw [ensureIndex_find hplain.1 (h.sound.coherent table hplain) hne hfresh, hschema,
      Option.bind_some, hidx.1, Option.map_some] at hfind
    dsimp only at hfind
    obtain ⟨tree₀, hget, rfl⟩ := Option.map_eq_some_iff.mp hfind
    rcases hres : indexRegistryGetOrCreate st table with ⟨found, st₁⟩
    rw [hres] at hget
    obtain rfl : found = some tree₀ := hget
    have hbase := (indexRegistryGetOrCreate_find hres).2 tree₀ rfl
    rw [hpairs]
    cases hold : st.registry.find table with
    | none =>
      rw [hold, Option.getD_none] at hbase
      rw [hbase]
      exact indexes_filled hids.hasIds
    | some tree' =>
      rw [hold, Option.getD_some] at hbase
      rw [hbase]
      obtain ⟨hsound, hkeys, -⟩ := htree tree' hold
      exact hsound.indexes_filled hkeys hids.hasIds

/-- **The answer of the tree is the answer of a scan.** -/
theorem PointReady.agrees (hplain : PlainName table) (h : PointReady table e.storage) :
    PointAgrees table e := by
  intro schema idCol hschema hidx sql clause k htype htable hclause hk rs hrs
  subst htable
  unfold executeStatement at hrs
  rw [htype] at hrs
  have hpoint := executeSelect_point hclause hrs
  unfold selectPoint at hpoint
  cases hfind : indexRegistryGet (ensureIndex e.storage sql.table) sql.table with
  | none =>
    rw [hfind] at hpoint
    exact absurd hpoint (by simp)
  | some tree =>
    cases hint : parseIntLiteral clause.value with
    | none =>
      rw [hfind, hint] at hpoint
      exact absurd hpoint (by simp)
    | some id =>
      rw [hfind, hint] at hpoint
      dsimp only at hpoint
      obtain rfl := parseIntLiteral_eq hk hint
      obtain ⟨hs, hfiles⟩ := ensureIndex_table h.sound hplain
      have hsame := sameTable_of_files hfiles sql.table
      unfold storageSelectResultByRowIndex at hpoint
      unfold storageSelectResult
      rw [(selectBy_table (fun _ => rfl) sql hs hplain).2.2] at hpoint
      rw [(selectBy_table (fun _ => rfl) sql h.sound hplain).2.2]
      by_cases hne : sql.table = []
      · rw [if_pos hne] at hpoint
        exact absurd hpoint (by simp)
      obtain ⟨file, rows, hfile, -, hrows, hids, -⟩ := h.rows schema idCol hschema hidx
      have htree := h.indexes hplain hne hschema hidx hfile hrows hfind
      have hload : (e.storage.content sql.table).bind (loadTableRows · schema.length) =
          some rows := by
        rw [hfile]
        exact hrows
      rw [if_neg hne, hsame.tableSchema, hschema, Option.bind_some] at hpoint
      rw [if_neg hne, hschema, Option.bind_some, scanRows_point hidx hload hids hclause hk]
      rw [← hsame.content] at hload
      rw [loadRow_point hload hids htree] at hpoint
      exact hpoint

end Answer

end MiniSql
