import MiniSql.PointSelect.Runs
import MiniSql.RouterDict

/-!
# The answers of lookups

A lookup in the dictionary is a SELECT that goes through the tree where it is about an id, and
reads the table otherwise. Its answer depends on nothing but the rows that match it, for an id as long
as the tree is in step, so a statement changes the answer only where it changes these rows.

## Main definitions

* `DictQuery.Determined` — a lookup whose statement does not depend on fresh memory.
* `DictReady`, `TreeReady` — an engine with a dictionary that can be read, and one with a tree for it
  that can be searched.
* `rowsBehind`, `KeepsMatches` — the rows behind a statement.

## Main results

* `readDict_forgetPath` — what a lookup returns.
* `Dictionary.next`, `DictReady.next`, `TreeReady.next` — what a statement does to the dictionary.
* `scanAnswer_next` — the answers behind a statement.
-/

namespace MiniSql
open CText

/-! ## Answers -/

/-- An answer without the way in which its rows were found. -/
def Outcome.forgetPath : Outcome → Outcome
  | .rows _ rs => .rows .scan rs
  | outcome => outcome

def Reply.forgetPath : Reply → Reply
  | .answer ok outcomes => .answer ok (outcomes.map Outcome.forgetPath)
  | reply => reply

@[simp] theorem Outcome.ok_forgetPath (outcome : Outcome) : outcome.forgetPath.ok = outcome.ok := by
  cases outcome <;> rfl

/-- The statement of a lookup, as it is parsed where fresh memory holds NUL bytes. -/
def DictQuery.statement (query : DictQuery) : Option ParsedSQL := parseSql .zero query.text

/-- The parser reads no byte that it has not written. -/
def DictQuery.Determined (query : DictQuery) : Prop :=
  ∀ mem, parseSql mem query.text = query.statement

/-- A lookup of an id. -/
def DictQuery.ById : DictQuery → Prop
  | .id _ => True
  | _ => False

/-- The statement of a lookup: a SELECT on the dictionary whose first condition is an equation. It is
about the id only if the lookup is, and then with a number. -/
structure ParsedSQL.IsLookup (sql : ParsedSQL) (byId : Prop) : Prop where
  type : sql.type = .select
  table : sql.table = dictionaryName
  values : sql.values = [] ∧ sql.sets = []
  first : ∃ clause, sql.conds.head? = some clause ∧ clause.op = ['='] ∧
    (equalsIgnoreCase clause.column "id".toList = true →
      byId ∧ ∀ c ∈ clause.value, c.isDigit = true)

/-- The parser on the tokens of a lookup. -/
theorem isLookup_parseSelect {byId : Prop} {mem : Uninit} {ts cols : List CStr}
    {name value : CStr} {rest : List CStr}
    (hcols : selectColumnsLoop ts.length ts = (cols, "FROM".toList ::
      dictionaryName :: "WHERE".toList :: name :: ['='] :: value :: rest))
    (hname : name.length < 63)
    (hid : equalsIgnoreCase name "id".toList = true →
      byId ∧ ∀ c ∈ cField 256 value (mem.whereValue 0) [], c.isDigit = true) :
    (parseSelect mem ts parsedNew).IsLookup byId := by
  have hfrom : matchTok "FROM".toList ("FROM".toList :: dictionaryName :: "WHERE".toList :: name ::
      ['='] :: value :: rest) =
        some (dictionaryName :: "WHERE".toList :: name :: ['='] :: value :: rest) := rfl
  have hwhere : matchTok "WHERE".toList ("WHERE".toList :: name :: ['='] :: value :: rest) =
      some (name :: ['='] :: value :: rest) := rfl
  have hhead := head?_parseWhereLoop mem (rest.length + 2) name value rest
  unfold parseSelect
  rw [hcols]
  dsimp only
  rw [hfrom]
  dsimp only [List.head?_cons, Option.getD_some, List.tail_cons]
  unfold parseOptWhere
  rw [hwhere]
  dsimp only
  unfold parseWhere
  dsimp only
  obtain ⟨order, horder⟩ := parseOrderBy_fields
    (parseWhereLoop mem (name :: ['='] :: value :: rest).length (name :: ['='] :: value :: rest) []
      []).2.2 _
  rw [horder]
  obtain ⟨limit, hlimit⟩ := parseLimit_fields _ _
  rw [hlimit]
  refine ⟨rfl, rfl, ⟨rfl, rfl⟩, _, hhead, rfl, fun heq => hid ?_⟩
  change equalsIgnoreCase (cField 64 name _ _) _ = true at heq
  rwa [cField_of_lt hname] at heq

theorem tokenize_dictKoreanText {a : CStr} (ha : '\'' ∉ a) (rest : CStr) :
    tokenize ("SELECT english FROM dictionary WHERE korean = '".toList ++ a ++ '\'' :: rest) =
      ["SELECT".toList, "english".toList, "FROM".toList, dictionaryName, "WHERE".toList,
        "korean".toList, ['='], a] ++ tokenize rest := by
  have hquoted := tokenize_quoted (.inl rfl) ha rest
  simp [tokenize_cons 'S', tokenize_cons 'k', tokenize_cons 'F', tokenize_cons 'd',
    tokenize_cons 'W', tokenize_cons 'e', tokenize_cons '=', tokenize_cons ' ', tokenStep,
    isSpace, isSingle, isWordChar, dictionaryName, hquoted]

theorem tokenize_dictIdText {id : CStr} (hid : isPositiveIntText id = true) :
    tokenize (dictIdText id) = ["SELECT".toList, "english".toList, [','], "korean".toList,
      "FROM".toList, dictionaryName, "WHERE".toList, "id".toList, ['='], id] := by
  have hdigit := fun c (hc : c ∈ id) => isDigit_of_isPositiveIntText hid hc
  have hne : id ≠ [] := by
    rintro rfl
    exact absurd hid (by decide)
  have hword : tokenize id = [id] := by
    have hminus : ¬ ['-', '-'] <+: id := by
      intro hprefix
      have hmem : '-' ∈ id := hprefix.subset (by simp)
      exact absurd (hdigit _ hmem) (by decide)
    have htok := @tokenize_word id hne (fun c hc => by
      have := hdigit c hc
      simp [isWordChar, Char.isAlphanum, this]) hminus [] (by simp)
    rwa [List.append_nil] at htok
  unfold dictIdText
  simp [tokenize_cons 'S', tokenize_cons 'k', tokenize_cons 'F', tokenize_cons 'd',
    tokenize_cons 'W', tokenize_cons 'e', tokenize_cons '=', tokenize_cons ' ', tokenize_cons ',',
    tokenize_cons 'i', tokenStep, isSpace, isSingle, isWordChar, dictionaryName, hword]

/-- **The statement of every lookup is a lookup.** -/
theorem parseSql_lookup {query : DictQuery} (hvalid : query.Valid) (mem : Uninit) :
    ∃ sql, parseSql mem query.text = some sql ∧ sql.IsLookup query.ById := by
  have hparse : ∀ ts, tokenize query.text = "SELECT".toList :: ts →
      (parseSelect mem ts parsedNew).IsLookup query.ById →
        ∃ sql, parseSql mem query.text = some sql ∧ sql.IsLookup query.ById := by
    intro ts hts hlookup
    refine ⟨_, ?_, hlookup⟩
    rw [parseSql, hts]
    rfl
  cases query with
  | english text =>
    obtain ⟨a, rest, ha, hshape⟩ := exists_literal_end text.1 []
    have htext : (DictQuery.english text).text =
        "SELECT korean FROM dictionary WHERE english = '".toList ++ a ++ '\'' :: rest :=
      (List.append_assoc _ _ _).trans ((congrArg _ hshape).trans (List.append_assoc _ _ _).symm)
    refine hparse _ (htext ▸ tokenize_dictSql ha rest) ?_
    refine @isLookup_parseSelect _ mem _ ["korean".toList] _ _ _ rfl (by decide) fun hid => ?_
    exact absurd hid (by decide)
  | id text =>
    refine hparse _ (tokenize_dictIdText hvalid) ?_
    refine @isLookup_parseSelect _ mem _ ["english".toList, "korean".toList] _ _ _ rfl
      (by decide) fun _ => ⟨trivial, fun c hc => ?_⟩
    rw [cField_of_lt (by have := text.2.1; omega)] at hc
    exact isDigit_of_isPositiveIntText hvalid hc
  | korean text =>
    obtain ⟨a, rest, ha, hshape⟩ := exists_literal_end text.1 []
    have htext : (DictQuery.korean text).text =
        "SELECT english FROM dictionary WHERE korean = '".toList ++ a ++ '\'' :: rest :=
      (List.append_assoc _ _ _).trans ((congrArg _ hshape).trans (List.append_assoc _ _ _).symm)
    refine hparse _ (htext ▸ tokenize_dictKoreanText ha rest) ?_
    refine @isLookup_parseSelect _ mem _ ["english".toList] _ _ _ rfl (by decide) fun hid => ?_
    exact absurd hid (by decide)

theorem parseSql_dictIdText {id : Param 64} (hvalid : isPositiveIntText id.1 = true)
    (mem : Uninit) :
    parseSql mem (dictIdText id.1) = some { parsedNew with
      type := .select, table := dictionaryName, columns := ["english".toList, "korean".toList],
      conds := [⟨"id".toList, ['='], id.1, []⟩] } := by
  have hclause : whereClause mem 0 "id".toList ['='] id.1 = ⟨"id".toList, ['='], id.1, []⟩ := by
    have hvalue : cField 256 id.1 (mem.whereValue 0) [] = id.1 :=
      cField_of_lt (by have := id.2.1; omega)
    unfold whereClause
    dsimp only
    rw [hvalue]
    rfl
  rw [← hclause, parseSql, tokenize_dictIdText hvalid]
  rfl

/-- Nothing is left open by a number. -/
theorem determined_id {id : Param 64} (hvalid : isPositiveIntText id.1 = true) :
    (DictQuery.id id).Determined := by
  intro mem
  exact (parseSql_dictIdText hvalid mem).trans (parseSql_dictIdText hvalid .zero).symm

/-- Nothing is left open by a text without quotes that leaves room for its terminator. -/
theorem determined_english {english : Param 256} (hquote : '\'' ∉ english.1)
    (hshort : english.1.length < 255) : (DictQuery.english english).Determined := by
  have hparse : ∀ mem, parseSql mem (dictText english.1) = some (dictStatement english.1) := by
    intro mem
    have hvalue : cField 256 english.1 (mem.whereValue 0) [] = english.1 :=
      cField_of_lt (by omega)
    rw [parseSql_dictText hquote, whereClause_english, hvalue]
    rfl
  intro mem
  exact (hparse mem).trans (hparse .zero).symm

section Answer

variable {sql : ParsedSQL} {e : Engine} {st : Storage} {byId : Prop}

theorem ParsedSQL.IsLookup.paths (h : sql.IsLookup byId) :
    shouldUseIdRange sql = none ∧ shouldUseTriePrefix sql = none := by
  obtain ⟨clause, hhead, hop, -⟩ := h.first
  unfold shouldUseIdRange shouldUseTriePrefix
  rcases hconds : sql.conds with _ | ⟨c, _ | ⟨d, cs⟩⟩
  · exact ⟨rfl, rfl⟩
  · rw [hconds] at hhead
    obtain rfl := Option.some.inj hhead
    dsimp only
    rw [hop]
    refine ⟨if_neg ?_, if_neg ?_⟩
    · rintro ⟨-, hbetween⟩
      exact absurd hbetween (by decide)
    · rintro ⟨-, -, hlike, -⟩
      exact absurd hlike (by decide)
  · exact ⟨rfl, rfl⟩

/-- Only a lookup of an id goes through the tree. -/
theorem ParsedSQL.IsLookup.digits (h : sql.IsLookup byId) {clause : WhereClause}
    (hclause : shouldUseIdIndex sql = some clause) :
    byId ∧ ∀ c ∈ clause.value, c.isDigit = true := by
  obtain ⟨first, hhead, -, hdigits⟩ := h.first
  obtain ⟨hconds, hcolumn, -⟩ := shouldUseIdIndex_spec hclause
  rw [hconds] at hhead
  obtain rfl := Option.some.inj hhead
  exact hdigits hcolumn

variable [CDouble]

/-- What both `storage_select_result` and a scan answer. -/
theorem scanAnswer_of_select (hs : st.Sound) (hplain : PlainName sql.table) {rs : RowSet}
    (h : (storageSelectResult st sql.table sql).1 = some rs) :
    scanAnswer st sql = .rows .scan rs := by
  unfold storageSelectResult at h
  rw [(selectBy_table (fun _ => rfl) sql hs hplain).2.2] at h
  split at h
  · exact absurd h (by simp)
  · exact scanAnswer_rows h

/-- The dictionary has these rows, in a file that ends its last line. -/
structure Dictionary (st : Storage) (schema : List ColDef) (rows : List Row) : Prop where
  rows : st.dictionaryRows = some (schema, rows)
  line : ∀ file ∈ st.content dictionaryName, EndsLine file

/-- An engine that is ready and has a dictionary. -/
structure DictReady (e : Engine) : Prop where
  serves : Serves e
  dictionary : ∃ schema rows, Dictionary e.storage schema rows

/-- The tree of the dictionary is in step with its rows, and its ids are of the type `int`. -/
structure TreeReady (e : Engine) : Prop where
  point : PointReady dictionaryName e.storage
  id : ∃ schema idCol, e.storage.tableSchema dictionaryName = some schema ∧ IntId schema idCol

theorem forgetPath_scanAnswer : (scanAnswer st sql).forgetPath = scanAnswer st sql := by
  unfold scanAnswer
  split <;> rfl

/-- The tree answers a lookup of an id. -/
theorem scanAnswer_of_point (hs : e.storage.Sound) (h : TreeReady e) (hsql : sql.IsLookup byId)
    {clause : WhereClause} (hid : shouldUseIdIndex sql = some clause) (rs : RowSet)
    (hpoint : (selectPoint (ensureIndex e.storage sql.table) sql clause).1 = some rs)
    (hexec : (executeSelect e sql).1 = .rows .point rs) :
    scanAnswer e.storage sql = .rows .scan rs := by
  have hplain : PlainName sql.table := hsql.table ▸ by decide
  obtain ⟨schema, idCol, hschema, hidx⟩ := h.id
  have hk : ∃ k, parseLongValue (stripOptionalQuotes clause.value 256) = some k := by
    unfold selectPoint at hpoint
    split at hpoint
    · rename_i hint
      exact ⟨_, parseLongValue_of_parseIntLiteral (hsql.digits hid).2 hint⟩
    · exact absurd hpoint (by simp)
  obtain ⟨k, hk⟩ := hk
  have hstmt : executeStatement e sql = executeSelect e sql := by
    unfold executeStatement
    rw [hsql.type]
  have hscan := h.point.agrees (by decide) schema idCol hschema hidx sql clause k hsql.type
    hsql.table hid hk rs (hstmt ▸ hexec)
  rw [← hsql.table] at hscan
  exact scanAnswer_of_select hs hplain hscan

/-- **Whichever way its rows are found, a lookup answers what a scan does.** -/
theorem executeSelect_lookup (hs : e.storage.Sound) (htree : byId → TreeReady e)
    (hsql : sql.IsLookup byId) :
    (executeSelect e sql).1.forgetPath = scanAnswer e.storage sql := by
  have hplain : PlainName sql.table := hsql.table ▸ by decide
  have hne : sql.table ≠ [] := hsql.table ▸ by decide
  obtain ⟨hrange, htrie⟩ := hsql.paths
  cases hid : shouldUseIdIndex sql with
  | none =>
    rw [executeSelect_scan hrange hid htrie hplain.1 hne (hs.coherent _ hplain),
      forgetPath_scanAnswer]
  | some clause =>
    obtain ⟨hs₁, hfiles₁⟩ := ensureIndex_table hs hplain
    obtain ⟨hfiles₂, hsound₂⟩ :=
      @onlyReads_selectPoint _ (ensureIndex e.storage sql.table) sql hplain.1 clause
    have hs₂ := hsound₂ hs₁
    have hexec := scanAnswer_of_point hs (htree (hsql.digits hid).1) hsql hid
    unfold executeSelect at hexec ⊢
    rw [hrange, hid] at hexec ⊢
    dsimp only at hexec ⊢
    rcases hpoint : selectPoint (ensureIndex e.storage sql.table) sql clause with ⟨_ | rs, st₂⟩ <;>
      rw [hpoint] at hexec hs₂ hfiles₂ <;> dsimp only
    · rw [selectUnindexed_scan htrie hplain.1 hne (hs₂.coherent _ hplain), forgetPath_scanAnswer]
      exact scanAnswer_congr (sameTable_of_files (hfiles₂.trans hfiles₁) _)
    · exact (hexec rs rfl rfl).symm

omit [CDouble] in
theorem DictQuery.statement_spec {query : DictQuery} (hvalid : query.Valid) :
    ∃ sql, query.statement = some sql ∧ sql.IsLookup query.ById := parseSql_lookup hvalid .zero

/-- **What a lookup returns.** -/
theorem readDict_forgetPath (h : DictReady e) {query : DictQuery}
    (htree : query.ById → TreeReady e) (hvalid : query.Valid) (hdet : query.Determined)
    (hsql : query.statement = some sql) (mem : ℕ → Uninit) :
    (readDict mem e query).1.forgetPath =
      .answer (scanAnswer e.storage sql).ok [scanAnswer e.storage sql] := by
  have hparse : parseSql (mem 0) query.text = some sql := (hdet (mem 0)).trans hsql
  obtain ⟨sql', hparse', hlookup⟩ := parseSql_lookup hvalid (mem 0)
  obtain rfl := Option.some.inj (hparse.symm.trans hparse')
  have hexec : execOne e (mem 0) query.text = executeSelect e sql := by
    unfold execOne
    rw [hparse]
    dsimp only
    unfold executeStatement
    rw [hlookup.type]
  have hanswer := executeSelect_lookup h.serves.sound htree hlookup
  rw [readDict_eq h.serves.ready hvalid, hexec]
  change Reply.answer _ [(executeSelect e sql).1.forgetPath] = _
  rw [hanswer, ← hanswer, Outcome.ok_forgetPath]

/-! ## Rows behind a statement -/

/-- The rows of the dictionary once a statement has run. -/
def rowsBehind (st : Storage) (sql : ParsedSQL) (rows : List Row) : List Row :=
  if sql.table = dictionaryName then
    match sql.type with
    | .insert => rows ++ (appendedRow st sql.table sql.columns sql.values).toList
    | .delete => (deletedRows st sql.table sql).getD rows
    | .update => (updatedRows st sql.table sql).getD rows
    | _ => rows
  else rows

omit [CDouble] in
/-- A dictionary that can be read has a file. -/
theorem Dictionary.file {schema : List ColDef} {rows : List Row} (h : Dictionary st schema rows) :
    ∃ file, st.content dictionaryName = some file ∧ EndsLine file ∧
      st.tableSchema dictionaryName = some schema ∧
        loadTableRows file schema.length = some rows := by
  obtain ⟨hschema, hload⟩ := dictionaryRows_eq_some.mp h.rows
  obtain ⟨file, hfile, hload⟩ := Option.bind_eq_some_iff.mp hload
  exact ⟨file, hfile, h.line file hfile, hschema, hload⟩

section Rows

variable {st' : Storage} {schema : List ColDef} {rows : List Row}

omit [CDouble] in
theorem Dictionary.sameTable (h : Dictionary st schema rows)
    (hsame : SameTable dictionaryName st st') : Dictionary st' schema rows :=
  ⟨hsame.dictionaryRows.trans h.rows, hsame.content ▸ h.line⟩

omit [CDouble] in
/-- A table that was written anew, or not at all. -/
theorem Dictionary.rewritten {kept : Option (List Row)} (h : Dictionary st schema rows)
    (hschema : st'.tableSchema dictionaryName = st.tableSchema dictionaryName)
    (hcontent : st'.content dictionaryName =
      (kept.map fun rows => rows.flatMap writeCsvRow).or (st.content dictionaryName))
    (hok : ∀ rows ∈ kept, ∀ row ∈ rows, RowOk schema.length row) :
    Dictionary st' schema (kept.getD rows) := by
  obtain ⟨hschema₀, hload⟩ := dictionaryRows_eq_some.mp h.rows
  cases kept with
  | none =>
    rw [Option.map_none, Option.none_or] at hcontent
    refine ⟨dictionaryRows_eq_some.mpr ⟨hschema.trans hschema₀, ?_⟩, hcontent ▸ h.line⟩
    rw [hcontent, hload]
    rfl
  | some kept =>
    rw [Option.map_some, Option.some_or] at hcontent
    refine ⟨dictionaryRows_eq_some.mpr ⟨hschema.trans hschema₀, ?_⟩, fun file hfile => ?_⟩
    · rw [hcontent, Option.bind_some, Option.getD_some]
      exact loadTableRows_flatMap (tableSchema_ne_nil hschema₀) (hok kept rfl)
    · obtain rfl := Option.some.inj (hcontent.symm.trans hfile)
      exact endsLine_flatMap kept

omit [CDouble] in
theorem Dictionary.rowOk_rewritten {plan : List ColDef → Option RowPlan} (hplan : KeepsRows plan)
    (h : Dictionary st schema rows) {kept : List Row}
    (hkept : rewrittenRows st dictionaryName plan = some kept) :
    ∀ row ∈ kept, RowOk schema.length row := by
  obtain ⟨file, hfile, -, hschema, hload⟩ := h.file
  obtain ⟨rowPlan, hrowPlan, hkept⟩ := rewrittenRows_eq_some hschema hfile hload hkept
  exact hplan hrowPlan (rowOk_of_loadTableRows hload) hkept

theorem Dictionary.delete (h : Dictionary st schema rows) (hs : st.Sound) (sql : ParsedSQL) :
    Dictionary (storageDelete st dictionaryName sql).2 schema
      ((deletedRows st dictionaryName sql).getD rows) := by
  obtain ⟨-, -, hschema', hresult⟩ :=
    storageDelete_table hs (by decide : PlainName dictionaryName) sql
  refine h.rewritten hschema' ?_ fun kept hkept => ?_
  · cases hdel : deletedRows st dictionaryName sql <;> rw [hdel] at hresult <;> exact hresult.2
  · unfold deletedRows at hkept
    split at hkept
    · exact h.rowOk_rewritten (keepsRows_deletePlan sql) hkept
    · exact absurd hkept (by simp)

theorem Dictionary.update (h : Dictionary st schema rows) (hs : st.Sound)
    (hsets : ∀ set ∈ sql.sets, NulFree set.value) :
    Dictionary (storageUpdate st dictionaryName sql).2 schema
      ((updatedRows st dictionaryName sql).getD rows) := by
  obtain ⟨-, -, hschema', hresult⟩ :=
    storageUpdate_table hs (by decide : PlainName dictionaryName) sql
  refine h.rewritten hschema' ?_ fun kept hkept => ?_
  · cases hupd : updatedRows st dictionaryName sql <;> rw [hupd] at hresult <;> exact hresult.2
  · unfold updatedRows at hkept
    split at hkept
    · exact h.rowOk_rewritten (keepsRows_updatePlan hsets) hkept
    · exact absurd hkept (by simp)

omit [CDouble] in
theorem Dictionary.insert (h : Dictionary st schema rows) (hs : st.Sound)
    {columns values : List CStr} (hvalues : ∀ v ∈ values, NulFree v) :
    Dictionary (storageInsert st dictionaryName columns values).2 schema
      (rows ++ (appendedRow st dictionaryName columns values).toList) := by
  obtain ⟨-, -, hschema', hcontent', -⟩ :=
    storageInsert_table hs (by decide : PlainName dictionaryName) columns values
  obtain ⟨file, hfile, hline, hschema, hload⟩ := h.file
  rw [hfile] at hcontent'
  cases happ : appendedRow st dictionaryName columns values with
  | none =>
    rw [happ] at hcontent'
    rw [Option.toList_none, List.append_nil]
    refine ⟨dictionaryRows_eq_some.mpr ⟨hschema'.trans hschema, ?_⟩, fun file' hfile' => ?_⟩
    · rw [hcontent']
      exact hload
    · obtain rfl := Option.some.inj (hcontent'.symm.trans hfile')
      exact hline
  | some row =>
    rw [happ] at hcontent'
    refine ⟨dictionaryRows_eq_some.mpr ⟨hschema'.trans hschema, ?_⟩, fun file' hfile' => ?_⟩
    · rw [hcontent']
      exact loadTableRows_append (hline.terminated _) hload (tableSchema_ne_nil hschema)
        (rowOk_insertedRow hvalues (insertedRow_of_appended hschema happ))
    · obtain rfl := Option.some.inj (hcontent'.symm.trans hfile')
      exact endsLine_writeCsvRow file row

omit [CDouble] in
/-- Rows in the old directory are the table's only where its schema is there, too. -/
theorem schemaPlace_of_tablePlace {table : CStr} (hschema : st.tableSchema table ≠ none)
    (hplace : st.tablePlace table = .legacy) : st.schemaPlace table = .legacy := by
  cases hnested : st.schemaPlace table with
  | legacy => rfl
  | nested =>
    refine absurd ?_ hschema
    rw [Storage.tableSchema, Storage.schemaFile, hnested, loadSchema,
      (tablePlace_eq_legacy.mp hplace).2.1]
    rfl

omit [CDouble] in
theorem Dictionary.create (h : Dictionary st schema rows) (hs : st.Sound) {colDefs : List CStr}
    (hstep : CreateInStep st dictionaryName colDefs) :
    Dictionary (storageCreate st dictionaryName colDefs).2 schema rows := by
  obtain ⟨file, hfile, hline, hschema, hload⟩ := h.file
  by_cases hargs : dictionaryName ≠ [] ∧ colDefs ≠ []
  · obtain ⟨text, htext, hparse⟩ := Option.bind_eq_some_iff.mp (hstep hargs.2 schema hschema)
    have hplace : st.tablePlace dictionaryName = .legacy →
        st.schemaPlace dictionaryName = .legacy :=
      schemaPlace_of_tablePlace (by rw [hschema]; simp)
    obtain ⟨-, hschema', hcontent'⟩ := storageCreate_ok hs (by decide) hargs htext hplace
    rw [hfile] at hcontent'
    refine ⟨dictionaryRows_eq_some.mpr ⟨hschema'.trans hparse, ?_⟩, fun file' hfile' => ?_⟩
    · rw [hcontent']
      exact hload
    · obtain rfl := Option.some.inj (hcontent'.symm.trans hfile')
      exact hline
  · have hbad : dictionaryName = [] ∨ colDefs = [] ∨ CreateFaults.none.mkdir = true := by tauto
    rw [storageCreate, storageCreateWith, if_pos hbad]
    exact h

theorem Dictionary.executeWrite {table : CStr} {result : Status × Storage}
    (h : Dictionary result.2 schema rows) (hs : result.2.Sound) :
    Dictionary (executeWrite e table result).2.storage schema rows := by
  obtain ⟨paths, hpaths, -⟩ :=
    @refreshAfterWrite_sound _ { e with storage := result.2 } hs table result.1
  refine h.sameTable (sameTable_of_files ?_ _)
  unfold MiniSql.executeWrite
  dsimp only
  rw [hpaths]

/-- What `parse_sql` makes of a text: a name that fits its array, and C strings. -/
def ParsedSQL.Parsed (sql : ParsedSQL) : Prop :=
  sql.table.length ≤ nameMax ∧ (∀ v ∈ sql.values, NulFree v) ∧ ∀ set ∈ sql.sets, NulFree set.value

/-- No table is written by a name with a directory in it. -/
def ParsedSQL.WritesPlain (sql : ParsedSQL) : Prop :=
  sql.type ≠ .select → sql.type ≠ .unknown → '/' ∉ sql.table

/-- **A CREATE leaves the columns of the dictionary.** -/
def KeepsColumns (st : Storage) (sql : ParsedSQL) : Prop :=
  sql.table = dictionaryName → sql.type = .create → CreateInStep st dictionaryName sql.colDefs

/-- **The dictionary behind a statement.** -/
theorem Dictionary.next (h : Dictionary e.storage schema rows) (hs : e.storage.Sound)
    (hsql : sql.Parsed) (hslash : sql.WritesPlain) (hcolumns : KeepsColumns e.storage sql) :
    Dictionary (executeStatement e sql).2.storage schema (rowsBehind e.storage sql rows) := by
  obtain ⟨hshort, hvalues, hsets⟩ := hsql
  by_cases hlooks : sql.type = .select ∨ sql.type = .unknown
  · -- nothing is written
    have hfiles : (executeStatement e sql).2.storage.files = e.storage.files := by
      unfold executeStatement
      rcases hlooks with htype | htype <;> rw [htype]
      obtain ⟨st, hst, hreads⟩ := @executeSelect_reads _ e sql hshort
      dsimp only
      rw [hst]
      exact hreads.files
    have hbehind : rowsBehind e.storage sql rows = rows := by
      unfold rowsBehind
      rcases hlooks with htype | htype <;> rw [htype] <;> exact ite_self _
    rw [hbehind]
    exact h.sameTable (sameTable_of_files hfiles _)
  have hname : PlainName sql.table :=
    ⟨hshort, hslash (fun htype => hlooks (.inl htype)) fun htype => hlooks (.inr htype)⟩
  unfold rowsBehind
  by_cases heq : sql.table = dictionaryName
  · rw [if_pos heq]
    rw [heq] at hname
    unfold executeStatement
    cases htype : sql.type with
    | create =>
      dsimp only
      rw [heq]
      exact (h.create hs (hcolumns heq htype)).executeWrite (sound_storageCreate hs hname _)
    | insert =>
      dsimp only
      rw [heq]
      exact (h.insert hs hvalues).executeWrite (storageInsert_table hs hname _ _).1
    | delete =>
      dsimp only
      rw [heq]
      exact (h.delete hs sql).executeWrite (storageDelete_table hs hname sql).1
    | update =>
      dsimp only
      rw [heq]
      exact (h.update hs hsets).executeWrite (storageUpdate_table hs hname sql).1
    | unknown => exact absurd (.inr htype) hlooks
    | select => exact absurd (.inl htype) hlooks
  · rw [if_neg heq]
    obtain ⟨st', paths, htouch, -, hnext, -⟩ := executeStatement_touches hs hname
    rw [hnext]
    have hother := h.sameTable (htouch.view hname (by decide) (Ne.symm heq))
    exact hother.sameTable (@sameTable_of_files st' { st' with pathCache := paths } rfl _)

end Rows

theorem DictReady.of_serves (h : DictReady e) (hsql : sql.Parsed) (hslash : sql.WritesPlain)
    (hcolumns : KeepsColumns e.storage sql) (hserves : Serves (executeStatement e sql).2) :
    DictReady (executeStatement e sql).2 := by
  obtain ⟨schema, rows, hrows⟩ := h.dictionary
  exact ⟨hserves, schema, _, hrows.next h.serves.sound hsql hslash hcolumns⟩

theorem KeepsWords.writesPlain (h : KeepsWords st sql) : sql.WritesPlain :=
  fun hselect hunknown => (h hselect hunknown).1

/-- **A statement that keeps the words words, and the columns, keeps the dictionary.** -/
theorem DictReady.next (h : DictReady e) (hsql : sql.Parsed) (hwords : KeepsWords e.storage sql)
    (hcolumns : KeepsColumns e.storage sql) : DictReady (executeStatement e sql).2 :=
  h.of_serves hsql hwords.writesPlain hcolumns
    (serves_executeStatement h.serves hsql.1 hsql.2.1 hsql.2.2 hwords).1

/-- **A statement that keeps the tree in step keeps a tree that can be searched.** -/
theorem TreeReady.next (h : TreeReady e) (hdict : DictReady e) (hsql : sql.Plain)
    (hcolumns : KeepsColumns e.storage sql) (hkeeps : KeepsInStep dictionaryName e sql) :
    TreeReady (executeStatement e sql).2 := by
  obtain ⟨schema, rows, hrows⟩ := hdict.dictionary
  obtain ⟨schema', idCol, hschema, hidx⟩ := h.id
  obtain rfl := Option.some.inj (hschema.symm.trans (dictionaryRows_eq_some.mp hrows.rows).1)
  have hbehind := hrows.next hdict.serves.sound ⟨hsql.1.1, hsql.2⟩ (fun _ _ => hsql.1.2) hcolumns
  exact ⟨h.point.next (by decide) hsql hkeeps, schema', idCol,
    (dictionaryRows_eq_some.mp hbehind.rows).1, hidx⟩

omit [CDouble] in
/-- An INSERT that appends a row without an id of its own succeeds. -/
theorem storageInsert_auto_ok {table : CStr} (hshort : table.length ≤ nameMax)
    (hc : st.Coherent table) {columns values : List CStr} {row : Row}
    (happ : appendedRow st table columns values = some row) (hcolumns : columns ≠ [])
    (hid : userHasId values.length columns ≠ .ok true) :
    (storageInsert st table columns values).1 = .ok () := by
  obtain ⟨schema, hschema, hrow⟩ := appendedRow_eq_some happ
  have hargs : ¬ (table = [] ∨ values = []) := by
    intro hargs
    unfold appendedRow at happ
    rw [if_pos hargs] at happ
    exact absurd happ (by simp)
  obtain ⟨paths, schemas, hopen, -⟩ := openTable_view hshort hc
  unfold storageInsert
  rw [if_neg hargs, hopen, hschema, Option.map_some]
  dsimp only
  unfold insertedRow at hrow
  cases hidx : findSchemaIndex schema "id".toList with
  | none =>
    rw [hidx] at hrow
    dsimp only at hrow ⊢
    cases hbuild : buildRowInSchemaOrder schema columns values with
    | error e =>
      rw [hbuild] at hrow
      exact absurd hrow (by simp [Except.toOption])
    | ok row => rfl
  | some idCol =>
    rw [hidx, if_neg hcolumns] at hrow
    dsimp only at hrow ⊢
    unfold insertWithId
    have hauto := autoId_eq st paths schemas table (st.tableFile table) idCol
    rw [if_neg hcolumns]
    dsimp only
    cases huser : userHasId values.length columns with
    | error e =>
      rw [huser] at hrow
      exact absurd hrow (by simp)
    | ok given =>
      cases given with
      | true => exact absurd huser hid
      | false =>
        rw [huser] at hrow
        obtain ⟨id, hid, hrow⟩ := Option.bind_eq_some_iff.mp hrow
        unfold Storage.autoId at hid
        rw [← hauto] at hid
        dsimp only
        rcases hres : nextAutoId (ensureMeta { st with pathCache := paths, schemaCache := schemas }
          table (st.tableFile table) idCol) table (st.tableFile table) idCol with ⟨found, st₂⟩
        rw [hres] at hid
        obtain rfl : found = some id := hid
        dsimp only
        cases hbuild : buildRowInSchemaOrder schema ("id".toList :: columns)
            (intText id :: values) with
        | error e =>
          rw [hbuild] at hrow
          exact absurd hrow (by simp [Except.toOption])
        | ok row =>
          obtain ⟨registry, cache, hfinish⟩ :=
            finishInsert_spec st₂ table (st.tableFile table) idCol row (some id)
          dsimp only
          rw [hfinish]

omit [CDouble] in
theorem userHasId_words (n : ℕ) : userHasId n ["english".toList, "korean".toList] ≠ .ok true := by
  rcases n with _ | _ | _ | n
  · exact fun h => absurd (Except.ok.inj h) (by simp)
  · exact fun h => absurd (Except.ok.inj h) (by simp)
  · exact fun h => absurd (Except.ok.inj h) (by simp)
  · intro h
    change Except.error Fault.overread = _ at h
    exact absurd h (by simp)

/-- The rows that match a lookup are the same behind a statement. -/
def KeepsMatches (st : Storage) (sql : ParsedSQL) (query : DictQuery) : Prop :=
  ∀ d ∈ st.dictionaryRows, ∀ lookup ∈ query.statement,
    collectMatchingRows lookup d.1 (rowsBehind st sql d.2) = collectMatchingRows lookup d.1 d.2

theorem scanAnswer_of_matches {st' : Storage} {schema : List ColDef} {rows rows' : List Row}
    (htable : sql.table = dictionaryName) (hrows : st.dictionaryRows = some (schema, rows))
    (hrows' : st'.dictionaryRows = some (schema, rows'))
    (hsame : collectMatchingRows sql schema rows' = collectMatchingRows sql schema rows) :
    scanAnswer st' sql = scanAnswer st sql := by
  obtain ⟨hschema, hload⟩ := dictionaryRows_eq_some.mp hrows
  obtain ⟨hschema', hload'⟩ := dictionaryRows_eq_some.mp hrows'
  have hscan : scanRows st' (st'.tableFile dictionaryName) schema sql =
      scanRows st (st.tableFile dictionaryName) schema sql := by
    unfold Storage.content at hload hload'
    rw [scanRows, scanRows, hload, hload']
    dsimp only
    rw [hsame]
  unfold scanAnswer
  rw [htable, hschema, hschema', Option.bind_some, Option.bind_some, hscan]

/-- **A statement behind which the same rows match leaves the answer of a lookup.** -/
theorem scanAnswer_next (h : DictReady e) (hsql : sql.Parsed) (hslash : sql.WritesPlain)
    (hcolumns : KeepsColumns e.storage sql) {query : DictQuery} (hvalid : query.Valid)
    (hmatches : KeepsMatches e.storage sql query) {lookup : ParsedSQL}
    (hlookup : query.statement = some lookup) :
    scanAnswer (executeStatement e sql).2.storage lookup = scanAnswer e.storage lookup := by
  obtain ⟨schema, rows, hrows⟩ := h.dictionary
  obtain ⟨lookup', hlookup', hspec⟩ := DictQuery.statement_spec hvalid
  obtain rfl := Option.some.inj (hlookup.symm.trans hlookup')
  exact scanAnswer_of_matches hspec.table hrows.rows
    (hrows.next h.serves.sound hsql hslash hcolumns).rows (hmatches _ hrows.rows _ hlookup)

end Answer

end MiniSql
