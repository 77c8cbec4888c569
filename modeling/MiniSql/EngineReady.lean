import MiniSql.EngineFiles
import MiniSql.Lib.Runs
import MiniSql.Storage.Calls

/-!
# Readiness

The engine is ready while its trie has been filled with the words of the dictionary. Filling
fails where one of them is not made of lower-case letters, and every successful write on the
dictionary fills the trie again. So the engine stays ready as long as no statement brings
another word into the dictionary.

## Main definitions

* `engineIsReady` — `engine_is_ready`.
* `Storage.words`, `Storage.GoodWords` — the words of the dictionary.
* `KeepsWords` — what a statement must not bring into the dictionary.
* `Engine.exec` — one statement of `engine_exec_sql`.

## Main results

* `dictionaryTrieRebuild_ready` — when the trie can be filled.
* `Serves.exec` — what one statement keeps.
* `ready_of_run` — what a run of statements keeps.
-/

namespace MiniSql
open CText

/-- The name of the dictionary. -/
abbrev dictionaryName : CStr := "dictionary".toList

/-- `engine_is_ready`, between `engine_init` and `engine_shutdown`. -/
def engineIsReady (e : Engine) : Bool := e.trieReady

/-! ## The words of the dictionary -/

/-- The cells of the column `english` of the rows of a file. -/
def englishWords (schema : List ColDef) (file : CStr) : Option (List CStr) :=
  (findSchemaIndex schema "english".toList).bind fun j =>
    (loadTableRows file schema.length).map fun rows => rows.map fun row => row[j]?.getD []

/-- The words of the dictionary in its files. -/
def Storage.words (st : Storage) : Option (List CStr) :=
  (st.tableSchema dictionaryName).bind fun schema =>
    (st.content dictionaryName).bind (englishWords schema)

/-- The dictionary can be read, and its words are made of lower-case letters. -/
def Storage.GoodWords (st : Storage) : Prop :=
  ∃ words, st.words = some words ∧ ∀ w ∈ words, isAsciiLowercaseWord w = true

/-- The trie holds the words of the dictionary. -/
def Engine.TrieRebuilt (e : Engine) : Prop :=
  ∃ words, e.storage.words = some words ∧ insertWords words 0 trieCreate = some e.trie

theorem SameTable.words {st st' : Storage} (h : SameTable dictionaryName st st') :
    st'.words = st.words := by
  rw [Storage.words, h.tableSchema, h.content, Storage.words]

theorem SameTable.goodWords {st st' : Storage} (h : SameTable dictionaryName st st') :
    st'.GoodWords ↔ st.GoodWords := by
  rw [Storage.GoodWords, h.words, Storage.GoodWords]

theorem sameTable_of_files {st st' : Storage} (h : st'.files = st.files) (table : CStr) :
    SameTable table st st' := sameTable_of_own fun path _ => congrFun h path

variable [CDouble]

/-- The words that the trie is filled with. -/
theorem selectWords (st : Storage) (path : Path) (schema : List ColDef) :
    ((scanRows st path schema dictionarySelect).bind (buildRowset dictionarySelect schema)).map
        (fun rs => rs.rows.map fun row => row.head?.getD []) =
      (st.files path).bind (englishWords schema) := by
  have hscan : scanRows st path schema dictionarySelect =
      (st.files path).bind (loadTableRows · schema.length) := by
    unfold scanRows
    cases (st.files path).bind (loadTableRows · schema.length) with
    | none => rfl
    | some rows =>
      have hall := @collectMatchingRows_eq _ dictionarySelect schema rows (fun _ => true)
        fun row _ => rfl
      rw [List.filter_true] at hall
      exact hall
  have hbuild := @buildRowset_column _ dictionarySelect "english".toList rfl (by decide) (by decide)
    (by decide) rfl schema
  rw [hscan, Option.bind_assoc, Option.map_bind]
  congr 1
  funext file
  rw [Function.comp_apply]
  unfold englishWords
  cases loadTableRows file schema.length with
  | none => cases findSchemaIndex schema "english".toList <;> rfl
  | some rows =>
    rw [Option.bind_some, hbuild]
    cases findSchemaIndex schema "english".toList with
    | none => rfl
    | some j => simp

/-! ## Filling the trie -/

omit [CDouble] in
theorem tableSchema_of_missing {st : Storage} (h : dictionarySchemaExists st = false) :
    st.tableSchema dictionaryName = none := by
  unfold dictionarySchemaExists at h
  rw [Bool.or_eq_false_iff] at h
  have hfile : ∀ place, st.files (schemaPath place dictionaryName) = none := by
    intro place
    cases place
    · exact Option.isNone_iff_eq_none.mp (Option.isSome_eq_false_iff.mp h.1)
    · exact Option.isNone_iff_eq_none.mp (Option.isSome_eq_false_iff.mp h.2)
  rw [Storage.tableSchema, Storage.schemaFile, loadSchema, hfile, Option.bind_none]

/-- **The trie is filled with the words of the dictionary, or it is not ready.** -/
theorem dictionaryTrieRebuild_eq {e : Engine} (hs : e.storage.Sound) :
    ∃ st, st.Sound ∧ st.files = e.storage.files ∧ dictionaryTrieRebuild e =
      match e.storage.words.bind (insertWords · 0 trieCreate) with
      | none => ⟨st, trieCreate, false⟩
      | some trie => ⟨st, trie, true⟩ := by
  have hplain : PlainName dictionaryName := by decide
  unfold dictionaryTrieRebuild
  by_cases hexists : dictionarySchemaExists e.storage = false
  · rw [if_pos hexists, Storage.words, tableSchema_of_missing hexists]
    exact ⟨e.storage, hs, rfl, rfl⟩
  rw [if_neg hexists]
  obtain ⟨hs', hfiles, hresult⟩ := @selectBy_table e.storage dictionaryName _
    (fun st path schema => scanRows st path schema dictionarySelect) (fun _ => rfl)
    dictionarySelect hs hplain
  have hwords : (storageSelectResult e.storage dictionaryName dictionarySelect).1.map
      (fun rs => rs.rows.map fun row => row.head?.getD []) = e.storage.words := by
    rw [storageSelectResult, hresult, if_neg (by decide), Option.map_bind, Storage.words]
    congr 1
    funext schema
    exact selectWords e.storage _ schema
  rw [← hwords]
  refine ⟨(storageSelectResult e.storage dictionaryName dictionarySelect).2, hs', hfiles, ?_⟩
  rcases storageSelectResult e.storage dictionaryName dictionarySelect with ⟨_ | rs, st⟩
  · rfl
  · cases hins : insertWords (rs.rows.map fun row => row.head?.getD []) 0 trieCreate <;>
      simp only [Option.map_some, Option.bind_some, hins]

theorem dictionaryTrieRebuild_sound {e : Engine} (hs : e.storage.Sound) :
    (dictionaryTrieRebuild e).storage.Sound ∧
      (dictionaryTrieRebuild e).storage.files = e.storage.files := by
  obtain ⟨st, hs', hfiles, heq⟩ := dictionaryTrieRebuild_eq hs
  rw [heq]
  cases e.storage.words.bind (insertWords · 0 trieCreate) <;> exact ⟨hs', hfiles⟩

/-- The trie can be filled when all words are made of lower-case letters. -/
theorem dictionaryTrieRebuild_ready {e : Engine} (hs : e.storage.Sound) :
    engineIsReady (dictionaryTrieRebuild e) = true ↔ e.storage.GoodWords := by
  obtain ⟨st, -, -, heq⟩ := dictionaryTrieRebuild_eq hs
  have hready : engineIsReady (dictionaryTrieRebuild e) =
      (e.storage.words.bind (insertWords · 0 trieCreate)).isSome := by
    rw [heq]
    cases e.storage.words.bind (insertWords · 0 trieCreate) <;> rfl
  rw [hready, Storage.GoodWords]
  cases e.storage.words with
  | none => simp
  | some words =>
    rw [Option.bind_some, insertWords_isSome le_rfl]
    simp

/-- A trie that is ready has been filled with the words of the dictionary. -/
theorem dictionaryTrieRebuild_rebuilt {e : Engine} (hs : e.storage.Sound)
    (hready : engineIsReady (dictionaryTrieRebuild e) = true) :
    (dictionaryTrieRebuild e).TrieRebuilt := by
  obtain ⟨st, -, hfiles, heq⟩ := dictionaryTrieRebuild_eq hs
  rw [heq] at hready ⊢
  cases hbind : e.storage.words.bind (insertWords · 0 trieCreate) with
  | none =>
    rw [hbind] at hready
    exact absurd hready (by simp [engineIsReady])
  | some trie =>
    obtain ⟨words, hwords, hinsert⟩ := Option.bind_eq_some_iff.mp hbind
    exact ⟨words, (sameTable_of_files hfiles dictionaryName).words.trans hwords, hinsert⟩

/-! ## Statements on the dictionary -/

omit [CDouble] in
theorem goodWords_iff {st : Storage} :
    st.GoodWords ↔ ∃ schema file j rows, st.tableSchema dictionaryName = some schema ∧
      st.content dictionaryName = some file ∧ findSchemaIndex schema "english".toList = some j ∧
      loadTableRows file schema.length = some rows ∧
      ∀ row ∈ rows, isAsciiLowercaseWord (row[j]?.getD []) = true := by
  constructor
  · rintro ⟨words, hwords, hgood⟩
    obtain ⟨schema, hschema, hwords⟩ := Option.bind_eq_some_iff.mp hwords
    obtain ⟨file, hfile, hwords⟩ := Option.bind_eq_some_iff.mp hwords
    obtain ⟨j, hj, hwords⟩ := Option.bind_eq_some_iff.mp hwords
    obtain ⟨rows, hrows, rfl⟩ := Option.map_eq_some_iff.mp hwords
    exact ⟨schema, file, j, rows, hschema, hfile, hj, hrows,
      fun row hrow => hgood _ (List.mem_map.mpr ⟨row, hrow, rfl⟩)⟩
  · rintro ⟨schema, file, j, rows, hschema, hfile, hj, hrows, hgood⟩
    refine ⟨rows.map fun row => row[j]?.getD [], ?_, fun w hw => ?_⟩
    · rw [Storage.words, hschema, Option.bind_some, hfile, Option.bind_some, englishWords, hj,
        Option.bind_some, hrows, Option.map_some]
    · obtain ⟨row, hrow, rfl⟩ := List.mem_map.mp hw
      exact hgood row hrow

/-- The values that an INSERT gives for a column. -/
def givenValues (schema : List ColDef) (columns values : List CStr) (j : ℕ) : List CStr :=
  if columns = [] then (values[j]?).toList
  else ((columns.zip values).filter fun p => findSchemaIndex schema p.1 = some j).map (·.2)

omit [CDouble] in
theorem Gives.mem_givenValues {schema : List ColDef} {columns values : List CStr} {j : ℕ} {v : CStr}
    (h : Gives schema columns values j v) : v ∈ givenValues schema columns values j := by
  unfold givenValues
  rcases h with ⟨hnil, hv⟩ | ⟨i, c, hv, hc, hj⟩
  · rw [if_pos hnil, Option.mem_toList]
    exact hv
  · have hne : columns ≠ [] := by
      intro hnil
      rw [hnil] at hc
      exact absurd hc (by simp)
    rw [if_neg hne, List.mem_map]
    refine ⟨(c, v), List.mem_filter.mpr ⟨List.mem_iff_getElem?.mpr ⟨i, ?_⟩, by simpa using hj⟩, rfl⟩
    rw [List.getElem?_zip_eq_some]
    exact ⟨hc, hv⟩

/-- An INSERT that builds a row gives the column `english` a word, and the row gets a line of its
own. -/
def InsertsWord (st : Storage) (columns values : List CStr) : Prop :=
  ∀ schema ∈ st.tableSchema dictionaryName, ∀ j ∈ findSchemaIndex schema "english".toList,
    ∀ row ∈ appendedRow st dictionaryName columns values,
      (∀ v ∈ givenValues schema columns values j, isAsciiLowercaseWord v = true) ∧
        ∀ file ∈ st.content dictionaryName, Terminated file (writeCsvRow row)

/-- An UPDATE that passes the checks and changes a row gives the column `english` a word. -/
def SetsWords (st : Storage) (sql : ParsedSQL) : Prop :=
  ∀ schema ∈ st.tableSchema dictionaryName, ∀ j ∈ findSchemaIndex schema "english".toList,
    (updatePlan sql schema).isSome = true →
    ∀ rows ∈ (st.content dictionaryName).bind (loadTableRows · schema.length),
      (∃ row ∈ rows, rowMatchesDelete schema row sql = some true) →
      ∀ set ∈ sql.sets, findSchemaIndex schema set.column = some j →
        isAsciiLowercaseWord set.value = true

/-- The columns that a CREATE declares fit the rows that the dictionary has, with words in the
column `english`; where there is no schema yet, the rows lie where the new one goes. A CREATE
that is refused leaves the dictionary without a schema. -/
def DeclaresWords (st : Storage) (colDefs : List CStr) : Prop :=
  colDefs ≠ [] → match schemaText (fun _ => false) colDefs 0 [] with
    | some text =>
      (st.tablePlace dictionaryName = .legacy → st.schemaPlace dictionaryName = .legacy) ∧
      ∃ words ∈ (parseSchema text).bind (englishWords · ((st.content dictionaryName).getD [])),
        ∀ w ∈ words, isAsciiLowercaseWord w = true
    | none => st.files (schemaPath .nested dictionaryName) = none ∨
        st.files (schemaPath .legacy dictionaryName) = none

/-- **A statement does not bring anything but words into the dictionary.** Files with a `/` in
their names are written by nobody, and a table whose name differs from that of the dictionary in
case is written only while there is a dictionary to fill the trie with. -/
def KeepsWords (st : Storage) (sql : ParsedSQL) : Prop :=
  sql.type ≠ .select → sql.type ≠ .unknown → '/' ∉ sql.table ∧
    if sql.table = dictionaryName then
      match sql.type with
      | .insert => InsertsWord st sql.columns sql.values
      | .update => SetsWords st sql
      | .create => DeclaresWords st sql.colDefs
      | _ => True
    else equalsIgnoreCase sql.table dictionaryName = true → st.tableSchema dictionaryName ≠ none

instance (st : Storage) (columns values : List CStr) : Decidable (InsertsWord st columns values) :=
  inferInstanceAs (Decidable (∀ schema ∈ st.tableSchema dictionaryName,
    ∀ j ∈ findSchemaIndex schema "english".toList,
      ∀ row ∈ appendedRow st dictionaryName columns values, _ ∧ ∀ file ∈ _, Terminated file _))

instance (st : Storage) (sql : ParsedSQL) : Decidable (SetsWords st sql) :=
  inferInstanceAs (Decidable (∀ schema ∈ st.tableSchema dictionaryName,
    ∀ j ∈ findSchemaIndex schema "english".toList, _ → ∀ rows ∈ Option.bind _ _, (∃ row ∈ rows, _) →
      ∀ set ∈ sql.sets, _ → _))

instance (st : Storage) (colDefs : List CStr) : Decidable (DeclaresWords st colDefs) :=
  have : Decidable (match schemaText (fun _ => false) colDefs 0 [] with
      | some text =>
        (st.tablePlace dictionaryName = .legacy → st.schemaPlace dictionaryName = .legacy) ∧
        ∃ words ∈ (parseSchema text).bind (englishWords · ((st.content dictionaryName).getD [])),
          ∀ w ∈ words, isAsciiLowercaseWord w = true
      | none => st.files (schemaPath .nested dictionaryName) = none ∨
          st.files (schemaPath .legacy dictionaryName) = none) :=
    match schemaText (fun _ => false) colDefs 0 [] with
    | some _ => inferInstanceAs (Decidable (_ ∧ _))
    | none => inferInstanceAs (Decidable (_ ∨ _))
  inferInstanceAs (Decidable (_ → _))

instance (st : Storage) (sql : ParsedSQL) : Decidable (KeepsWords st sql) :=
  have : Decidable (match sql.type with
      | .insert => InsertsWord st sql.columns sql.values
      | .update => SetsWords st sql
      | .create => DeclaresWords st sql.colDefs
      | _ => True) :=
    match sql.type with
    | .insert => inferInstanceAs (Decidable (InsertsWord st _ _))
    | .update => inferInstanceAs (Decidable (SetsWords st sql))
    | .create => inferInstanceAs (Decidable (DeclaresWords st _))
    | .select | .delete | .unknown => isTrue trivial
  inferInstanceAs (Decidable (_ → _ → _ ∧ _))

section Dictionary

variable {st : Storage}

omit [CDouble] in
theorem goodWords_insert (hs : st.Sound) {columns values : List CStr}
    (hnul : ∀ v ∈ values, NulFree v) (hinsert : InsertsWord st columns values)
    (hgood : st.GoodWords) : (storageInsert st dictionaryName columns values).2.GoodWords := by
  obtain ⟨-, -, hschema', hcontent, -⟩ :=
    storageInsert_table hs (show PlainName dictionaryName by decide) columns values
  obtain ⟨schema, file, j, rows, hschema, hfile, hj, hrows, hwords⟩ := goodWords_iff.mp hgood
  rw [hfile] at hcontent
  rw [hschema] at hschema'
  rw [goodWords_iff]
  cases happ : appendedRow st dictionaryName columns values with
  | none =>
    rw [happ] at hcontent
    exact ⟨schema, file, j, rows, hschema', hcontent, hj, hrows, hwords⟩
  | some row =>
    rw [happ] at hcontent
    obtain ⟨hword, hline⟩ := hinsert schema hschema j hj row happ
    have hrow := insertedRow_of_appended hschema happ
    have hload := loadTableRows_append (hline file hfile) hrows (tableSchema_ne_nil hschema)
      (rowOk_insertedRow hnul hrow)
    refine ⟨schema, _, j, rows ++ [row], hschema', hcontent, hj, hload, fun row' hrow' => ?_⟩
    rcases List.mem_append.mp hrow' with hold | hnew
    · exact hwords row' hold
    · obtain rfl := List.mem_singleton.mp hnew
      obtain ⟨hlen, hcell⟩ := insertedRow_cell hrow
      have hlt : j < row'.length := hlen ▸ findSchemaIndex_lt hj
      rw [List.getElem?_eq_getElem hlt, Option.getD_some]
      rcases hcell j _ (List.getElem?_eq_getElem hlt) with hgive | ⟨hid, -⟩
      · exact hword _ hgive.mem_givenValues
      · exact absurd (findSchemaIndex_inj hj hid) (by decide)

omit [CDouble] in
/-- A rewriting that leaves words leaves a dictionary. -/
theorem goodWords_rewritten {st' : Storage} {plan : List ColDef → Option RowPlan} {kept : List Row}
    (hplan : KeepsRows plan) (hkept : rewrittenRows st dictionaryName plan = some kept)
    (hschema' : st'.tableSchema dictionaryName = st.tableSchema dictionaryName)
    (hcontent : st'.content dictionaryName = some (kept.flatMap writeCsvRow))
    (hgood : st.GoodWords)
    (hwords : ∀ schema j rowPlan rows, st.tableSchema dictionaryName = some schema →
      findSchemaIndex schema "english".toList = some j → plan schema = some rowPlan →
      (st.content dictionaryName).bind (loadTableRows · schema.length) = some rows →
      (∀ row ∈ rows, isAsciiLowercaseWord (row[j]?.getD []) = true) →
      planRows rowPlan rows = some kept →
      ∀ row ∈ kept, isAsciiLowercaseWord (row[j]?.getD []) = true) : st'.GoodWords := by
  obtain ⟨schema, file, j, rows, hschema, hfile, hj, hrows, hold⟩ := goodWords_iff.mp hgood
  obtain ⟨rowPlan, hrowPlan, hplanned⟩ := rewrittenRows_eq_some hschema hfile hrows hkept
  refine goodWords_iff.mpr ⟨schema, _, j, kept, hschema'.trans hschema, hcontent, hj, ?_, ?_⟩
  · exact loadTableRows_flatMap (tableSchema_ne_nil hschema)
      (hplan hrowPlan (rowOk_of_loadTableRows hrows) hplanned)
  · exact hwords schema j rowPlan rows hschema hj hrowPlan (by rw [hfile]; exact hrows) hold hplanned

theorem goodWords_delete (hs : st.Sound) (sql : ParsedSQL) (hgood : st.GoodWords) :
    (storageDelete st dictionaryName sql).2.GoodWords := by
  obtain ⟨-, hfile', hschema', hresult⟩ :=
    storageDelete_table hs (show PlainName dictionaryName by decide) sql
  cases hdel : deletedRows st dictionaryName sql with
  | none =>
    rw [hdel] at hresult
    have hwords : (storageDelete st dictionaryName sql).2.words = st.words := by
      rw [Storage.words, hschema', hresult.2, Storage.words]
    rw [Storage.GoodWords, hwords]
    exact hgood
  | some kept =>
    rw [hdel] at hresult
    unfold deletedRows at hdel
    split at hdel
    · refine goodWords_rewritten (keepsRows_deletePlan sql) hdel hschema' hresult.2 hgood ?_
      intro schema j rowPlan rows _ _ hplan _ hold hplanned row hrow
      unfold deletePlan at hplan
      split at hplan
      · obtain rfl := Option.some.inj hplan
        exact hold row (mem_planRows_deleteRow hplanned hrow)
      · exact absurd hplan (by simp)
    · exact absurd hdel (by simp)

theorem goodWords_update (hs : st.Sound) {sql : ParsedSQL}
    (hnul : ∀ set ∈ sql.sets, NulFree set.value) (hsets : SetsWords st sql) (hgood : st.GoodWords) :
    (storageUpdate st dictionaryName sql).2.GoodWords := by
  obtain ⟨-, hfile', hschema', hresult⟩ :=
    storageUpdate_table hs (show PlainName dictionaryName by decide) sql
  cases hupd : updatedRows st dictionaryName sql with
  | none =>
    rw [hupd] at hresult
    have hwords : (storageUpdate st dictionaryName sql).2.words = st.words := by
      rw [Storage.words, hschema', hresult.2, Storage.words]
    rw [Storage.GoodWords, hwords]
    exact hgood
  | some kept =>
    rw [hupd] at hresult
    unfold updatedRows at hupd
    split at hupd
    · refine goodWords_rewritten (keepsRows_updatePlan hnul) hupd hschema' hresult.2 hgood ?_
      intro schema j rowPlan rows hschema hj hplan hload hold hplanned row hrow
      have hset := hsets schema hschema j hj (Option.isSome_iff_exists.mpr ⟨_, hplan⟩) rows hload
      unfold updatePlan at hplan
      split at hplan
      · exact absurd hplan (by simp)
      · rename_i indexes hindexes
        split at hplan
        · obtain rfl := Option.some.inj hplan
          obtain ⟨old, hmem, rfl | ⟨hmatch, hupdate⟩⟩ := mem_planRows_updateRow hplanned hrow
          · exact hold row hmem
          · have hword := hset ⟨old, hmem, hmatch⟩
            cases hcell : row[j]? with
            | none =>
              have hlen := (applyUpdateToRow_spec hupdate).1
              have hnone : old[j]? = none := by
                rw [List.getElem?_eq_none_iff] at hcell ⊢
                omega
              have := hold old hmem
              rwa [hnone] at this
            | some v =>
              rcases updateSet_cell hindexes hupdate hcell with hsame | ⟨set, hmemSet, hok, rfl⟩
              · have := hold old hmem
                rwa [hsame] at this
              · exact hword set hmemSet hok.1
        · exact absurd hplan (by simp)
    · exact absurd hupd (by simp)

omit [CDouble] in
theorem goodWords_create (hs : st.Sound) {colDefs : List CStr} (hdecl : DeclaresWords st colDefs)
    (hwords : st.tableSchema dictionaryName = none ∨ st.GoodWords) :
    ((storageCreate st dictionaryName colDefs).1 = .ok () →
      (storageCreate st dictionaryName colDefs).2.GoodWords) ∧
    ((storageCreate st dictionaryName colDefs).2.tableSchema dictionaryName = none ∨
      (storageCreate st dictionaryName colDefs).2.GoodWords) := by
  have hplain : PlainName dictionaryName := by decide
  by_cases hne : colDefs = []
  · have hbad : dictionaryName = [] ∨ colDefs = [] ∨ CreateFaults.none.mkdir = true := .inr (.inl hne)
    rw [storageCreate, storageCreateWith, if_pos hbad]
    exact ⟨fun h => absurd h (by simp), hwords⟩
  have hargs : dictionaryName ≠ [] ∧ colDefs ≠ [] := ⟨by decide, hne⟩
  have hdecl := hdecl hne
  cases htext : schemaText (fun _ => false) colDefs 0 [] with
  | none =>
    rw [htext] at hdecl
    obtain ⟨hfailed, hnone⟩ := storageCreate_refused hs hplain hargs htext hdecl
    exact ⟨fun h => absurd (hfailed.symm.trans h) (by simp), .inl hnone⟩
  | some text =>
    rw [htext] at hdecl
    obtain ⟨hplace, words, hread, hgood⟩ := hdecl
    obtain ⟨-, hschema, hcontent⟩ := storageCreate_ok hs hplain hargs htext hplace
    have hnew : (storageCreate st dictionaryName colDefs).2.GoodWords := by
      refine ⟨words, ?_, hgood⟩
      rw [Storage.words, hschema, hcontent]
      exact hread
    exact ⟨fun _ => hnew, .inr hnew⟩

end Dictionary

/-! ## One statement -/

/-- The dictionary has no schema, or nothing but words. -/
def Storage.NoBadWords (st : Storage) : Prop :=
  st.tableSchema dictionaryName = none ∨ st.GoodWords

/-- The storage behind a statement that writes a table, and the status that it returns. -/
structure LeavesWords (table : CStr) (result : Status × Storage) : Prop where
  sound : result.2.Sound
  words : result.2.NoBadWords
  good : result.1 = .ok () → equalsIgnoreCase table dictionaryName = true → result.2.GoodWords

section Leaves

variable {st : Storage} {sql : ParsedSQL}

omit [CDouble] in
theorem leavesWords_insert (hs : st.Sound) (hwords : st.NoBadWords)
    (hnul : ∀ v ∈ sql.values, NulFree v) (hinsert : InsertsWord st sql.columns sql.values) :
    LeavesWords dictionaryName (storageInsert st dictionaryName sql.columns sql.values) := by
  obtain ⟨hsound, -, hschema, -, hok⟩ :=
    storageInsert_table hs (show PlainName dictionaryName by decide) sql.columns sql.values
  rcases hwords with hnone | hgood
  · refine ⟨hsound, .inl (hschema.trans hnone), fun h => ?_⟩
    have happ := hok h
    rw [appendedRow, hnone, Option.bind_none, ite_self] at happ
    exact absurd happ (by simp)
  · have hnew := goodWords_insert hs hnul hinsert hgood
    exact ⟨hsound, .inr hnew, fun _ _ => hnew⟩

/-- A rewriting of a table without a schema fails. -/
theorem leavesWords_delete (hs : st.Sound) (hwords : st.NoBadWords) :
    LeavesWords dictionaryName (storageDelete st dictionaryName sql) := by
  obtain ⟨hsound, -, hschema, hresult⟩ :=
    storageDelete_table hs (show PlainName dictionaryName by decide) sql
  rcases hwords with hnone | hgood
  · refine ⟨hsound, .inl (hschema.trans hnone), fun h => ?_⟩
    have hdel : deletedRows st dictionaryName sql = none := by
      rw [deletedRows, rewrittenRows, hnone, Option.bind_none, ite_self]
    rw [hdel] at hresult
    exact absurd (hresult.1.symm.trans h) (by simp)
  · have hnew := goodWords_delete hs sql hgood
    exact ⟨hsound, .inr hnew, fun _ _ => hnew⟩

theorem leavesWords_update (hs : st.Sound) (hwords : st.NoBadWords)
    (hnul : ∀ set ∈ sql.sets, NulFree set.value) (hsets : SetsWords st sql) :
    LeavesWords dictionaryName (storageUpdate st dictionaryName sql) := by
  obtain ⟨hsound, -, hschema, hresult⟩ :=
    storageUpdate_table hs (show PlainName dictionaryName by decide) sql
  rcases hwords with hnone | hgood
  · refine ⟨hsound, .inl (hschema.trans hnone), fun h => ?_⟩
    have hupd : updatedRows st dictionaryName sql = none := by
      rw [updatedRows, rewrittenRows, hnone, Option.bind_none, ite_self]
    rw [hupd] at hresult
    exact absurd (hresult.1.symm.trans h) (by simp)
  · have hnew := goodWords_update hs hnul hsets hgood
    exact ⟨hsound, .inr hnew, fun _ _ => hnew⟩

omit [CDouble] in
theorem leavesWords_create (hs : st.Sound) (hwords : st.NoBadWords)
    (hdecl : DeclaresWords st sql.colDefs) :
    LeavesWords dictionaryName (storageCreate st dictionaryName sql.colDefs) := by
  obtain ⟨hok, hnew⟩ := goodWords_create hs hdecl hwords
  exact ⟨sound_storageCreate hs (by decide) sql.colDefs, hnew, fun h _ => hok h⟩

omit [CDouble] in
/-- A statement on another table leaves the dictionary alone. -/
theorem leavesWords_other {table : CStr} {result : Status × Storage} (hplain : PlainName table)
    (hne : table ≠ dictionaryName) (htouch : Touches table st result.2) (hsound : result.2.Sound)
    (hwords : st.NoBadWords)
    (hcase : equalsIgnoreCase table dictionaryName = true → st.tableSchema dictionaryName ≠ none) :
    LeavesWords table result := by
  have hsame : SameTable dictionaryName st result.2 :=
    htouch.view hplain (by decide) (Ne.symm hne)
  refine ⟨hsound, ?_, fun _ htable => ?_⟩
  · rw [Storage.NoBadWords, hsame.tableSchema, hsame.goodWords]
    exact hwords
  · rcases hwords with hnone | hgood
    · exact absurd hnone (hcase htable)
    · exact hsame.goodWords.mpr hgood

end Leaves

/-- The engine is ready, its caches are sound, and the dictionary has nothing but words. -/
structure Serves (e : Engine) : Prop where
  ready : engineIsReady e = true
  sound : e.storage.Sound
  words : e.storage.NoBadWords

omit [CDouble] in
theorem noBadWords_of_files {st st' : Storage} (h : st'.files = st.files) :
    st'.NoBadWords ↔ st.NoBadWords := by
  have hsame := sameTable_of_files h dictionaryName
  rw [Storage.NoBadWords, hsame.tableSchema, hsame.goodWords, Storage.NoBadWords]

omit [CDouble] in
theorem ofStatus_ok {status : Status} : (Outcome.ofStatus status).ok = true ↔ status = .ok () := by
  rcases status with (_ | _) | _ <;> simp [Outcome.ofStatus, Outcome.ok]

/-- After a write that leaves nothing but words the engine is ready, and where the dictionary was
written its trie has been filled again. -/
theorem serves_executeWrite {e : Engine} {table : CStr} {result : Status × Storage}
    (hready : engineIsReady e = true) (h : LeavesWords table result) :
    Serves (executeWrite e table result).2 ∧
      ((executeWrite e table result).1.ok = true → equalsIgnoreCase table dictionaryName = true →
        (executeWrite e table result).2.TrieRebuilt) := by
  unfold executeWrite refreshAfterWrite
  by_cases hrefresh : result.1 = .ok () ∧ equalsIgnoreCase table dictionaryName = true
  · rw [if_pos hrefresh]
    have hsound : ({ e with storage := result.2 } : Engine).storage.Sound := h.sound
    have hnew := (dictionaryTrieRebuild_ready hsound).mpr (h.good hrefresh.1 hrefresh.2)
    obtain ⟨hsound', hfiles⟩ := dictionaryTrieRebuild_sound hsound
    exact ⟨⟨hnew, hsound', (noBadWords_of_files hfiles).mpr h.words⟩,
      fun _ _ => dictionaryTrieRebuild_rebuilt hsound hnew⟩
  · rw [if_neg hrefresh]
    refine ⟨⟨hready, h.sound, h.words⟩, fun hok htable => absurd ⟨?_, htable⟩ hrefresh⟩
    exact ofStatus_ok.mp hok

/-- What one parsed statement keeps. -/
theorem serves_executeStatement {e : Engine} {sql : ParsedSQL} (h : Serves e)
    (hshort : sql.table.length ≤ nameMax) (hvalues : ∀ v ∈ sql.values, NulFree v)
    (hsets : ∀ set ∈ sql.sets, NulFree set.value) (hkeeps : KeepsWords e.storage sql) :
    Serves (executeStatement e sql).2 ∧
      ((executeStatement e sql).1.ok = true → sql.type ≠ .select →
        equalsIgnoreCase sql.table dictionaryName = true →
        (executeStatement e sql).2.TrieRebuilt) := by
  -- a statement that writes, from what it leaves
  have hwrite : ∀ {result : Status × Storage} {type : QueryType}, LeavesWords sql.table result →
      Serves (executeWrite e sql.table result).2 ∧
        ((executeWrite e sql.table result).1.ok = true → type ≠ .select →
          equalsIgnoreCase sql.table dictionaryName = true →
          (executeWrite e sql.table result).2.TrieRebuilt) := by
    intro result type hleaves
    obtain ⟨hserves, hrebuilt⟩ := serves_executeWrite h.ready hleaves
    exact ⟨hserves, fun hok _ htable => hrebuilt hok htable⟩
  unfold executeStatement
  cases htype : sql.type with
  | unknown => exact ⟨h, fun hok => absurd hok (by simp [Outcome.ok])⟩
  | select =>
    obtain ⟨st, hselect, hsound, hfiles⟩ := @executeSelect_sound _ e sql h.sound hshort
    dsimp only
    rw [hselect]
    exact ⟨⟨h.ready, hsound, (noBadWords_of_files hfiles).mpr h.words⟩,
      fun _ hne => absurd rfl hne⟩
  | create =>
    obtain ⟨hslash, hcond⟩ := hkeeps (by simp [htype]) (by simp [htype])
    have hplain : PlainName sql.table := ⟨hshort, hslash⟩
    refine hwrite ?_
    split at hcond
    · rename_i hdict
      rw [htype] at hcond
      rw [hdict]
      exact leavesWords_create h.sound h.words hcond
    · rename_i hne
      exact leavesWords_other hplain hne (touches_storageCreate h.sound.wf hshort _)
        (sound_storageCreate h.sound hplain _) h.words hcond
  | insert =>
    obtain ⟨hslash, hcond⟩ := hkeeps (by simp [htype]) (by simp [htype])
    have hplain : PlainName sql.table := ⟨hshort, hslash⟩
    refine hwrite ?_
    split at hcond
    · rename_i hdict
      rw [htype] at hcond
      rw [hdict]
      exact leavesWords_insert h.sound h.words hvalues hcond
    · rename_i hne
      exact leavesWords_other hplain hne (touches_storageInsert h.sound.wf hshort _ _)
        (storageInsert_table h.sound hplain _ _).1 h.words hcond
  | delete =>
    obtain ⟨hslash, hcond⟩ := hkeeps (by simp [htype]) (by simp [htype])
    have hplain : PlainName sql.table := ⟨hshort, hslash⟩
    refine hwrite ?_
    split at hcond
    · rename_i hdict
      rw [hdict]
      exact leavesWords_delete h.sound h.words
    · rename_i hne
      exact leavesWords_other hplain hne (touches_storageDelete h.sound.wf hshort sql)
        (storageDelete_table h.sound hplain sql).1 h.words hcond
  | update =>
    obtain ⟨hslash, hcond⟩ := hkeeps (by simp [htype]) (by simp [htype])
    have hplain : PlainName sql.table := ⟨hshort, hslash⟩
    refine hwrite ?_
    split at hcond
    · rename_i hdict
      rw [htype] at hcond
      rw [hdict]
      exact leavesWords_update h.sound h.words hsets hcond
    · rename_i hne
      exact leavesWords_other hplain hne (touches_storageUpdate h.sound.wf hshort sql)
        (storageUpdate_table h.sound hplain sql).1 h.words hcond

/-! ## The statements of a call -/

omit [CDouble] in
theorem splitLoop_subset (q : Option Char) (s : CStr) :
    (splitLoop q s).1 ⊆ s ∧ (splitLoop q s).2 ⊆ s := by
  fun_induction splitLoop q s with
  | case1 => simp
  | case2 q c s text rest hsplit ih =>
    rw [hsplit] at ih
    exact ⟨List.cons_subset_cons c ih.1, List.subset_cons_of_subset c ih.2⟩
  | case3 s => simp
  | case4 c s hc text rest hsplit ih =>
    rw [hsplit] at ih
    exact ⟨List.cons_subset_cons c ih.1, List.subset_cons_of_subset c ih.2⟩

omit [CDouble] in
theorem splitNextStatement_subset {n : ℕ} {cursor stmt rest : CStr}
    (h : splitNextStatement n cursor = some (stmt, rest)) : stmt ⊆ cursor ∧ rest ⊆ cursor := by
  induction n generalizing cursor with
  | zero => exact absurd h (by simp [splitNextStatement])
  | succ n ih =>
    have hspace : cursor.dropWhile isSpace ⊆ cursor := (List.dropWhile_sublist _).subset
    rw [splitNextStatement] at h
    cases hcursor : cursor.dropWhile isSpace with
    | nil =>
      rw [hcursor] at h
      exact absurd h (by simp)
    | cons c s =>
      rw [hcursor] at h hspace
      dsimp only at h
      obtain ⟨htext, hrest⟩ := splitLoop_subset none (c :: s)
      have htail : (splitLoop none (c :: s)).2.tail ⊆ cursor :=
        fun x hx => hspace (hrest (List.mem_of_mem_tail hx))
      split at h
      · obtain ⟨hstmt, hrest'⟩ := ih h
        exact ⟨List.Subset.trans hstmt htail, List.Subset.trans hrest' htail⟩
      · obtain ⟨rfl, rfl⟩ := Prod.mk.inj (Option.some.inj h)
        exact ⟨fun x hx => hspace (htext (mem_of_mem_trimSpace hx)), htail⟩

/-- The statements that `engine_exec_sql` executes, each with the memory that its parser gets. -/
def callLoop (mem : ℕ → Uninit) : ℕ → ℕ → CStr → List (Uninit × CStr)
  | 0, _, _ => []
  | n + 1, i, cursor =>
    match splitNextStatement (cursor.length + 1) cursor with
    | none => []
    | some (stmt, rest) => (mem i, stmt) :: callLoop mem n (i + 1) rest

/-- The statements of a call of `engine_exec_sql`. -/
def callStatements (mem : ℕ → Uninit) (sql : CStr) : List (Uninit × CStr) :=
  callLoop mem (sql.length + 1) 0 sql

omit [CDouble] in
theorem nulFree_callStatements {mem : ℕ → Uninit} {sql : CStr} (h : NulFree sql) :
    ∀ stmt ∈ callStatements mem sql, NulFree stmt.2 := by
  have hloop : ∀ (n i : ℕ) (cursor : CStr), NulFree cursor →
      ∀ stmt ∈ callLoop mem n i cursor, NulFree stmt.2 := by
    intro n
    induction n with
    | zero => simp [callLoop]
    | succ n ih =>
      intro i cursor hnul stmt hstmt
      rw [callLoop] at hstmt
      split at hstmt
      · exact absurd hstmt (by simp)
      · rename_i text rest hsplit
        obtain ⟨htext, hrest⟩ := splitNextStatement_subset hsplit
        rcases List.mem_cons.mp hstmt with rfl | hstmt
        · exact fun hmem => hnul (htext hmem)
        · exact ih (i + 1) rest (fun hmem => hnul (hrest hmem)) stmt hstmt
  exact hloop _ _ _ h

/-- One statement of `engine_exec_sql`. -/
def Engine.exec (e : Engine) (stmt : Uninit × CStr) : Option Engine :=
  some (execOne e stmt.1 stmt.2).2

/-- **A call of `engine_exec_sql` executes its statements one after another.** -/
theorem run_callStatements (mem : ℕ → Uninit) (e : Engine) (sql : CStr) :
    Runs.run Engine.exec e (callStatements mem sql) = some (engineExecSql mem e sql).2.2 := by
  have hloop : ∀ (n i : ℕ) (e : Engine) (cursor : CStr),
      Runs.run Engine.exec e (callLoop mem n i cursor) = some (execLoop mem n i e cursor).2 := by
    intro n
    induction n with
    | zero => intro i e cursor; rfl
    | succ n ih =>
      intro i e cursor
      rw [callLoop, execLoop]
      cases splitNextStatement (cursor.length + 1) cursor with
      | none => rfl
      | some next =>
        obtain ⟨stmt, rest⟩ := next
        exact Runs.run_cons.mpr ⟨_, rfl, ih (i + 1) (execOne e (mem i) stmt).2 rest⟩
  exact hloop _ _ e sql

/-! ## Runs -/

/-- The statement that is parsed does not bring anything but words into the dictionary. -/
def StatementKeeps (e : Engine) (stmt : Uninit × CStr) : Prop :=
  ∀ sql ∈ parseSql stmt.1 stmt.2, KeepsWords e.storage sql

/-- What one statement keeps. -/
theorem Serves.exec {e e' : Engine} {stmt : Uninit × CStr} (h : Serves e) (hnul : NulFree stmt.2)
    (hkeeps : StatementKeeps e stmt) (hstep : e.exec stmt = some e') :
    Serves e' ∧ ∀ sql, parseSql stmt.1 stmt.2 = some sql → (executeStatement e sql).1.ok = true →
      sql.type ≠ .select → equalsIgnoreCase sql.table dictionaryName = true → e'.TrieRebuilt := by
  obtain rfl := Option.some.inj hstep
  unfold execOne
  cases hparse : parseSql stmt.1 stmt.2 with
  | none => exact ⟨h, fun sql hsql => absurd hsql (by simp)⟩
  | some sql =>
    obtain ⟨hvalues, hsets⟩ := nulFree_parseSql hnul hparse
    obtain ⟨hserves, hrebuilt⟩ := serves_executeStatement h (parseSql_from hparse).table hvalues hsets
      (hkeeps sql hparse)
    refine ⟨hserves, fun sql' hsql' => ?_⟩
    obtain rfl := Option.some.inj hsql'
    exact hrebuilt

/-- An engine that is ready when it has started has just filled its trie. -/
theorem engineInit_rebuilt {files : Path → Option CStr}
    (hready : engineIsReady (engineInit files) = true) :
    ∃ e, e.storage.Sound ∧ engineInit files = dictionaryTrieRebuild e := by
  unfold engineInit at hready ⊢
  dsimp only at hready ⊢
  split at hready
  · rename_i hexists
    rw [if_pos hexists]
    exact ⟨_, sound_start files, rfl⟩
  · rename_i hmissing
    rw [if_neg hmissing]
    have hcreate : (executeStatement ⟨.start files, trieCreate, false⟩ dictionaryCreate).2 =
        refreshAfterWrite
          ⟨(storageCreate (.start files) dictionaryName dictionaryCreate.colDefs).2, trieCreate, false⟩
          dictionaryName (storageCreate (.start files) dictionaryName dictionaryCreate.colDefs).1 :=
      rfl
    rw [hcreate] at hready ⊢
    unfold refreshAfterWrite at hready ⊢
    split at hready
    · rename_i hok
      rw [if_pos hok]
      exact ⟨_, sound_storageCreate (sound_start files) (by decide) _, rfl⟩
    · exact absurd hready (by simp [engineIsReady])

theorem goodWords_engineInit {files : Path → Option CStr}
    (hready : engineIsReady (engineInit files) = true) : (engineInit files).storage.GoodWords := by
  obtain ⟨e, hs, heq⟩ := engineInit_rebuilt hready
  rw [heq] at hready ⊢
  exact (sameTable_of_files (dictionaryTrieRebuild_sound hs).2 dictionaryName).goodWords.mpr
    ((dictionaryTrieRebuild_ready hs).mp hready)

/-- An engine that is ready when it has started has nothing but words in its dictionary. -/
theorem serves_engineInit {files : Path → Option CStr}
    (hready : engineIsReady (engineInit files) = true) : Serves (engineInit files) := by
  refine ⟨hready, ?_, .inr (goodWords_engineInit hready)⟩
  obtain ⟨e, hs, heq⟩ := engineInit_rebuilt hready
  rw [heq]
  exact (dictionaryTrieRebuild_sound hs).1

/-- **As long as no statement brings anything but words into the dictionary, an engine that was
ready when it had started is ready after every statement, and a successful write on the
dictionary leaves a trie that has been filled with its words.** -/
theorem ready_of_run {files : Path → Option CStr}
    (hready : engineIsReady (engineInit files) = true) {calls : List ((ℕ → Uninit) × CStr)}
    (hcalls : ∀ call ∈ calls, NulFree call.2) {before : List (Uninit × CStr)} {stmt : Uninit × CStr}
    (hbegins : before ++ [stmt] <+: calls.flatMap fun call => callStatements call.1 call.2)
    (hkeeps : Runs.Meets Engine.exec StatementKeeps (engineInit files) (before ++ [stmt]))
    {e e' : Engine} (hrun : Runs.run Engine.exec (engineInit files) before = some e)
    (hstep : e.exec stmt = some e') :
    engineIsReady e' = true ∧ ∀ sql, parseSql stmt.1 stmt.2 = some sql →
      (executeStatement e sql).1.ok = true → sql.type ≠ .select →
      equalsIgnoreCase sql.table dictionaryName = true → e'.TrieRebuilt := by
  have hnul : ∀ stmt' ∈ before ++ [stmt], NulFree stmt'.2 := by
    intro stmt' hmem
    obtain ⟨call, hcall, hstmt⟩ := List.mem_flatMap.mp (hbegins.subset hmem)
    exact nulFree_callStatements (hcalls call hcall) stmt' hstmt
  obtain ⟨hbefore, hlast⟩ := Runs.meets_append.mp hkeeps
  have hserves : Serves e :=
    @Runs.invariant _ _ Engine.exec (fun e stmt' => NulFree stmt'.2 ∧ StatementKeeps e stmt') Serves
      (fun e stmt' e' h hcond hstep => (h.exec hcond.1 hcond.2 hstep).1) _ _ _
      (serves_engineInit hready)
      (hbefore.imp fun e stmt' hmem h => ⟨hnul stmt' (by simp [hmem]), h⟩) hrun
  obtain ⟨hserves', hrebuilt⟩ := hserves.exec (hnul stmt (by simp)) (hlast e hrun).1 hstep
  exact ⟨hserves'.ready, hrebuilt⟩

/-- A call that inserts a word. -/
def insertDog : (ℕ → Uninit) × CStr :=
  (fun _ => .zero, "INSERT INTO dictionary (english, korean) VALUES ('dog', 'gae');".toList)

/-- A call that inserts a word with a capital letter. -/
def insertApple : (ℕ → Uninit) × CStr :=
  (fun _ => .zero, "INSERT INTO dictionary (english, korean) VALUES ('Apple', 'sagwa');".toList)

/-- The statement of a call with one statement. -/
def onlyStatement (call : (ℕ → Uninit) × CStr) : Uninit × CStr :=
  ((callStatements call.1 call.2).head?).getD (.zero, [])

instance (e : Engine) (stmt : Uninit × CStr) : Decidable (StatementKeeps e stmt) :=
  inferInstanceAs (Decidable (∀ sql ∈ parseSql _ _, KeepsWords _ sql))

omit [CDouble]

/-- A dictionary that is made at the start serves behind its first word. -/
theorem ready_insert_dog :
    engineIsReady (@execOne .whole (@engineInit .whole fun _ => none) .zero
      (onlyStatement insertDog).2).2 = true :=
  (@ready_of_run .whole (fun _ => none) (by decide +kernel) [insertDog]
    (by decide +kernel) [] (onlyStatement insertDog) ⟨[], rfl⟩
    (by decide +kernel) _ _ rfl rfl).1

/-- An INSERT of a word with a capital letter is reported successful, and then the engine is not
ready any more. -/
theorem ready_insert_apple :
    engineIsReady (@engineInit .whole fun _ => none) = true ∧
      (@engineExecSql .whole insertApple.1 (@engineInit .whole fun _ => none) insertApple.2).1 = true ∧
      engineIsReady
        (@engineExecSql .whole insertApple.1 (@engineInit .whole fun _ => none) insertApple.2).2.2 =
          false := by
  decide +kernel

end MiniSql
