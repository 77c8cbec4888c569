import MiniSql.RouterJson.Completions
import MiniSql.Storage.Mismatch

/-!
# Which words are suggested

A word that was sent to `/api/admin/insert` is in the dictionary from the response 200 on, and a word
that got another response is not. So what a completion suggests can be told from the requests and
the responses before it, whatever else the server was asked, as long as nobody writes the dictionary
by `/api/query`.

## Main definitions

* `Aside` — a statement that does not write the dictionary.
* `RouterState.AsideRequest` — a request whose words are plain and whose statements are aside.
* `RouterState.accepted` — the word of a request that was answered with 200.

## Main results

* `Vocabulary.aside`, `Vocabulary.insert` — one statement.
* `RouterState.vocabulary_run` — the words behind a run.
* `RouterState.completions_of_sessions` — what a completion answers behind any runs and restarts.
-/

namespace MiniSql
open CText

variable [CDouble] {e e' : Engine} {words : List CStr} {sql : ParsedSQL}

/-! ## The trie behind a statement -/

/-- The trie is filled again or left alone. -/
theorem refreshAfterWrite_trie (hs : e.storage.Sound) {table : CStr} {status : Status}
    (hready : engineIsReady (refreshAfterWrite e table status) = true) :
    (refreshAfterWrite e table status).trie = e.trie ∨
      (refreshAfterWrite e table status).TrieRebuilt := by
  unfold refreshAfterWrite at hready ⊢
  split_ifs at hready ⊢
  · right
    exact dictionaryTrieRebuild_rebuilt hs hready
  · left
    rfl

theorem executeStatement_trie (hs : e.storage.Sound) (hplain : PlainName sql.table)
    (hready : engineIsReady (executeStatement e sql).2 = true) :
    (executeStatement e sql).2.trie = e.trie ∨ (executeStatement e sql).2.TrieRebuilt := by
  have hwrite : ∀ {result : Status × Storage}, result.2.Sound →
      engineIsReady (executeWrite e sql.table result).2 = true →
        (executeWrite e sql.table result).2.trie = e.trie ∨
          (executeWrite e sql.table result).2.TrieRebuilt := by
    intro result hsound hready
    exact @refreshAfterWrite_trie _ { e with storage := result.2 } hsound _ _ hready
  unfold executeStatement at hready ⊢
  cases htype : sql.type with
  | create =>
    rw [htype] at hready
    exact hwrite (sound_storageCreate hs hplain _) hready
  | insert =>
    rw [htype] at hready
    exact hwrite (storageInsert_table hs hplain _ _).1 hready
  | delete =>
    rw [htype] at hready
    exact hwrite (storageDelete_table hs hplain sql).1 hready
  | update =>
    rw [htype] at hready
    exact hwrite (storageUpdate_table hs hplain sql).1 hready
  | unknown => exact .inl rfl
  | select =>
    obtain ⟨st, hselect, -⟩ := @executeSelect_sound _ e sql hs hplain.1
    dsimp only
    rw [hselect]
    exact .inl rfl

/-- A statement that leaves the words leaves their trie. -/
theorem Vocabulary.of_words (h : Vocabulary e words) (hplain : PlainName sql.table)
    (hserves : Serves (executeStatement e sql).2)
    (hbin : (executeStatement e sql).2.storage.files (binPath dictionaryName) = none)
    (hschema : (executeStatement e sql).2.storage.tableSchema dictionaryName = some dictionaryColumns)
    (hline : ∀ file ∈ (executeStatement e sql).2.storage.content dictionaryName, EndsLine file)
    (hwords : (executeStatement e sql).2.storage.words = some words) :
    Vocabulary (executeStatement e sql).2 words := by
  refine ⟨hserves, hbin, hschema, hline, hwords, ?_⟩
  rcases executeStatement_trie h.serves.sound hplain hserves.ready with htrie | hrebuilt
  · rw [htrie]
    exact h.trie
  · obtain ⟨words', hwords', htrie⟩ := hrebuilt
    obtain rfl := Option.some.inj (hwords.symm.trans hwords')
    exact htrie

/-! ## Statements that do not write the dictionary -/

omit [CDouble] in
/-- The words are in the files. -/
theorem Vocabulary.looks (h : Vocabulary e words) (hlooks : e.Looks e') : Vocabulary e' words := by
  have hsame := sameTable_of_files hlooks.storage.files dictionaryName
  have hgood := (noBadWords_of_files hlooks.storage.files).mpr h.serves.words
  refine ⟨⟨hlooks.trieReady.trans h.serves.ready, hlooks.storage.sound h.serves.sound, hgood⟩, ?_, ?_, ?_, ?_, ?_⟩
  · rw [hlooks.storage.files]
    exact h.no_bin
  · exact hsame.tableSchema.trans h.schema
  · rw [hsame.content]
    exact h.line
  · exact hsame.words.trans h.inserted
  · rw [hlooks.trie]
    exact h.trie

omit [CDouble] in
/-- A statement that does not write the dictionary. -/
def Aside (sql : ParsedSQL) : Prop := sql.type = .select ∨ sql.table ≠ dictionaryName

omit [CDouble] in
instance (sql : ParsedSQL) : Decidable (Aside sql) :=
  inferInstanceAs (Decidable (_ ∨ _))

/-- **A statement that does not write the dictionary leaves the words.** -/
theorem Vocabulary.aside (h : Vocabulary e words) {stmt : Uninit × CStr} (hclean : Clean stmt)
    (haside : Aside (statementOf stmt)) : Vocabulary (execMachine e stmt).2 words := by
  obtain ⟨hplain, hvalues, hsets⟩ := hclean.spec
  rw [execMachine, execOne_eq]
  generalize statementOf stmt = sql at haside hplain hvalues hsets
  rcases haside with htype | hne
  · obtain ⟨st, hselect, hreads⟩ := @executeSelect_reads _ e sql hplain.1
    have hexec : (executeStatement e sql).2 = { e with storage := st } := by
      rw [← hselect, executeStatement, htype]
    rw [hexec]
    exact h.looks ⟨rfl, rfl, hreads⟩
  · have hkeeps : KeepsWords e.storage sql := by
      intro _ _
      refine ⟨hplain.2, ?_⟩
      rw [if_neg hne, h.schema]
      exact fun _ => Option.some_ne_none _
    obtain ⟨hserves, -⟩ := serves_executeStatement h.serves hplain.1 hvalues hsets hkeeps
    obtain ⟨st, paths, htouch, -, hnext, -⟩ := executeStatement_touches h.serves.sound hplain
    have hview := htouch.view hplain (by decide : PlainName dictionaryName) (Ne.symm hne)
    have hsame : SameTable dictionaryName e.storage (executeStatement e sql).2.storage := by
      rw [hnext]
      exact hview.trans (@sameTable_of_files st { st with pathCache := paths } rfl _)
    refine h.of_words hplain hserves ?_ (hsame.tableSchema.trans h.schema) ?_
      (hsame.words.trans h.inserted)
    · rw [hnext]
      exact (htouch.files _ (binPath_not_own _ _)).trans h.no_bin
    · rw [hsame.content]
      exact h.line

/-! ## A word -/

omit [CDouble] in
/-- The statement of a word, with what has become of the translation. -/
def wordSql (english : CStr) (values : List CStr) : ParsedSQL :=
  { adminInsertStatement english [] with values := english :: values }

omit [CDouble] in
/-- A translation without a quote does not split the list of values. -/
theorem parseSql_plainWord {english korean : CStr} (hword : isAsciiLowercaseWord english = true)
    (hkorean : '\'' ∉ korean) (mem : Uninit) : ∃ values, values.length ≤ 1 ∧
      parseSql mem (adminInsertText english korean) = some (wordSql english values) := by
  have hquote : '\'' ∉ english := not_mem_of_isAsciiLowercaseWord hword (by decide)
  have hbracket : english ≠ [')'] := by
    rintro rfl
    exact absurd hword (by decide)
  have hshape : doubleApostrophes korean ++ "')".toList = korean ++ '\'' :: [')'] := by
    rw [doubleApostrophes_of_not_mem hkorean]
    rfl
  have htokens : tokenize [')'] = [[')']] := by decide
  refine ⟨(identListLoop (korean :: tokenize [')'])).1, ?_, ?_⟩
  · rw [htokens, identListLoop.eq_def]
    dsimp only
    split_ifs with hclose hcomma
    · simp
    · exact absurd hcomma (by decide)
    · simp
  · unfold adminInsertText
    rw [List.append_assoc _ (doubleApostrophes korean), hshape, ← List.append_assoc, parseSql,
      tokenize_adminInsertSql hquote hkorean, parseTokens_adminInsertTokens,
      identListLoop_comma hbracket]
    rfl

omit [CDouble] in
theorem words_eq {st : Storage} {file : CStr} {rows : List Row}
    (hschema : st.tableSchema dictionaryName = some dictionaryColumns)
    (hfile : st.content dictionaryName = some file)
    (hload : loadTableRows file dictionaryColumns.length = some rows) :
    st.words = some (rows.map fun row => row[1]?.getD []) := by
  rw [Storage.words, hschema, Option.bind_some, hfile, Option.bind_some, englishWords,
    findSchemaIndex_english, Option.bind_some, hload, Option.map_some]

section Word

variable {english : CStr} {values : List CStr}

omit [CDouble] in
/-- The row that the statement of a word makes, if it makes one. -/
def wordRow (st : Storage) (english : CStr) (values : List CStr) : Option Row :=
  appendedRow st dictionaryName ["english".toList, "korean".toList] (english :: values)

omit [CDouble] in
/-- The row has the word. -/
theorem Vocabulary.row_spec (h : Vocabulary e words) (hvalues : ∀ v ∈ english :: values, NulFree v)
    {row : Row} (hrow : wordRow e.storage english values = some row) :
    RowOk dictionaryColumns.length row ∧ row[1]? = some english := by
  have hinserted := insertedRow_of_appended h.schema hrow
  exact ⟨rowOk_insertedRow hvalues hinserted, insertedRow_english findSchemaIndex_english hinserted⟩

/-- The statement is done if and only if it makes a row, and never reads past its columns. -/
theorem Vocabulary.outcome (h : Vocabulary e words) (hlen : values.length ≤ 1) :
    (executeStatement e (wordSql english values)).1 =
      .status (wordRow e.storage english values).isSome := by
  have hplain : PlainName dictionaryName := by decide
  have hc := h.serves.sound.coherent dictionaryName hplain
  have hcolumns : ["english".toList, "korean".toList] ≠ [] := List.cons_ne_nil _ _
  obtain ⟨-, -, -, -, hok⟩ := storageInsert_table h.serves.sound hplain
    ["english".toList, "korean".toList] (english :: values)
  have hbounded : (storageInsert e.storage dictionaryName ["english".toList, "korean".toList]
      (english :: values)).1 ≠ .error .overread := by
    obtain ⟨paths, schemas, hopen, -⟩ := openTable_view hplain.1 hc
    rw [h.schema, Option.map_some] at hopen
    refine (countsCase_storageInsert hplain.1 hcolumns (congrArg Prod.fst hopen) (by decide)
      (List.cons_ne_nil _ _)).within_bounded ?_
    change values.length + 1 ≤ 2
    omega
  change Outcome.ofStatus (storageInsert e.storage dictionaryName ["english".toList, "korean".toList]
    (english :: values)).1 = .status (wordRow e.storage english values).isSome
  cases hrow : wordRow e.storage english values with
  | some row =>
    rw [storageInsert_auto_ok hplain.1 hc hrow hcolumns (userHasId_words _)]
    rfl
  | none =>
    generalize (storageInsert e.storage dictionaryName ["english".toList, "korean".toList]
      (english :: values)).1 = status at hok hbounded
    rcases status with (_ | _) | _
    · rfl
    · exact absurd rfl hbounded
    · have hsome := hok rfl
      have hnone : appendedRow e.storage dictionaryName ["english".toList, "korean".toList]
          (english :: values) = none := hrow
      rw [hnone] at hsome
      exact absurd hsome (by simp)

/-- The engine serves words behind it, and a row leaves a trie that is filled again. -/
theorem Vocabulary.serves_word (h : Vocabulary e words) (hword : isAsciiLowercaseWord english = true)
    (hvalues : ∀ v ∈ english :: values, NulFree v) :
    Serves (executeStatement e (wordSql english values)).2 ∧
      ((executeStatement e (wordSql english values)).1.ok = true →
        (executeStatement e (wordSql english values)).2.TrieRebuilt) := by
  have hplain : PlainName dictionaryName := by decide
  have hkeeps : KeepsWords e.storage (wordSql english values) := by
    intro _ _
    refine ⟨hplain.2, ?_⟩
    rw [if_pos (show (wordSql english values).table = dictionaryName from rfl)]
    intro schema hschema j hj row hrow
    refine ⟨fun v hv => ?_, fun file hfile => (h.line file hfile).terminated _⟩
    have hgiven := givenValues_english hj english values
    rw [show v = english from List.mem_singleton.mp (hgiven ▸ hv)]
    exact hword
  obtain ⟨hserves, hrebuilt⟩ :=
    @serves_executeStatement _ e (wordSql english values) h.serves hplain.1 hvalues (by
      intro set hset
      exact absurd hset (List.not_mem_nil)) hkeeps
  exact ⟨hserves, fun hok => hrebuilt hok (by decide : QueryType.insert ≠ .select)
    (equalsIgnoreCase_refl _)⟩

/-- What is in the files behind it. -/
theorem Vocabulary.files_word (h : Vocabulary e words) {file : CStr}
    (hfile : e.storage.content dictionaryName = some file) :
    (executeStatement e (wordSql english values)).2.storage.files (binPath dictionaryName) = none ∧
      (executeStatement e (wordSql english values)).2.storage.tableSchema dictionaryName =
        some dictionaryColumns ∧
      (executeStatement e (wordSql english values)).2.storage.content dictionaryName =
        withRow (some file) (wordRow e.storage english values) := by
  have hplain : PlainName dictionaryName := by decide
  have hs := h.serves.sound
  obtain ⟨hsound, -, hschema, hcontent, -⟩ := storageInsert_table hs hplain
    ["english".toList, "korean".toList] (english :: values)
  have hbin := (touches_storageInsert hs.wf hplain.1 ["english".toList, "korean".toList]
    (english :: values)).files _ (binPath_not_own dictionaryName dictionaryName)
  set result := storageInsert e.storage dictionaryName ["english".toList, "korean".toList]
    (english :: values) with hresult
  obtain ⟨paths, hpaths, -⟩ :=
    @refreshAfterWrite_sound _ { e with storage := result.2 } hsound dictionaryName result.1
  have hstorage : (executeStatement e (wordSql english values)).2.storage =
      { result.2 with pathCache := paths } := hpaths
  rw [hstorage, ← hfile]
  exact ⟨hbin.trans h.no_bin, hschema.trans h.schema, hcontent⟩

/-- **The INSERT of a word appends the word, or fails and leaves the words.** -/
theorem Vocabulary.insert (h : Vocabulary e words) {korean : CStr}
    (hword : isAsciiLowercaseWord english = true) (hkorean : '\'' ∉ korean)
    (hnul : NulFree english ∧ NulFree korean) (mem : Uninit) :
    ∃ ok, (execOne e mem (adminInsertText english korean)).1 = .status ok ∧
      Vocabulary (execOne e mem (adminInsertText english korean)).2
        (words ++ if ok then [english] else []) := by
  obtain ⟨values, hlen, hparse⟩ := parseSql_plainWord hword hkorean mem
  obtain ⟨hvalues, -⟩ := nulFree_parseSql (nulFree_adminInsertText hnul.1 hnul.2) hparse
  have hexec : execOne e mem (adminInsertText english korean) =
      executeStatement e (wordSql english values) := by
    rw [execOne, hparse]
  obtain ⟨file, rows, hfile, hload, hcells⟩ := h.rows
  obtain ⟨hserves, hrebuilt⟩ := @Vocabulary.serves_word _ e words english values h hword hvalues
  obtain ⟨hbin, hschema, hcontent⟩ := @Vocabulary.files_word _ e words english values h file hfile
  have hstatus := @Vocabulary.outcome _ e words english values h hlen
  rw [hexec]
  refine ⟨_, hstatus, ?_⟩
  cases hrow : wordRow e.storage english values with
  | none =>
    rw [hrow] at hcontent
    have hwords := words_eq hschema hcontent hload
    rw [← hcells] at hwords
    rw [Option.isSome_none, if_neg Bool.false_ne_true, List.append_nil]
    refine h.of_words (by decide : PlainName dictionaryName) hserves hbin hschema ?_ hwords
    intro file' hfile'
    exact h.line file' (hfile.trans (hcontent.symm.trans hfile'))
  | some row =>
    obtain ⟨hrowok, hcell⟩ := h.row_spec hvalues hrow
    rw [hrow] at hcontent hstatus
    have hload' := loadTableRows_append ((h.line file hfile).terminated _) hload (by decide) hrowok
    have hwords := words_eq hschema hcontent hload'
    rw [List.map_append, ← hcells, List.map_singleton, hcell, Option.getD_some] at hwords
    rw [Option.isSome_some, if_pos rfl]
    refine ⟨hserves, hbin, hschema, ?_, hwords, ?_⟩
    · intro file' hfile'
      obtain rfl := Option.some.inj (hcontent.symm.trans hfile')
      exact endsLine_writeCsvRow _ _
    · obtain ⟨words', hwords', htrie⟩ := hrebuilt (by rw [hstatus]; rfl)
      obtain rfl := Option.some.inj (hwords.symm.trans hwords')
      exact htrie

end Word

/-! ## Requests -/

namespace RouterState

variable {m : Moment} {s : RouterState} {req : HttpRequest} {pre : CStr}

omit [CDouble] in
/-- A request that does not write the dictionary by `/api/query`, and whose translation, if it brings
a word, has no quote. -/
def AsideRequest (request : Moment × Option HttpRequest) : Prop :=
  ∀ req ∈ request.2,
    (∀ sql ∈ queryText req, ∀ stmt ∈ callStatements request.1.mem sql,
      Clean stmt ∧ Aside (statementOf stmt)) ∧
    ∀ word ∈ wordOf req, '\'' ∉ word.2

omit [CDouble] in
instance (request : Moment × Option HttpRequest) : Decidable (AsideRequest request) :=
  inferInstanceAs (Decidable (∀ req ∈ request.2,
    (∀ sql ∈ queryText req, ∀ stmt ∈ callStatements request.1.mem sql, _ ∧ _) ∧
      ∀ word ∈ wordOf req, ¬ _))

omit [CDouble] in
/-- The word of a request that was answered with 200. -/
def accepted (exchange : (Moment × Option HttpRequest) × HttpResponse) : Option CStr :=
  if exchange.2.status = 200 then (exchange.1.2.bind wordOf).map Prod.fst else none

omit [CDouble] in
/-- The words of the requests that were answered with 200, in order. -/
def acceptedIn (exchanges : List (Moment × Option HttpRequest) × List HttpResponse) : List CStr :=
  (exchanges.1.zip exchanges.2).filterMap accepted

theorem vocabulary_statements {e : Engine} (h : Vocabulary e words)
    {stmts : List (Uninit × CStr)} (haside : ∀ stmt ∈ stmts, Clean stmt ∧ Aside (statementOf stmt)) :
    Vocabulary (execMachine.run e stmts).2 words := by
  induction stmts generalizing e with
  | nil => exact h
  | cons stmt stmts ih =>
    obtain ⟨hclean, hfirst⟩ := haside stmt (List.mem_cons_self ..)
    exact ih (h.aside hclean hfirst) fun stmt hmem => haside stmt (List.mem_cons_of_mem _ hmem)

theorem vocabulary_query (h : Vocabulary s.engine words) {sql : CStr}
    (hquery : queryText req = some sql)
    (haside : ∀ stmt ∈ callStatements m.mem sql, Clean stmt ∧ Aside (statementOf stmt)) :
    Vocabulary (dispatchRequest m s req).2.engine words := by
  rw [dispatchRequest_query (hquery ▸ rfl), handleQueryRequest_text hquery]
  have hengine : (engineExec m s sql).2.engine =
      (execMachine.run s.engine (callStatements m.mem sql)).2 := by
    rw [run_call]
    rfl
  dsimp only
  rw [hengine]
  exact vocabulary_statements h haside

/-- The status says whether the word is in the dictionary. -/
theorem vocabulary_word (h : Vocabulary s.engine words) {english korean : CStr}
    (hword : wordOf req = some (english, korean)) (hkorean : '\'' ∉ korean) :
    Vocabulary (dispatchRequest m s req).2.engine
      (words ++ if (dispatchRequest m s req).1.status = 200 then [english] else []) := by
  obtain ⟨-, -, -, body, -, henglish, hfield, hvalid, -⟩ := wordOf_eq_some hword
  have hfree : NulFree english ∧ NulFree korean := ⟨nulFree_of_field henglish, nulFree_of_field hfield⟩
  obtain ⟨ok, hstatus, hnext⟩ := h.insert hvalid hkorean hfree (m.mem 0)
  have hne := adminInsertText_ne_nil english korean
  have hcall :=
    engineExecSql_one (splitLoop_adminInsertText hvalid) trimmed_adminInsertText hne m.mem s.engine
  have hok : (engineExec m s (adminInsertText english korean ++ [';'])).1.ok = ok := by
    have hiff := @engineExec_ok _ m s (adminInsertText english korean ++ [';']) (by
      rw [hcall, hstatus]
      cases ok <;> simp [Outcome.answer])
    rw [hcall, hstatus] at hiff
    rw [Bool.eq_iff_iff, hiff]
    cases ok <;> simp [Outcome.answer]
  have hengine : (engineExec m s (adminInsertText english korean ++ [';'])).2.engine =
      (execOne s.engine (m.mem 0) (adminInsertText english korean)).2 := by
    change (engineExecSql m.mem s.engine _).2.2 = _
    rw [hcall]
  obtain ⟨-, hready⟩ := @handleAdminInsertRequest_word _ m s req _ _ hword
  obtain ⟨hresponse, hbehind⟩ := hready h.serves.ready
  rw [dispatchRequest_word (hword ▸ rfl), hbehind, hengine, hresponse, hok]
  cases ok with
  | true => exact hnext
  | false => exact hnext

/-- **One request**: behind it are the words before it and the one that it brings, if the response is
200. -/
theorem vocabulary_next (h : Vocabulary s.engine words) {request : Moment × Option HttpRequest}
    (haside : AsideRequest request) :
    Vocabulary (routerMachine s request).2.engine
      (words ++ (accepted (request, (routerMachine s request).1)).toList) := by
  obtain ⟨m, _ | req⟩ := request
  · have hnone : accepted ((m, none), (routerMachine s (m, none)).1) = none := by
      unfold accepted
      split_ifs <;> rfl
    rw [hnone, Option.toList_none, List.append_nil]
    exact h
  obtain ⟨hstatements, hplain⟩ := haside req rfl
  change Vocabulary (dispatchRequest m s req).2.engine
    (words ++ (accepted ((m, some req), (dispatchRequest m s req).1)).toList)
  unfold accepted
  rw [Option.bind_some]
  cases hword : wordOf req with
  | some word =>
    obtain ⟨english, korean⟩ := word
    have hnext := @vocabulary_word _ _ m _ _ h _ _ hword (hplain _ hword)
    rw [apply_ite Option.toList]
    exact hnext
  | none =>
    rw [Option.map_none, ite_self, Option.toList_none, List.append_nil]
    cases hquery : queryText req with
    | some sql => exact vocabulary_query h hquery (hstatements sql hquery)
    | none => exact h.looks (dispatchRequest_looks hquery hword)

/-! ## Runs -/

/-- **The words behind a run** are those before it and those that were accepted, in order. -/
theorem vocabulary_run (h : Vocabulary s.engine words) {requests : List (Moment × Option HttpRequest)}
    (haside : ∀ request ∈ requests, AsideRequest request) :
    Vocabulary (routerMachine.run s requests).2.engine
      (words ++ acceptedIn (requests, (routerMachine.run s requests).1)) := by
  unfold acceptedIn
  induction requests generalizing s words with
  | nil =>
    rw [Machine.run_nil, List.zip_nil_left, List.filterMap_nil, List.append_nil]
    exact h
  | cons request requests ih =>
    have hnext := vocabulary_next h (haside request (List.mem_cons_self ..))
    have hrest := ih hnext fun request hmem => haside request (List.mem_cons_of_mem _ hmem)
    rw [List.append_assoc] at hrest
    rw [Machine.run_cons, List.zip_cons_cons, List.filterMap_cons]
    generalize accepted (request, (routerMachine s request).1) = word at hrest ⊢
    cases word with
    | none => exact hrest
    | some word => exact hrest

/-- A process that has started with a dictionary. -/
theorem vocabulary_engineInit {files : Path → Option CStr}
    (hready : engineIsReady (engineInit files) = true)
    (hbin : (engineInit files).storage.files (binPath dictionaryName) = none)
    (hschema : (engineInit files).storage.tableSchema dictionaryName = some dictionaryColumns)
    (hline : ∀ file ∈ (engineInit files).storage.content dictionaryName, EndsLine file) :
    ∃ words, (engineInit files).storage.words = some words ∧ Vocabulary (engineInit files) words := by
  obtain ⟨words, hwords, htrie⟩ := trieRebuilt_engineInit hready
  exact ⟨words, hwords, serves_engineInit hready, hbin, hschema, hline, hwords, htrie⟩

/-- What is suggested behind a run are the words that the dictionary had at the start and those whose
requests were answered with 200 since then, as far as they have the prefix. -/
theorem completions_of_run {files : Path → Option CStr} (hstart : Vocabulary (engineInit files) words)
    (webRoot : CStr) {before : List (Moment × Option HttpRequest)}
    (haside : ∀ request ∈ before, AsideRequest request) {run : List HttpResponse × RouterState}
    (hrun : run = routerMachine.run (boot files webRoot) before) {n : ℕ}
    (hasks : completionOf req = some (pre, n)) (m : Moment) :
    Completion pre ((suggested pre (words ++ acceptedIn (before, run.1))).take n)
      (routerMachine run.2 (m, some req)).1 := by
  have hbehind := @vocabulary_run _ _ (boot files webRoot) hstart _ haside
  rw [← hrun] at hbehind
  obtain ⟨hpath, -⟩ := completionOf_eq_some hasks
  have hdispatch : dispatchRequest m run.2 req = handleAutocompleteRequest m run.2 req := by
    unfold dispatchRequest
    rw [if_neg (by rw [hpath]; decide), if_pos hpath]
  change Completion pre _ (dispatchRequest m run.2 req).1
  rw [hdispatch]
  exact handleAutocompleteRequest_completion hbehind hasks

/-! ## Restarts -/

/-- A process from its start on some files to its end: its responses, and the files that it leaves. -/
def sessionMachine (webRoot : CStr) :
    Machine (Path → Option CStr) (List (Moment × Option HttpRequest)) (List HttpResponse) :=
  fun files requests =>
    let (responses, s) := routerMachine.run (boot files webRoot) requests
    (responses, s.engine.storage.files)

/-- **A restart finds the words again.** -/
theorem vocabulary_restart (h : Vocabulary e words) : Vocabulary (engineInit e.storage.files) words := by
  have hs := sound_start e.storage.files
  have hsame : SameTable dictionaryName e.storage (.start e.storage.files) :=
    @sameTable_of_files e.storage (.start e.storage.files) rfl dictionaryName
  have hexists : dictionarySchemaExists (.start e.storage.files) = true := by
    by_contra hmissing
    have hnone := tableSchema_of_missing (Bool.not_eq_true _ ▸ hmissing)
    have hsome := hsame.tableSchema.trans h.schema
    rw [hsome] at hnone
    exact absurd hnone (by simp)
  have hinit : engineInit e.storage.files =
      dictionaryTrieRebuild ⟨.start e.storage.files, trieCreate, false⟩ := if_pos hexists
  have hfiles : (engineInit e.storage.files).storage.files = e.storage.files := by
    rw [hinit]
    exact (@dictionaryTrieRebuild_sound _ ⟨.start e.storage.files, trieCreate, false⟩ hs).2
  have hready : engineIsReady (engineInit e.storage.files) = true := by
    rw [hinit, dictionaryTrieRebuild_ready hs]
    exact ⟨words, hsame.words.trans h.inserted, fun w hw => h.word hw⟩
  have hback : SameTable dictionaryName e.storage (engineInit e.storage.files).storage :=
    sameTable_of_files hfiles dictionaryName
  have hwords := hback.words.trans h.inserted
  obtain ⟨words', hwords', htrie⟩ := trieRebuilt_engineInit hready
  obtain rfl := Option.some.inj (hwords.symm.trans hwords')
  refine ⟨serves_engineInit hready, ?_, hback.tableSchema.trans h.schema, ?_, hwords, htrie⟩
  · rw [hfiles]
    exact h.no_bin
  · rw [hback.content]
    exact h.line

/-- The words behind any number of processes, one after the other. -/
theorem vocabulary_sessions {files : Path → Option CStr} (h : Vocabulary (engineInit files) words)
    (webRoot : CStr) {sessions : List (List (Moment × Option HttpRequest))}
    (haside : ∀ requests ∈ sessions, ∀ request ∈ requests, AsideRequest request) :
    Vocabulary (engineInit ((sessionMachine webRoot).run files sessions).2)
      (words ++ (sessions.zip ((sessionMachine webRoot).run files sessions).1).flatMap acceptedIn) := by
  induction sessions generalizing files words with
  | nil =>
    rw [Machine.run_nil, List.zip_nil_left, List.flatMap_nil, List.append_nil]
    exact h
  | cons requests sessions ih =>
    have hbehind := @vocabulary_run _ _ (boot files webRoot) h _
      (haside requests (List.mem_cons_self ..))
    have hrest := ih (vocabulary_restart hbehind) fun requests hmem =>
      haside requests (List.mem_cons_of_mem _ hmem)
    rw [List.append_assoc] at hrest
    rw [Machine.run_cons, List.zip_cons_cons, List.flatMap_cons]
    exact hrest

omit [CDouble] in
/-- A word, something that is no word, and a look at the table. -/
def wordRequests : List (Moment × Option HttpRequest) :=
  [(noFiles, some ⟨"POST".toList, "/api/admin/insert".toList, [], 32,
      some "\x7b\"english\":\"dog\",\"korean\":\"gae\"\x7d".toList⟩),
    (noFiles, some ⟨"POST".toList, "/api/admin/insert".toList, [], 32,
      some "\x7b\"english\":\"Dot\",\"korean\":\"jeom\"\x7d".toList⟩),
    (noFiles, some ⟨"POST".toList, "/api/query".toList, [], 24,
      some "SELECT * FROM dictionary".toList⟩)]

omit [CDouble] in
/-- A word with the same prefix. -/
def moreWords : List (Moment × Option HttpRequest) :=
  [(noFiles, some ⟨"POST".toList, "/api/admin/insert".toList, [], 33,
      some "\x7b\"english\":\"door\",\"korean\":\"mun\"\x7d".toList⟩)]

omit [CDouble] in
theorem vocabulary_noFiles : @Vocabulary (@engineInit .whole fun _ => none) [] := by
  obtain ⟨words, hwords, h⟩ := @vocabulary_engineInit .whole (fun _ => none) (by decide +kernel)
    (by decide +kernel) (by decide +kernel) (by decide +kernel)
  have hnil : (@engineInit .whole fun _ => none).storage.words = some [] := by decide +kernel
  obtain rfl := Option.some.inj (hwords.symm.trans hnil)
  exact h

end RouterState

end MiniSql
