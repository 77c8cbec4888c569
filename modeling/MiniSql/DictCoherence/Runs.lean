import MiniSql.DictCoherence
import MiniSql.DictProtocol

/-!
# The cache in front of the dictionary

Requests to `/api/dict`, `/api/admin/insert` and `/api/query` that are handled one after the other.
An insert throws out what is cached for its word and nothing else, and a query throws out nothing.
As long as the rows that match a lookup stay the same while it is cached, it returns what it would
return past the cache.

All is about one lookup: what the others have in the cache does not matter for it. The tree of the
dictionary matters for a lookup of an id, and for no other.

## Main definitions

* `CachedRight`, `Server.Right` — what is cached is what the engine would answer.
* `KeepsCached`, `InsertKeepsCached`, `KeepsRight` — the requests that keep it so.
* `DictRequest`, `Server.next` — one request after the other.

## Main results

* `Server.Right.lookup`, `Server.Right.insert`, `Server.Right.exec` — one request.
* `dict_coherent_of_run` — a lookup after any run.
-/

namespace MiniSql
open CText

/-! ## Cached answers -/

section Cached

variable [CDouble] {s : Server} {e : Engine} {c : DictCache (List Outcome)} {query : DictQuery}

/-- What the cache holds for a lookup is what the lookup would return now. -/
def CachedRight (st : Storage) (c : DictCache (List Outcome)) (query : DictQuery) : Prop :=
  ∀ key outcomes, query.key = some key → query.Valid → c.lookup key = some outcomes →
    ∀ sql ∈ query.statement,
      outcomes.map Outcome.forgetPath = [scanAnswer st sql] ∧ (scanAnswer st sql).ok = true

/-- The cache holds something for a lookup. -/
def Caches (c : DictCache (List Outcome)) (query : DictQuery) : Prop :=
  ∃ key ∈ query.key, (c.lookup key).isSome = true

theorem CachedRight.of_answers {st st' : Storage} (h : CachedRight st c query)
    (hsame : query.Valid → Caches c query → ∀ sql ∈ query.statement,
      scanAnswer st' sql = scanAnswer st sql) : CachedRight st' c query := by
  intro key outcomes hkey hvalid hlookup sql hsql
  have hcaches : Caches c query := ⟨key, hkey, by rw [hlookup]; rfl⟩
  rw [hsame hvalid hcaches sql hsql]
  exact h key outcomes hkey hvalid hlookup sql hsql

theorem CachedRight.sub {st : Storage} {c' : DictCache (List Outcome)} (h : CachedRight st c query)
    (hsub : ∀ key outcomes, c'.lookup key = some outcomes → c.lookup key = some outcomes) :
    CachedRight st c' query :=
  fun key outcomes hkey hvalid hlookup => h key outcomes hkey hvalid (hsub key outcomes hlookup)

/-- What is cached for another lookup does not matter. -/
theorem CachedRight.put {st : Storage} (h : CachedRight st c query) {query' : DictQuery}
    {key' : CStr} (hkey' : query'.key = some key') {outcomes' : List Outcome}
    (hright : query' = query → ∀ sql ∈ query.statement,
      outcomes'.map Outcome.forgetPath = [scanAnswer st sql] ∧ (scanAnswer st sql).ok = true) :
    CachedRight st (c.put key' outcomes') query := by
  intro key outcomes hkey hvalid hlookup sql hsql
  by_cases heq : key = key'
  · subst heq
    rw [DictCache.lookup_put_self c (DictQuery.key_ne_nil hkey)] at hlookup
    obtain rfl := Option.some.inj hlookup
    exact hright (DictQuery.key_inj hkey hkey') sql hsql
  · have hold := DictCache.lookup_put_of_ne heq hlookup
    exact h key outcomes hkey hvalid hold sql hsql

omit [CDouble] in
theorem lookup_of_invalidate {key key' : CStr} {outcomes : List Outcome}
    (hkey : key ≠ []) (h : (c.invalidate key).lookup key' = some outcomes) :
    c.lookup key' = some outcomes := by
  by_cases heq : key' = key
  · subst heq
    rw [DictCache.lookup_invalidate_self c hkey] at h
    exact absurd h (by simp)
  · rwa [DictCache.lookup_invalidate_of_ne heq] at h

/-- A server whose cache is right for a lookup. -/
structure Server.Right (s : Server) (query : DictQuery) : Prop where
  dict : DictReady s.engine
  tree : query.ById → TreeReady s.engine
  cached : CachedRight s.engine.storage s.cache query

/-- The engine behind a lookup. -/
theorem readDict_next (h : DictReady e) (hvalid : query.Valid) (mem : ℕ → Uninit) :
    DictReady (readDict mem e query).2 ∧ (TreeReady e → TreeReady (readDict mem e query).2) ∧
      ∀ sql, scanAnswer (readDict mem e query).2.storage sql = scanAnswer e.storage sql := by
  obtain ⟨sql, hparse, hlookup⟩ := parseSql_lookup hvalid (mem 0)
  have hexec : (readDict mem e query).2 = (executeStatement e sql).2 := by
    rw [readDict_eq h.serves.ready hvalid]
    unfold execOne
    rw [hparse]
  have hsql : sql.Plain := by
    refine ⟨hlookup.table ▸ by decide, ?_, ?_⟩
    · rw [hlookup.values.1]
      simp
    · rw [hlookup.values.2]
      simp
  have hcolumns : KeepsColumns e.storage sql := by
    intro _ htype
    rw [hlookup.type] at htype
    exact absurd htype (by simp)
  have hkeeps : KeepsInStep dictionaryName e sql := by
    intro _
    rw [hlookup.type]
    trivial
  refine ⟨?_, fun htree => ?_, fun sql' => ?_⟩
  · rw [hexec]
    exact h.next ⟨hsql.1.1, hsql.2⟩ (fun hne => absurd hlookup.type hne) hcolumns
  · rw [hexec]
    exact htree.next h hsql hcolumns hkeeps
  · obtain ⟨st, hst, -, hfiles⟩ := readDict_sound h.serves.sound mem query
    rw [hst]
    exact scanAnswer_congr (sameTable_of_files hfiles _)

/-- **A lookup leaves a right cache right**, for itself and for every other. -/
theorem Server.Right.lookup (h : s.Right query) (hdet : query.Determined) (mem : ℕ → Uninit)
    (query' : DictQuery) (bypass : Bool) :
    (handleDictRequest mem s query' bypass).2.Right query := by
  by_cases hvalid : query'.Valid
  · obtain ⟨hdict, htree, hanswers⟩ := @readDict_next _ s.engine query' h.dict hvalid mem
    have htree := fun hid => htree (h.tree hid)
    have hcached : ∀ c, CachedRight s.engine.storage c query →
        CachedRight (readDict mem s.engine query').2.storage c query :=
      fun c hc => hc.of_answers fun _ _ sql _ => hanswers sql
    unfold handleDictRequest
    rw [DictQuery.sql_eq hvalid]
    cases hkey : if bypass then none else query'.key with
    | none => exact ⟨hdict, htree, hcached _ h.cached⟩
    | some key =>
      have hkey : query'.key = some key := by
        cases bypass
        · exact hkey
        · exact absurd hkey (by simp)
      obtain ⟨hfst, hsnd⟩ := DictCache.lookup_get (c := s.cache) (DictQuery.key_ne_nil hkey)
      dsimp only
      rcases hget : s.cache.get key with ⟨_ | outcomes, cache⟩ <;> rw [hget] at hfst hsnd <;>
        dsimp only at hsnd ⊢
      · have hcache : CachedRight s.engine.storage cache query :=
          h.cached.sub fun key outcomes hlookup => by rwa [hsnd] at hlookup
        rcases hres : readDict mem s.engine query' with ⟨_ | ⟨_ | _, outcomes⟩, e⟩ <;>
          rw [hres] at hdict htree hcached hanswers <;>
            dsimp only at hdict htree hcached hanswers ⊢
        · exact ⟨hdict, htree, hcached _ hcache⟩
        · exact ⟨hdict, htree, hcached _ hcache⟩
        · refine ⟨hdict, htree, (hcached _ hcache).put hkey fun heq sql hsql => ?_⟩
          subst heq
          have hreply := readDict_forgetPath h.dict h.tree hvalid hdet hsql mem
          rw [hres] at hreply
          obtain ⟨hok, houtcomes⟩ := Reply.answer.inj hreply
          rw [hanswers]
          exact ⟨houtcomes, hok.symm⟩
      · exact ⟨h.dict, h.tree, h.cached.sub fun key outcomes hlookup => by rwa [hsnd] at hlookup⟩
  · unfold handleDictRequest
    rw [DictQuery.sql_eq_none hvalid]
    exact h

/-- **A right cache answers what the engine answers.** -/
theorem Server.Right.answers (h : s.Right query) {key : CStr} (hkey : query.key = some key)
    (hdet : query.Determined) (mem mem' : ℕ → Uninit) (bypass : Bool) :
    (handleDictRequest mem s query bypass).1.forgetPath =
      (handleDictRequest mem' s query true).1.forgetPath := by
  by_cases hvalid : query.Valid
  · obtain ⟨sql, hsql, -⟩ := DictQuery.statement_spec hvalid
    have hread := fun mem => readDict_forgetPath h.dict h.tree hvalid hdet hsql mem
    have hbypass : ∀ mem, (handleDictRequest mem s query true).1.forgetPath =
        .answer (scanAnswer s.engine.storage sql).ok [scanAnswer s.engine.storage sql] := by
      intro mem
      rw [← hread mem]
      unfold handleDictRequest
      rw [DictQuery.sql_eq hvalid]
      rfl
    rw [hbypass mem']
    cases bypass with
    | true => exact hbypass mem
    | false =>
      obtain ⟨hfst, -⟩ := DictCache.lookup_get (c := s.cache) (DictQuery.key_ne_nil hkey)
      unfold handleDictRequest
      rw [DictQuery.sql_eq hvalid, if_neg (by decide), hkey]
      dsimp only
      rcases hget : s.cache.get key with ⟨_ | outcomes, cache⟩ <;> rw [hget] at hfst <;>
        dsimp only
      · have hmiss := hread mem
        rcases hres : readDict mem s.engine query with ⟨_ | ⟨_ | _, outcomes⟩, e⟩ <;>
          rw [hres] at hmiss <;> exact hmiss
      · obtain ⟨houtcomes, hok⟩ := h.cached key outcomes hkey hvalid hfst.symm sql hsql
        rw [hok]
        change Reply.answer true (outcomes.map Outcome.forgetPath) = _
        rw [houtcomes]
  · unfold handleDictRequest
    rw [DictQuery.sql_eq_none hvalid]

/-! ## Writes -/

/-- **A statement keeps what is cached for a lookup right**: the dictionary stays one, for a lookup of
an id with its tree in step, and the rows that match the lookup stay the same while it is cached. -/
structure KeepsCached (c : DictCache (List Outcome)) (query : DictQuery) (e : Engine)
    (sql : ParsedSQL) : Prop where
  words : KeepsWords e.storage sql
  columns : KeepsColumns e.storage sql
  inStep : query.ById → '/' ∉ sql.table ∧ KeepsInStep dictionaryName e sql
  rows : Caches c query → KeepsMatches e.storage sql query

theorem KeepsCached.next (h : DictReady e) (htree : query.ById → TreeReady e) {sql : ParsedSQL}
    (hsql : sql.Parsed) (hkeeps : KeepsCached c query e sql) (hc : CachedRight e.storage c query) :
    DictReady (executeStatement e sql).2 ∧ (query.ById → TreeReady (executeStatement e sql).2) ∧
      CachedRight (executeStatement e sql).2.storage c query := by
  refine ⟨h.next hsql hkeeps.words hkeeps.columns, fun hid => ?_,
    hc.of_answers fun hvalid hcaches _ hlookup => scanAnswer_next h hsql hkeeps.words.writesPlain
      hkeeps.columns hvalid (hkeeps.rows hcaches) hlookup⟩
  obtain ⟨hslash, hstep⟩ := hkeeps.inStep hid
  exact (htree hid).next h ⟨⟨hsql.1, hslash⟩, hsql.2⟩ hkeeps.columns hstep

/-- The statement of a text keeps what is cached right. -/
def StatementKeepsCached (c : DictCache (List Outcome)) (query : DictQuery) (e : Engine)
    (stmt : Uninit × CStr) : Prop :=
  ∀ sql ∈ parseSql stmt.1 stmt.2, KeepsCached c query e sql

/-- **A query whose statements keep what is cached right leaves a right cache.** -/
theorem Server.Right.exec (h : s.Right query) (mem : ℕ → Uninit) {body : CStr}
    (hnul : NulFree body) (hkeeps : Runs.Meets Engine.exec (StatementKeepsCached s.cache query)
      s.engine (callStatements mem body)) : (handleQueryRequest mem s body).2.Right query := by
  unfold handleQueryRequest
  split
  · exact h
  · have hmeets : Runs.Meets Engine.exec (fun e stmt => NulFree stmt.2 ∧
        StatementKeepsCached s.cache query e stmt) s.engine (callStatements mem body) :=
      hkeeps.imp fun e stmt hstmt hkeeps => ⟨nulFree_callStatements hnul stmt hstmt, hkeeps⟩
    have hinv := @Runs.invariant Engine (Uninit × CStr) _ _
      (fun e => DictReady e ∧ (query.ById → TreeReady e) ∧ CachedRight e.storage s.cache query)
      (fun e stmt e' hinv hcond hstep => by
        obtain rfl := Option.some.inj hstep
        unfold execOne
        cases hparse : parseSql stmt.1 stmt.2 with
        | none => exact hinv
        | some sql =>
          have hkeeps := hcond.2 sql hparse
          obtain ⟨hvalues, hsets⟩ := nulFree_parseSql hcond.1 hparse
          exact hkeeps.next hinv.1 hinv.2.1 ⟨(parseSql_from hparse).table, hvalues, hsets⟩ hinv.2.2)
      _ _ _ ⟨h.dict, h.tree, h.cached⟩ hmeets (run_callStatements mem s.engine body)
    exact ⟨hinv.1, hinv.2.1, hinv.2.2⟩

/-- **An inserted word keeps what is cached for a lookup right**: the tree stays in step for an id, and
the new row does not match the lookup if that is cached behind the invalidation. -/
def InsertKeepsCached (s : Server) (query : DictQuery) (mem : ℕ → Uninit)
    (english korean : Param 256) : Prop :=
  isAsciiLowercaseWord english.1 = true → korean.1 ≠ [] →
    ∀ sql ∈ parseSql (mem 0) (adminInsertText english.1 korean.1),
      (query.ById → KeepsInStep dictionaryName s.engine sql) ∧
        (Caches (s.cache.invalidate (englishKey english.1)) query →
          KeepsMatches s.engine.storage sql query)

/-- **An insert of a word leaves a right cache.** -/
theorem Server.Right.insert (h : s.Right query) (mem : ℕ → Uninit) {english korean : Param 256}
    (hkeeps : InsertKeepsCached s query mem english korean) :
    (handleAdminInsertRequest mem s english korean).2.Right query := by
  by_cases hvalid : isAsciiLowercaseWord english.1 = true ∧ korean.1 ≠ []
  · obtain ⟨hword, hkorean⟩ := hvalid
    have hs := h.dict.serves.sound
    have hready := h.dict.serves.ready
    obtain ⟨values, hparse⟩ := @parseSql_adminInsertText english.1 korean.1 hword (mem 0)
    obtain ⟨hstep, hmatches⟩ := hkeeps hword hkorean _ hparse
    set sql : ParsedSQL := { adminInsertStatement english.1 [] with values := english.1 :: values }
      with hsqldef
    obtain ⟨hvalues, hsets⟩ :=
      nulFree_parseSql (nulFree_adminInsertText english.2.2 korean.2.2) hparse
    have hsql : sql.Plain := ⟨(by decide : PlainName dictionaryName), hvalues, hsets⟩
    have hparsed : sql.Parsed := ⟨hsql.1.1, hsql.2⟩
    have hslash : sql.WritesPlain := fun _ _ => hsql.1.2
    have hcolumns : KeepsColumns s.engine.storage sql := fun _ htype => absurd htype (by
      simp [hsqldef, adminInsertStatement])
    have hexec : execOne s.engine (mem 0) (adminInsertText english.1 korean.1) =
        executeStatement s.engine sql := by
      unfold execOne
      rw [hparse]
    have hinsert := insertWord_eq hready hword hkorean mem
    rw [hexec] at hinsert
    have hline : ∀ file ∈ s.engine.storage.content dictionaryName, EndsRecord file := by
      intro file hfile
      obtain ⟨_, _, hrows⟩ := h.dict.dictionary
      exact (hrows.line file hfile).imp_right .inl
    have hdict : DictReady (executeStatement s.engine sql).2 := by
      obtain ⟨_, hserves, -⟩ := @insertWord_spec _ s.engine english korean h.dict.serves hline mem
      rw [hinsert] at hserves
      exact h.dict.of_serves hparsed hslash hcolumns hserves
    have htree : query.ById → TreeReady (executeStatement s.engine sql).2 :=
      fun hid => (h.tree hid).next h.dict hsql hcolumns (hstep hid)
    have hkey := englishKey_ne_nil english.1
    have hcached : CachedRight (executeStatement s.engine sql).2.storage
        (s.cache.invalidate (englishKey english.1)) query :=
      (h.cached.sub fun _ _ => lookup_of_invalidate hkey).of_answers
        fun hvalid hcaches _ hlookup =>
          scanAnswer_next h.dict hparsed hslash hcolumns hvalid (hmatches hcaches) hlookup
    unfold handleAdminInsertRequest
    rw [hinsert]
    cases hok : (executeStatement s.engine sql).1.ok with
    | true => exact ⟨hdict, htree, hcached⟩
    | false =>
      -- a failed insert has appended nothing
      have happ : appendedRow s.engine.storage dictionaryName sql.columns sql.values = none := by
        refine Option.eq_none_iff_forall_ne_some.mpr fun row happ => ?_
        have hstatus := storageInsert_auto_ok (by decide) (hs.coherent dictionaryName (by decide))
          happ (by simp [hsqldef, adminInsertStatement]) (userHasId_words _)
        have hanswer : (executeStatement s.engine sql).1 = .ofStatus
          (storageInsert s.engine.storage dictionaryName sql.columns sql.values).1 := rfl
        rw [hanswer, hstatus] at hok
        exact absurd hok (by simp [Outcome.ofStatus, Outcome.ok])
      refine ⟨hdict, htree, h.cached.of_answers fun hvalid _ _ hlookup =>
        scanAnswer_next h.dict hparsed hslash hcolumns hvalid (fun d _ lookup _ => ?_) hlookup⟩
      have hbehind : rowsBehind s.engine.storage sql d.2 = d.2 := by
        unfold rowsBehind
        change (if dictionaryName = dictionaryName then d.2 ++
          (appendedRow s.engine.storage dictionaryName sql.columns sql.values).toList else _) = _
        rw [if_pos rfl, happ, Option.toList_none, List.append_nil]
      rw [hbehind]
  · unfold handleAdminInsertRequest insertWord
    rw [if_neg hvalid]
    exact h

end Cached

/-! ## Runs -/

/-- A request to `/api/dict`, `/api/admin/insert` or `/api/query`. -/
inductive DictRequest
  | lookup (query : DictQuery) (bypass : Bool)
  | insert (english korean : Param 256)
  | query (body : { text : CStr // NulFree text })

section Runs

variable [CDouble] {files : Path → Option CStr} {capacity : ℤ} {s : Server}

/-- What `router_dispatch` does with a request. -/
def Server.handle (s : Server) (mem : ℕ → Uninit) : DictRequest → Reply × Server
  | .lookup query bypass => handleDictRequest mem s query bypass
  | .insert english korean => handleAdminInsertRequest mem s english korean
  | .query body => handleQueryRequest mem s body.1

/-- One request after the other. -/
def Server.next (s : Server) (request : (ℕ → Uninit) × DictRequest) : Option Server :=
  some (s.handle request.1 request.2).2

/-- A process that has just started. -/
def serverStart (files : Path → Option CStr) (capacity : ℤ) : Server :=
  ⟨engineInit files, .create capacity⟩

/-- **A lookup returns what it would return past the cache.** -/
def Server.Coherent (s : Server) (query : DictQuery) : Prop :=
  ∀ key, query.key = some key → ∀ mem mem' bypass,
    (handleDictRequest mem s query bypass).1.forgetPath =
      (handleDictRequest mem' s query true).1.forgetPath

/-- **A request keeps the cache right for a lookup.** Another lookup does so always. -/
def KeepsRight (query : DictQuery) (s : Server) (request : (ℕ → Uninit) × DictRequest) : Prop :=
  match request.2 with
  | .lookup _ _ => True
  | .insert english korean => InsertKeepsCached s query request.1 english korean
  | .query body => Runs.Meets Engine.exec (StatementKeepsCached s.cache query) s.engine
      (callStatements request.1 body.1)

/-- A data directory with which the engine is ready, and finds or makes a dictionary whose file ends
its last line. For a lookup of an id there are none but distinct positive `int` ids, and no `.bin`
file. -/
structure DictionaryFiles (files : Path → Option CStr) (query : DictQuery) : Prop where
  ready : engineIsReady (engineInit files) = true
  line : ∀ file ∈ (engineInit files).storage.content dictionaryName, EndsLine file
  point : query.ById → PointReady dictionaryName (.start files)
  id : query.ById → ∀ schema ∈ (Storage.start files).tableSchema dictionaryName,
    ∃ idCol, IntId schema idCol

omit [CDouble] in
/-- The columns that `engine_init` gives to a new dictionary. -/
def dictionaryColumns : List ColDef :=
  [⟨"id".toList, .int⟩, ⟨"english".toList, .varchar⟩, ⟨"korean".toList, .varchar⟩]

omit [CDouble] in
theorem schemaText_dictionaryCreate :
    (schemaText (fun _ => false) dictionaryCreate.colDefs 0 []).bind parseSchema =
      some dictionaryColumns := by
  decide +kernel

theorem dictReady_engineInit (hready : engineIsReady (engineInit files) = true)
    (hline : ∀ file ∈ (engineInit files).storage.content dictionaryName, EndsLine file) :
    DictReady (engineInit files) := by
  obtain ⟨schema, file, j, rows, hschema, hfile, -, hload, -⟩ :=
    goodWords_iff.mp (goodWords_engineInit hready)
  refine ⟨serves_engineInit hready, schema, rows, dictionaryRows_eq_some.mpr ⟨hschema, ?_⟩, hline⟩
  rw [hfile]
  exact hload

theorem treeReady_engineInit (hready : engineIsReady (engineInit files) = true)
    (hpoint : PointReady dictionaryName (.start files))
    (hid : ∀ schema ∈ (Storage.start files).tableSchema dictionaryName, ∃ idCol, IntId schema idCol) :
    TreeReady (engineInit files) := by
  obtain ⟨schema, file, j, rows, hschema, -⟩ := goodWords_iff.mp (goodWords_engineInit hready)
  set e : Engine := ⟨.start files, trieCreate, false⟩ with he
  by_cases hexists : dictionarySchemaExists e.storage = true
  · have hinit : engineInit files = refreshAfterWrite e dictionaryName (.ok ()) := by
      exact (if_pos hexists).trans (if_pos ⟨rfl, by decide⟩).symm
    obtain ⟨paths, hpaths, hsound⟩ :=
      @refreshAfterWrite_sound _ e hpoint.sound dictionaryName (.ok ())
    rw [← hinit] at hpaths
    obtain ⟨idCol, hidx⟩ := hid schema (by
      rw [hpaths] at hschema
      exact hschema)
    refine ⟨?_, schema, idCol, hschema, hidx⟩
    rw [hpaths]
    exact hpoint.pathCache hsound
  · have hinit : engineInit files = (executeStatement e dictionaryCreate).2 := if_neg hexists
    have hnone := tableSchema_of_missing (Bool.not_eq_true _ ▸ hexists)
    have hcreated : PointReady dictionaryName (engineInit files).storage := by
      rw [hinit]
      refine hpoint.next (by decide) (by decide) fun _ _ schema hschema => ?_
      rw [hnone] at hschema
      exact absurd hschema (by simp)
    obtain ⟨text, htext, hparse⟩ := Option.bind_eq_some_iff.mp schemaText_dictionaryCreate
    have hplace : e.storage.tablePlace dictionaryName = .legacy →
        e.storage.schemaPlace dictionaryName = .legacy := by
      rw [tablePlace_of_no_legacy hpoint.no_legacy.2]
      exact fun hlegacy => absurd hlegacy (by simp)
    obtain ⟨-, hcolumns, -⟩ := storageCreate_ok hpoint.sound (by decide : PlainName dictionaryName)
      (by decide) htext hplace
    obtain ⟨paths, hpaths, -⟩ := @refreshAfterWrite_sound _
      { e with storage := (storageCreate e.storage dictionaryName dictionaryCreate.colDefs).2 }
      (sound_storageCreate hpoint.sound (by decide) _) dictionaryName
      (storageCreate e.storage dictionaryName dictionaryCreate.colDefs).1
    refine ⟨hcreated, dictionaryColumns, 0, ?_, by decide, by decide⟩
    rw [hinit]
    exact (congrArg (Storage.tableSchema · dictionaryName) hpaths).trans (hcolumns.trans hparse)

theorem right_serverStart {query : DictQuery} (h : DictionaryFiles files query) :
    (serverStart files capacity).Right query := by
  refine ⟨dictReady_engineInit h.ready h.line,
    fun hid => treeReady_engineInit h.ready (h.point hid) (h.id hid),
    fun key outcomes _ _ hlookup => ?_⟩
  rw [serverStart, DictCache.lookup_create] at hlookup
  exact absurd hlookup (by simp)

theorem Server.Right.next {query : DictQuery} (h : s.Right query) (hdet : query.Determined)
    {request : (ℕ → Uninit) × DictRequest} (hkeeps : KeepsRight query s request) {s' : Server}
    (hstep : s.next request = some s') : s'.Right query := by
  obtain rfl := Option.some.inj hstep
  obtain ⟨mem, request⟩ := request
  cases request with
  | lookup query' bypass => exact h.lookup hdet mem query' bypass
  | insert english korean => exact h.insert mem hkeeps
  | query body => exact h.exec mem body.2 hkeeps

omit [CDouble] in
/-- An insert throws out what is cached for its word. -/
theorem not_caches_invalidate {c : DictCache (List Outcome)} {query : DictQuery} {key : CStr}
    (hkey : query.key = some key) : ¬ Caches (c.invalidate key) query := by
  rintro ⟨key', hkey', hsome⟩
  obtain rfl : key = key' := Option.some.inj (hkey.symm.trans hkey')
  rw [DictCache.lookup_invalidate_self c (DictQuery.key_ne_nil hkey)] at hsome
  exact absurd hsome (by simp)

omit [CDouble]

/-- `id=1`. -/
def idOne : DictQuery := .id ⟨['1'], by decide⟩

/-- A DELETE that no row matches, and statements on another table. -/
def otherQuery : { text : CStr // NulFree text } :=
  ⟨("DELETE FROM dictionary WHERE id = 7; CREATE TABLE t (id INT, name VARCHAR); " ++
    "INSERT INTO t (name) VALUES ('c');").toList, by decide⟩

/-- A lookup of a word, statements that leave the dictionary as it is, and an insert of this word, with
which the tree gets out of step. -/
def dogRequests : List ((ℕ → Uninit) × DictRequest) :=
  [(fun _ => .zero, .lookup (.english dog) false), (fun _ => .zero, .query otherQuery),
    (fun _ => .zero, .insert dog gae)]

/-- A lookup of an id, and an insert that gives it to a row. -/
def idRequests : List ((ℕ → Uninit) × DictRequest) :=
  [(fun _ => .zero, .lookup idOne false), (fun _ => .zero, .insert dog gae)]

/-- An insert of a word, a lookup of this word, and a query that deletes it. -/
def deleteRequests : List ((ℕ → Uninit) × DictRequest) :=
  [(fun _ => .zero, .insert dog gae), (fun _ => .zero, .lookup (.english dog) false),
    (fun _ => .zero, .query ⟨"DELETE FROM dictionary;".toList, by decide⟩)]

instance (st : Storage) (sql : ParsedSQL) (query : DictQuery) :
    Decidable (@KeepsMatches .whole st sql query) :=
  inferInstanceAs (Decidable (∀ d ∈ st.dictionaryRows, ∀ lookup ∈ query.statement,
    @collectMatchingRows .whole lookup d.1 (@rowsBehind .whole st sql d.2) =
      @collectMatchingRows .whole lookup d.1 d.2))

instance (st : Storage) (sql : ParsedSQL) : Decidable (KeepsColumns st sql) :=
  inferInstanceAs (Decidable (_ → _ → _))

theorem meets_dogRequests : Runs.Meets (@Server.next .whole) (@KeepsRight .whole (.english dog))
    (@serverStart .whole noFiles 4) dogRequests := by
  refine Runs.meets_cons.mpr ⟨trivial, fun s₁ h₁ => Runs.meets_cons.mpr ⟨?_, fun s₂ h₂ =>
    Runs.meets_cons.mpr ⟨?_, fun _ _ => trivial⟩⟩⟩
  · obtain rfl := Option.some.inj h₁
    have hother : Runs.Meets (@Engine.exec .whole)
        (fun e stmt => ∀ sql ∈ parseSql stmt.1 stmt.2, @KeepsWords .whole e.storage sql ∧
          KeepsColumns e.storage sql ∧ @KeepsMatches .whole e.storage sql (.english dog))
        (@Server.handle .whole (@serverStart .whole noFiles 4) (fun _ => .zero)
          (.lookup (.english dog) false)).2.engine
        (callStatements (fun _ => .zero) otherQuery.1) := by
      decide +kernel
    exact hother.imp fun e stmt _ h sql hsql =>
      @KeepsCached.mk .whole _ (.english dog) e sql (h sql hsql).1 (h sql hsql).2.1
        (fun hid => absurd hid id) fun _ => (h sql hsql).2.2
  · exact fun _ _ sql _ => ⟨fun hid => absurd hid id, fun hcaches =>
      absurd hcaches (@not_caches_invalidate _ (.english dog) (englishKey dog.1) rfl)⟩

end Runs

end MiniSql
