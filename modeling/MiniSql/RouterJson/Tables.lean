import MiniSql.Database.Runs
import MiniSql.RouterJson.Dispatch
import MiniSql.RouterJson.Fields

/-!
# What the requests do to the tables

A request reaches the tables by `/api/query`, with any statements, and by `/api/admin/insert`, with
one word. Whatever the others bring in their paths and parameters, it does not become a statement
that writes.

## Main definitions

* `RouterState.asked` — the statements that a request asks for.
* `Engine.Looks` — what a SELECT may change.
* `RouterState.routerMachine` — the router as a machine.

## Main results

* `dispatchRequest_looks` — a request that does not write only looks.
* `router_simulates` — a request is a batch of statements for the tables.
* `readonly_of_run`, `database_of_requests` — the same along runs.
-/

namespace MiniSql
open CText

variable [CDouble]

/-! ## Looking -/

omit [CDouble] in
/-- At most the caches of the storage differ. -/
structure Engine.Looks (e e' : Engine) : Prop where
  trie : e'.trie = e.trie
  trieReady : e'.trieReady = e.trieReady
  storage : OnlyReads e.storage e'.storage

omit [CDouble] in
theorem Engine.Looks.refl (e : Engine) : e.Looks e := ⟨rfl, rfl, .refl _⟩

omit [CDouble] in
theorem Engine.Looks.trans {e e' e'' : Engine} (h : e.Looks e') (h' : e'.Looks e'') : e.Looks e'' :=
  ⟨h'.trie.trans h.trie, h'.trieReady.trans h.trieReady, h.storage.trans h'.storage⟩

/-- A text that begins like a SELECT only looks, whatever follows. -/
theorem execOne_looks {e : Engine} {text rest : CStr}
    (htext : text = "SELECT".toList ++ ' ' :: rest) (mem : Uninit) :
    e.Looks (execOne e mem text).2 := by
  obtain ⟨sql, hparse, htype⟩ := parseSql_select mem rest
  rw [← htext] at hparse
  obtain ⟨st, hselect, hreads⟩ := @executeSelect_reads _ e sql (parseSql_from hparse).table
  have hexec : (execOne e mem text).2 = { e with storage := st } := by
    rw [← hselect, execOne, hparse]
    dsimp only
    rw [executeStatement, htype]
  rw [hexec]
  exact ⟨rfl, rfl, hreads⟩

/-! ## The statements of a request -/

namespace RouterState

omit [CDouble] in
/-- The word that a request brings to `/api/admin/insert`, and its translation. -/
def wordOf (req : HttpRequest) : Option (CStr × CStr) :=
  if req.path = "/api/admin/insert".toList ∧ req.method = "POST".toList ∧ req.contentLength ≠ 0 then do
    let body ← req.body
    let english ← jsonGetStringField body "english".toList 256
    let korean ← jsonGetStringField body "korean".toList 256
    if isAsciiLowercaseWord english ∧ korean ≠ [] then some (english, korean) else none
  else none

omit [CDouble] in
/-- The statements that a request asks for, each with the memory that its parser gets. -/
def askedOf (m : Moment) (req : HttpRequest) : List (Uninit × CStr) :=
  match queryText req, wordOf req with
  | some sql, _ => callStatements m.mem sql
  | none, some word => [(m.mem 0, adminInsertText word.1 word.2)]
  | none, none => []

omit [CDouble] in
def asked (request : Moment × Option HttpRequest) : List (Uninit × CStr) :=
  (request.2.map (askedOf request.1)).getD []

variable {m : Moment} {s : RouterState} {req : HttpRequest}

omit [CDouble] in
theorem asked_query {sql : CStr} (hquery : queryText req = some sql) :
    asked (m, some req) = callStatements m.mem sql := by
  change askedOf m req = _
  rw [askedOf, hquery]

omit [CDouble] in
theorem asked_word {word : CStr × CStr} (hquery : queryText req = none) (hword : wordOf req = some word) :
    asked (m, some req) = [(m.mem 0, adminInsertText word.1 word.2)] := by
  change askedOf m req = _
  rw [askedOf, hquery, hword]

omit [CDouble] in
theorem asked_none (hquery : queryText req = none) (hword : wordOf req = none) :
    asked (m, some req) = [] := by
  change askedOf m req = _
  rw [askedOf, hquery, hword]

omit [CDouble] in
theorem queryText_of_ne (h : req.path ≠ "/api/query".toList) : queryText req = none :=
  if_neg fun hreq => h hreq.1

omit [CDouble] in
theorem wordOf_of_ne (h : req.path ≠ "/api/admin/insert".toList) : wordOf req = none :=
  if_neg fun hreq => h hreq.1

omit [CDouble] in
theorem wordOf_eq_some {english korean : CStr} (h : wordOf req = some (english, korean)) :
    req.path = "/api/admin/insert".toList ∧ req.method = "POST".toList ∧ req.contentLength ≠ 0 ∧
      ∃ body, req.body = some body ∧
        jsonGetStringField body "english".toList 256 = some english ∧
        jsonGetStringField body "korean".toList 256 = some korean ∧
        isAsciiLowercaseWord english = true ∧ korean ≠ [] := by
  unfold wordOf at h
  split_ifs at h with hreq
  obtain ⟨hpath, hmethod, hlength⟩ := hreq
  obtain ⟨body, hbody, h⟩ := Option.bind_eq_some_iff.mp h
  obtain ⟨english', henglish, h⟩ := Option.bind_eq_some_iff.mp h
  obtain ⟨korean', hkorean, h⟩ := Option.bind_eq_some_iff.mp h
  split_ifs at h with hvalid
  obtain ⟨rfl, rfl⟩ := Prod.mk.inj (Option.some.inj h)
  exact ⟨hpath, hmethod, hlength, body, hbody, henglish, hkorean, hvalid⟩

/-! ## One request -/

/-- A call with one SELECT only looks. -/
theorem engineExec_looks {text rest : CStr}
    (hsplit : splitLoop none (text ++ [';']) = (text, [';'])) (htrim : Trimmed text)
    (htext : text = "SELECT".toList ++ ' ' :: rest) :
    s.engine.Looks (engineExec m s (text ++ [';'])).2.engine := by
  have hne : text ≠ [] := by
    rw [htext]
    simp
  have hengine : (engineExec m s (text ++ [';'])).2.engine = (execOne s.engine (m.mem 0) text).2 := by
    rw [engineExec]
    dsimp only
    rw [engineExecSql_one hsplit htrim hne]
  rw [hengine]
  exact execOne_looks htext _

omit [CDouble] in
theorem autocompleteText_eq (pre : CStr) (limit : ℤ) :
    ∃ rest, autocompleteText pre limit = "SELECT".toList ++ ' ' :: rest := by
  refine ⟨"english FROM dictionary WHERE english LIKE '".toList ++ (pre ++ ("%' LIMIT ".toList ++
    intText limit)), ?_⟩
  unfold autocompleteText
  generalize intText limit = digits
  simp

/-- Nothing in a prefix makes a write of it. -/
theorem handleAutocompleteRequest_looks :
    s.engine.Looks (handleAutocompleteRequest m s req).2.engine := by
  have hkeep := Engine.Looks.refl s.engine
  unfold handleAutocompleteRequest
  by_cases hmethod : req.method ≠ "GET".toList
  · rw [if_pos hmethod]
    exact hkeep
  rw [if_neg hmethod]
  cases queryParam req.query "prefix".toList 256 with
  | none => exact hkeep
  | some pre =>
    dsimp only
    by_cases hword : isAsciiLowercaseWord pre.1 = false
    · rw [if_pos hword]
      exact hkeep
    rw [if_neg hword]
    have hword : isAsciiLowercaseWord pre.1 = true := by simpa using hword
    have hlen : pre.1.length < 256 := pre.2.1
    cases hlimit : parseLimitParam req.query with
    | none => exact hkeep
    | some limit =>
      have hquote : '\'' ∉ pre.1 := not_mem_of_isAsciiLowercaseWord hword (by decide)
      have hpos := parseLimitParam_nonneg hlimit
      dsimp only
      rw [sqlEscapeLiteral_eq (by omega), Option.bind_some, doubleApostrophes_of_not_mem hquote]
      cases hsql : snprintf 768 ("SELECT english FROM dictionary WHERE english LIKE '".toList ++ pre.1 ++
          "%' LIMIT ".toList ++ intText limit ++ ";".toList) with
      | none => exact hkeep
      | some sql =>
        have htext : sql = autocompleteText pre.1 limit ++ [';'] := snprintf_eq_some hsql
        obtain ⟨rest, hrest⟩ := autocompleteText_eq pre.1 limit
        dsimp only
        by_cases hready : engineIsReady s.engine = false
        · rw [if_pos hready]
          exact hkeep
        rw [if_neg hready, htext]
        have hlooks := @engineExec_looks _ m s _ rest (splitLoop_autocompleteText hword hpos)
          (trimmed_autocompleteText hpos) hrest
        generalize engineExec m s (autocompleteText pre.1 limit ++ [';']) = result at hlooks
        split <;> exact hlooks

/-- Nor does anything in a word, an id or a translation. -/
theorem askEngine_looks {e : Engine} (hs : e.Looks s.engine) {query : DictQuery} {sql : CStr}
    (hsql : query.sql = some sql) (key : Option CStr) (lookup : ℕ) :
    e.Looks (askEngine m s query sql key lookup).2.engine := by
  obtain ⟨hvalid, rfl⟩ := DictQuery.text_of_sql hsql
  obtain ⟨rest, hrest⟩ := query.text_eq
  unfold askEngine
  split_ifs
  · exact hs
  · exact hs.trans (engineExec_looks (DictQuery.splitLoop_text hvalid)
      (DictQuery.trimmed_text hvalid) hrest)

theorem handleDictRequest_looks : s.engine.Looks (handleDictRequest m s req).2.engine := by
  have hkeep := Engine.Looks.refl s.engine
  unfold handleDictRequest
  by_cases hmethod : req.method ≠ "GET".toList
  · rw [if_pos hmethod]
    exact hkeep
  rw [if_neg hmethod]
  cases dictQueryOf req.query with
  | none => exact hkeep
  | some query =>
    dsimp only
    cases hsql : query.sql with
    | none => cases query <;> exact hkeep
    | some sql =>
      dsimp only
      split
      · exact askEngine_looks hkeep hsql none 0
      · split
        · exact hkeep
        · rename_i cache _
          exact askEngine_looks (s := { s with cache := cache }) hkeep hsql _ _

/-- A request without a word leaves the engine alone. -/
theorem handleAdminInsertRequest_none (hpath : req.path = "/api/admin/insert".toList)
    (hword : wordOf req = none) : (handleAdminInsertRequest m s req).2 = s := by
  unfold handleAdminInsertRequest
  by_cases hmethod : req.method ≠ "POST".toList
  · rw [if_pos hmethod]
  rw [if_neg hmethod]
  cases hbody : req.body with
  | none => rfl
  | some body =>
    cases hlength : req.contentLength with
    | zero => rfl
    | succ n =>
      have hreq : req.path = "/api/admin/insert".toList ∧ req.method = "POST".toList ∧
          req.contentLength ≠ 0 := ⟨hpath, not_not.mp hmethod, by omega⟩
      rw [wordOf, if_pos hreq, hbody, Option.bind_eq_bind, Option.bind_some] at hword
      dsimp only
      cases henglish : jsonGetStringField body "english".toList 256 with
      | none => rfl
      | some english =>
        cases hkorean : jsonGetStringField body "korean".toList 256 with
        | none => rfl
        | some korean =>
          rw [henglish, hkorean] at hword
          simp only [Option.bind_some] at hword
          dsimp only
          by_cases hvalid : isAsciiLowercaseWord english = true ∧ korean ≠ []
          · rw [if_pos hvalid] at hword
            exact absurd hword (by simp)
          · rw [if_neg hvalid]

/-- Nor does one without statements. -/
theorem handleQueryRequest_none (hpath : req.path = "/api/query".toList)
    (hquery : queryText req = none) : (handleQueryRequest m s req).2 = s := by
  unfold handleQueryRequest
  by_cases hmethod : req.method ≠ "POST".toList
  · rw [if_pos hmethod]
  rw [if_neg hmethod]
  cases hbody : req.body with
  | none => rfl
  | some body =>
    cases hlength : req.contentLength with
    | zero => rfl
    | succ n =>
      have hreq : req.path = "/api/query".toList ∧ req.method = "POST".toList ∧
          req.contentLength ≠ 0 := ⟨hpath, not_not.mp hmethod, by omega⟩
      rw [queryText, if_pos hreq, hbody] at hquery
      exact absurd hquery (by simp)

/-- **A request that asks for no statement only looks**, whatever its path and its parameters are. -/
theorem dispatchRequest_looks (hquery : queryText req = none) (hword : wordOf req = none) :
    s.engine.Looks (dispatchRequest m s req).2.engine := by
  have hkeep := Engine.Looks.refl s.engine
  unfold dispatchRequest
  by_cases hdict : req.path = "/api/dict".toList
  · rw [if_pos hdict]
    exact handleDictRequest_looks
  rw [if_neg hdict]
  by_cases hauto : req.path = "/api/autocomplete".toList
  · rw [if_pos hauto]
    exact handleAutocompleteRequest_looks
  rw [if_neg hauto]
  by_cases hadmin : req.path = "/api/admin/insert".toList
  · rw [if_pos hadmin]
    rw [handleAdminInsertRequest_none hadmin hword]
    exact hkeep
  rw [if_neg hadmin]
  by_cases hpath : req.path = "/api/query".toList
  · rw [if_pos hpath]
    rw [handleQueryRequest_none hpath hquery]
    exact hkeep
  rw [if_neg hpath]
  split_ifs <;> exact hkeep

/-! ## The statements as a batch -/

omit [CDouble] in
theorem adminInsertText_ne_nil (english korean : CStr) : adminInsertText english korean ≠ [] := by
  unfold adminInsertText
  simp

omit [CDouble] in
/-- No field of a body has a NUL. -/
theorem nulFree_of_field {body field value : CStr} {size : ℕ}
    (h : jsonGetStringField body field size = some value) : NulFree value := by
  intro hmem
  have hprint : 0x20 ≤ (Char.ofNat 0).toNat := printable_of_jsonGetStringField h _ hmem
  exact absurd hprint (by decide)

omit [CDouble] in
/-- The statement of a word is clean, whatever the two texts are. -/
theorem clean_word {english korean : CStr} (h : wordOf req = some (english, korean)) (mem : Uninit) :
    Clean (mem, adminInsertText english korean) := by
  obtain ⟨-, -, -, body, -, henglish, hkorean, hword, -⟩ := wordOf_eq_some h
  have hfree := nulFree_adminInsertText (nulFree_of_field henglish) (nulFree_of_field hkorean)
  refine ⟨hfree, ?_⟩
  obtain ⟨values, hparse⟩ := @parseSql_adminInsertText english korean hword mem
  rw [statementOf, hparse]
  exact (by decide : '/' ∉ dictionaryName)

omit [CDouble] in
/-- The answers to statements that are read off the tables. -/
theorem answers_of_scanned {stmts : List (Uninit × CStr)} {outcomes : List Outcome}
    {answers : List Answer} (hlen : outcomes.length = stmts.length)
    (h : List.Forall₂ (fun stmt answer => AnswersAs stmt.1 stmt.2 answer) (stmts.zip outcomes) answers)
    (hscan : ∀ stmt ∈ stmts, Scanned (statementOf stmt)) : outcomes.map Outcome.answer = answers := by
  induction stmts generalizing outcomes answers with
  | nil =>
    obtain rfl := List.length_eq_zero_iff.mp hlen
    cases h
    rfl
  | cons stmt stmts ih =>
    obtain ⟨o, outcomes, rfl⟩ := List.exists_cons_of_length_eq_add_one hlen
    cases h with
    | cons hfirst hrest =>
      rw [List.map_cons, hfirst (hscan stmt (List.mem_cons_self ..)),
        ih (Nat.succ.inj hlen) hrest fun stmt hmem => hscan stmt (List.mem_cons_of_mem _ hmem)]

/-- A call is all right if and only if something was asked and nothing failed. -/
theorem engineExec_ok {sql : CStr}
    (hdefined : .undefined ∉ (engineExecSql m.mem s.engine sql).2.1.map Outcome.answer) :
    (engineExec m s sql).1.ok = true ↔ (engineExecSql m.mem s.engine sql).2.1 ≠ [] ∧
      .failed ∉ (engineExecSql m.mem s.engine sql).2.1.map Outcome.answer := by
  rw [← executed_outcome m.mem m.stray] at hdefined ⊢
  have hran : ∀ x ∈ executed m.mem m.stray s.engine sql, x.Ran :=
    execTrace_ran m.mem m.stray _ 0 s.engine sql
  have hok : (engineExec m s sql).1.ok = (!(executed m.mem m.stray s.engine sql).isEmpty &&
    (executed m.mem m.stray s.engine sql).all Executed.ok) := rfl
  rw [hok]
  generalize executed m.mem m.stray s.engine sql = done at hdefined hran ⊢
  rw [Bool.and_eq_true, List.all_eq_true]
  apply and_congr
  · cases done <;> simp
  · rw [List.map_map, List.mem_map] at hdefined ⊢
    push Not at hdefined ⊢
    refine forall₂_congr fun x hx => ?_
    obtain ⟨_, stray, _, -, -, hreturns⟩ := hran x hx
    have hx : x.outcome.answer ≠ .undefined := hdefined x hx
    rw [hreturns, Function.comp_apply]
    generalize x.outcome = outcome at hx ⊢
    cases outcome with
    | status ok => cases ok <;> simp [Outcome.answer, Outcome.returnsZero, Outcome.ok]
    | rows path rs => simp [Outcome.answer, Outcome.returnsZero, Outcome.ok]
    | overread => exact absurd rfl hx

/-- What a status says about the answers: 200 that there were some and none of them a failure, as
long as no statement goes by an index or by the trie. -/
def StatusOk (stmts : List (Uninit × CStr)) (ok : Prop) (answers : List Answer) : Prop :=
  (∀ stmt ∈ stmts, Scanned (statementOf stmt)) → .undefined ∉ answers →
    (ok ↔ answers ≠ [] ∧ .failed ∉ answers)

/-- **A call is a batch of statements for the tables.** -/
theorem engineExec_simulates {db : Database} (h : s.engine.storage.Holds db) {sql : CStr}
    {stmts : List (Uninit × CStr)}
    (hrun : execMachine.run s.engine stmts = (engineExecSql m.mem s.engine sql).2)
    (hclean : ∀ stmt ∈ stmts, Clean stmt) :
    ∃ events, List.Forall₂ (fun stmt event => event.2 = statementOf stmt) stmts events ∧
      StatusOk stmts ((engineExec m s sql).1.ok = true) (Database.exec.run db events).1 ∧
      (engineExec m s sql).2.engine.storage.Holds (Database.exec.run db events).2 := by
  obtain ⟨events, hevents, hanswers, hholds⟩ := engine_simulates.run hclean h
  have hlen := execMachine.length_run s.engine stmts
  rw [hrun] at hanswers hholds hlen
  refine ⟨events, hevents, fun hscan hdefined => ?_, hholds⟩
  have hsame := answers_of_scanned hlen hanswers hscan
  rw [← hsame] at hdefined ⊢
  rw [engineExec_ok hdefined, Ne, Ne, List.map_eq_nil_iff]

/-- A word is inserted by an engine that is ready. -/
theorem handleAdminInsertRequest_word {english korean : CStr} (h : wordOf req = some (english, korean)) :
    (engineIsReady s.engine = false → handleAdminInsertRequest m s req = (warmingUp, s)) ∧
      (engineIsReady s.engine = true →
        (handleAdminInsertRequest m s req).1.status =
            (if (engineExec m s (adminInsertText english korean ++ [';'])).1.ok then 200 else 500) ∧
          (handleAdminInsertRequest m s req).2.engine =
            (engineExec m s (adminInsertText english korean ++ [';'])).2.engine) := by
  obtain ⟨-, hmethod, hlength, body, hbody, henglish, hkorean, hvalid⟩ := wordOf_eq_some h
  have hlen := length_jsonGetStringField (by decide) henglish
  have hlen' := length_jsonGetStringField (by decide) hkorean
  obtain ⟨n, hn⟩ := Nat.exists_eq_succ_of_ne_zero hlength
  unfold handleAdminInsertRequest
  rw [if_neg (not_not.mpr hmethod), hbody, hn]
  dsimp only
  rw [henglish, hkorean]
  dsimp only
  rw [if_pos hvalid, adminInsertSql_text hvalid.1 (by omega) (by omega)]
  dsimp only
  refine ⟨fun hready => if_pos hready, fun hready => ?_⟩
  rw [if_neg (by simp [hready])]
  exact ⟨rfl, rfl⟩

theorem handleQueryRequest_text {sql : CStr} (h : queryText req = some sql) :
    handleQueryRequest m s req = (takeEngineResult (engineExec m s sql).1, (engineExec m s sql).2) := by
  unfold queryText at h
  split_ifs at h with hreq
  obtain ⟨-, hmethod, hlength⟩ := hreq
  obtain ⟨n, hn⟩ := Nat.exists_eq_succ_of_ne_zero hlength
  unfold handleQueryRequest
  rw [if_neg (not_not.mpr hmethod), h, hn]

/-! ## The router as a machine -/

/-- The router as a machine. -/
def routerMachine : Machine RouterState (Moment × Option HttpRequest) HttpResponse :=
  fun s request => routerDispatch request.1 s request.2

omit [CDouble] in
/-- The statements that are brought to `/api/query` are clean. -/
def CleanQuery : Moment × Option HttpRequest → Prop
  | (_, none) => True
  | (m, some req) => ∀ sql ∈ queryText req, ∀ stmt ∈ callStatements m.mem sql, Clean stmt

omit [CDouble] in
/-- What a request is for the tables: its statements, one after the other. An engine that is not
ready does not insert the word. -/
def StandsFor (request : Moment × Option HttpRequest) (events : List (Option ℤ × ParsedSQL)) : Prop :=
  List.Forall₂ (fun stmt event => event.2 = statementOf stmt) (asked request) events ∨
    (∃ req, request.2 = some req ∧ (wordOf req).isSome) ∧ events = []

/-- What the response to a request with statements says about the answers. -/
def Reports (request : Moment × Option HttpRequest) (response : HttpResponse) (answers : List Answer) :
    Prop :=
  (∃ req, request.2 = some req ∧ ((queryText req).isSome ∨ (wordOf req).isSome)) →
    StatusOk (asked request) (response.status = 200) answers

omit [CDouble] in
theorem StatusOk.status {stmts : List (Uninit × CStr)} {ok : Bool} {answers : List Answer}
    (h : StatusOk stmts (ok = true) answers) {status : ℕ} (hstatus : status = if ok then 200 else 500) :
    StatusOk stmts (status = 200) answers := by
  intro hscan hdefined
  rw [← h hscan hdefined, hstatus]
  cases ok <;> simp

/-- A request, a response and what becomes of the engine, as a batch of statements. -/
def Batched (db : Database) (request : Moment × Option HttpRequest)
    (result : HttpResponse × RouterState) : Prop :=
  ∃ events, StandsFor request events ∧
    Reports request result.1 (Database.exec.batches db events).1 ∧
    result.2.engine.storage.Holds (Database.exec.batches db events).2

section Batched

variable {db : Database} (h : s.engine.storage.Holds db)

include h

theorem batched_query {sql : CStr} (hquery : queryText req = some sql)
    (hclean : ∀ stmt ∈ callStatements m.mem sql, Clean stmt) :
    Batched db (m, some req) (handleQueryRequest m s req) := by
  have hasked := @asked_query m req sql hquery
  have hstatus : ∀ result, (takeEngineResult result).status = if result.ok then 200 else 500 :=
    fun _ => rfl
  obtain ⟨events, hevents, hok, hholds⟩ :=
    engineExec_simulates h (run_call m.mem s.engine sql) hclean
  rw [handleQueryRequest_text hquery]
  refine ⟨events, .inl (hasked ▸ hevents), fun _ => ?_, hholds⟩
  rw [hasked]
  exact hok.status (hstatus _)

theorem batched_word {word : CStr × CStr} (hquery : queryText req = none)
    (hword : wordOf req = some word) : Batched db (m, some req) (handleAdminInsertRequest m s req) := by
  obtain ⟨english, korean⟩ := word
  obtain ⟨-, -, -, -, -, -, -, hvalid, -⟩ := wordOf_eq_some hword
  have hasked := @asked_word m req _ hquery hword
  obtain ⟨hbusy, hready⟩ := @handleAdminInsertRequest_word _ m s req _ _ hword
  by_cases hserves : engineIsReady s.engine = false
  · rw [hbusy hserves]
    have hstatus : warmingUp.status = 503 := rfl
    refine ⟨[], .inr ⟨⟨req, rfl, by rw [hword]; rfl⟩, rfl⟩, fun _ _ _ => ?_, h⟩
    exact iff_of_false (by rw [hstatus]; decide) fun hanswers => hanswers.1 rfl
  · obtain ⟨hstatus, hengine⟩ := hready (by simpa using hserves)
    have hne := adminInsertText_ne_nil english korean
    have hrun : execMachine.run s.engine [(m.mem 0, adminInsertText english korean)] =
        (engineExecSql m.mem s.engine (adminInsertText english korean ++ [';'])).2 := by
      rw [engineExecSql_one (splitLoop_adminInsertText hvalid) trimmed_adminInsertText hne,
        Machine.run_cons, Machine.run_nil, execMachine]
    have hone : ∀ stmt ∈ [(m.mem 0, adminInsertText english korean)], Clean stmt := by
      intro stmt hstmt
      rw [List.mem_singleton.mp hstmt]
      exact clean_word hword _
    obtain ⟨events, hevents, hok, hholds⟩ := @engineExec_simulates _ m s db h _ _ hrun hone
    refine ⟨events, .inl (hasked ▸ hevents), fun _ => ?_, ?_⟩
    · rw [hasked]
      exact hok.status hstatus
    · rw [hengine]
      exact hholds

theorem batched_looks (hquery : queryText req = none) (hword : wordOf req = none) :
    Batched db (m, some req) (dispatchRequest m s req) := by
  have hasked := @asked_none m req hquery hword
  have hlooks := (@dispatchRequest_looks _ m s req hquery hword).storage
  refine ⟨[], .inl (hasked ▸ .nil), fun hreq => ?_, h.of_files (hlooks.sound h.sound) hlooks.files⟩
  obtain ⟨_, hreq, hsome⟩ := hreq
  obtain rfl := Option.some.inj hreq
  rw [hquery, hword] at hsome
  exact absurd hsome (by simp)

end Batched

theorem dispatchRequest_query (h : (queryText req).isSome) :
    dispatchRequest m s req = handleQueryRequest m s req := by
  have hpath : req.path = "/api/query".toList := by
    by_contra hpath
    rw [queryText_of_ne hpath] at h
    exact absurd h (by decide)
  unfold dispatchRequest
  rw [if_neg (by rw [hpath]; decide), if_neg (by rw [hpath]; decide), if_neg (by rw [hpath]; decide),
    if_pos hpath]

theorem dispatchRequest_word (h : (wordOf req).isSome) :
    dispatchRequest m s req = handleAdminInsertRequest m s req := by
  have hpath : req.path = "/api/admin/insert".toList := by
    by_contra hpath
    rw [wordOf_of_ne hpath] at h
    exact absurd h (by decide)
  unfold dispatchRequest
  rw [if_neg (by rw [hpath]; decide), if_neg (by rw [hpath]; decide), if_pos hpath]

/-- **The router stands for the tables**: to them a request is its statements, one after the other. -/
theorem router_simulates : Simulation routerMachine Database.exec.batches
    (fun s db => s.engine.storage.Holds db) CleanQuery StandsFor Reports where
  step s db request h hclean := by
    obtain ⟨m, _ | req⟩ := request
    · exact ⟨[], .inl .nil, fun ⟨_, hreq, _⟩ => absurd hreq (by simp), h⟩
    change Batched db (m, some req) (dispatchRequest m s req)
    cases hquery : queryText req with
    | some sql =>
      rw [dispatchRequest_query (hquery ▸ rfl)]
      exact batched_query h hquery (hclean sql hquery)
    | none =>
      cases hword : wordOf req with
      | none => exact batched_looks h hquery hword
      | some word =>
        rw [dispatchRequest_word (hword ▸ rfl)]
        exact batched_word h hquery hword

/-! ## Runs -/

/-- **Every run of requests, from the start of the process on, is a run of the tables**, each request
with the statements that it asks for, and the responses report the answers. -/
theorem database_of_requests {files : Path → Option CStr} (hfiles : TidyFiles files) (webRoot : CStr)
    {requests : List (Moment × Option HttpRequest)} (hclean : ∀ request ∈ requests, CleanQuery request) :
    ∃ events : List (List (Option ℤ × ParsedSQL)), List.Forall₂ StandsFor requests events ∧
      List.Forall₂ (fun request answers => Reports request.1 request.2 answers)
        (requests.zip (routerMachine.run (boot files webRoot) requests).1)
        (Database.exec.batches.run (.start files) events).1 ∧
      (routerMachine.run (boot files webRoot) requests).2.engine.storage.Holds
        (Database.exec.run (.start files) events.flatten).2 := by
  have hstart : (boot files webRoot).engine.storage.Holds (.start files) :=
    holds_start fun _ hplain => hfiles.represents hplain
  obtain ⟨events, hevents, hreports, hholds⟩ := router_simulates.run hclean hstart
  refine ⟨events, hevents, hreports, ?_⟩
  rw [Machine.run_flatten]
  exact hholds

omit [CDouble] in
/-- A word with a translation that looks like the end of a statement, and questions that do so too. -/
def quotedRequests : List (Moment × Option HttpRequest) :=
  [(noFiles, some ⟨"POST".toList, "/api/admin/insert".toList, [], 37,
      some "\x7b\"english\":\"dog\",\"korean\":\"'); DROP\"\x7d".toList⟩),
    (noFiles, some ⟨"GET".toList, "/api/dict".toList,
      "english=dog%27%3B+DELETE+FROM+dictionary%3B".toList, 0, none⟩),
    (noFiles, some ⟨"POST".toList, "/api/query".toList, [], 24,
      some "SELECT * FROM dictionary".toList⟩)]

instance (request : Moment × Option HttpRequest) : Decidable (CleanQuery request) :=
  match request with
  | (_, none) => isTrue trivial
  | (m, some req) =>
    inferInstanceAs (Decidable (∀ sql ∈ queryText req, ∀ stmt ∈ callStatements m.mem sql, Clean stmt))

omit [CDouble] in
/-- These requests are one INSERT at most, and a SELECT. -/
theorem database_of_quotedRequests :
    ∃ events : List (List (Option ℤ × ParsedSQL)), List.Forall₂ StandsFor quotedRequests events ∧
      ((@routerMachine .whole).run (@boot .whole (fun _ => none) "./web".toList)
        quotedRequests).2.engine.storage.Holds
          ((@Database.exec .whole).run (@Database.start .whole fun _ => none) events.flatten).2 := by
  obtain ⟨events, hevents, -, hholds⟩ := @database_of_requests .whole _ tidyFiles_none "./web".toList
    quotedRequests (by decide +kernel)
  exact ⟨events, hevents, hholds⟩

omit [CDouble] in
/-- A request that may write. -/
def Writes (request : Moment × Option HttpRequest) : Prop :=
  ∃ req, request.2 = some req ∧ req.method = "POST".toList ∧
    (req.path = "/api/query".toList ∨ req.path = "/api/admin/insert".toList)

theorem routerDispatch_looks {request : Moment × Option HttpRequest}
    (hreads : ¬ Writes request) : s.engine.Looks (routerMachine s request).2.engine := by
  obtain ⟨m, _ | req⟩ := request
  · exact .refl _
  apply dispatchRequest_looks
  · apply if_neg
    intro hreq
    exact hreads ⟨req, rfl, hreq.2.1, .inl hreq.1⟩
  · apply if_neg
    intro hreq
    exact hreads ⟨req, rfl, hreq.2.1, .inr hreq.1⟩

/-- So do any number of such requests. -/
theorem run_looks {reads : List (Moment × Option HttpRequest)}
    (hreads : ∀ request ∈ reads, ¬ Writes request) :
    s.engine.Looks (routerMachine.run s reads).2.engine := by
  induction reads generalizing s with
  | nil => exact .refl _
  | cons request reads ih =>
    have hlooks := @routerDispatch_looks _ s request (hreads request (List.mem_cons_self ..))
    exact hlooks.trans (ih fun request hmem => hreads request (List.mem_cons_of_mem _ hmem))

/-- **No other request than a POST to `/api/query` or `/api/admin/insert` changes a byte of a file**, nor
the trie, whatever it has in its path and its parameters, and whatever the files, the caches and the
trie are. -/
theorem readonly_of_run (s : RouterState) {reads : List (Moment × Option HttpRequest)}
    (hreads : ∀ request ∈ reads, ¬ Writes request) :
    (routerMachine.run s reads).2.engine.storage.files = s.engine.storage.files ∧
      (routerMachine.run s reads).2.engine.trie = s.engine.trie ∧
      (routerMachine.run s reads).2.engine.trieReady = s.engine.trieReady := by
  have hlooks := @run_looks _ s reads hreads
  exact ⟨hlooks.storage.files, hlooks.trie, hlooks.trieReady⟩

omit [CDouble] in
/-- Questions with quotes, and an INSERT that is sent by GET. -/
def quotedReads : List (Moment × Option HttpRequest) :=
  [(noFiles, some ⟨"GET".toList, "/api/dict".toList,
      "english=dog%27%3B+DELETE+FROM+dictionary%3B".toList, 0, none⟩),
    (noFiles, some ⟨"GET".toList, "/api/query".toList, [], 47,
      some "INSERT INTO dictionary (english) VALUES ('cat')".toList⟩)]

omit [CDouble] in
/-- They find the files as they leave them. -/
theorem readonly_of_quotedReads :
    ((@routerMachine .whole).run ((@routerMachine .whole).run
        (@boot .whole (fun _ => none) "./web".toList) quotedRequests).2
          quotedReads).2.engine.storage.files =
      ((@routerMachine .whole).run (@boot .whole (fun _ => none) "./web".toList)
        quotedRequests).2.engine.storage.files :=
  (@readonly_of_run .whole _ quotedReads (by
    intro request hmem hwrites
    obtain ⟨req, hreq, hmethod, -⟩ := hwrites
    rcases List.mem_cons.mp hmem with rfl | hmem
    · obtain rfl := Option.some.inj hreq
      exact absurd hmethod (by decide)
    · obtain rfl := List.mem_singleton.mp hmem
      obtain rfl := Option.some.inj hreq
      exact absurd hmethod (by decide))).1

end RouterState

end MiniSql
