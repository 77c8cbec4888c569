import MiniSql.RouterJson.Bodies

/-!
# Every body of the router

The bodies that the router makes itself are JSON, but for two: the path of a missing file is not
escaped, and the document of several statements may lack an element. What is cached is JSON in
every state, whatever the requests before were.

## Main definitions

* `HttpResponse.Valid` — a body that the router makes is JSON.
* `RouterState.after` — the state after some requests.
* `RouterState.Answers` — the condition on a request.

## Main results

* `cacheOk_after` — the cache holds JSON, whatever the requests were.
* `routerDispatch_valid_iff` — the body is JSON if and only if the request meets the condition.
-/

namespace MiniSql
open CText Json

/-- A body of type JSON that is not a file is JSON. -/
def HttpResponse.Valid (response : HttpResponse) : Prop :=
  response.contentType = jsonType → response.fromFile = false → IsJson response.body

theorem valid_jsonBody {status : ℕ} {body : CStr} : (jsonBody status body).Valid ↔ IsJson body :=
  ⟨fun h => h rfl rfl, fun h _ _ => h⟩

theorem valid_jsonError (status : ℕ) {name : CStr} (h : IsPlain name) : (jsonError status name).Valid :=
  valid_jsonBody.mpr (isJson_error h)

/-! ## Calls with one statement -/

section Single

variable [CDouble]

theorem executed_outcome (mem : ℕ → Uninit) (stray : ℕ → Bool) (e : Engine) (sql : CStr) :
    (executed mem stray e sql).map Executed.outcome = (engineExecSql mem e sql).2.1 :=
  execTrace_outcome mem stray _ 0 e sql

/-- The document of one statement is JSON. -/
theorem isJson_engineExecJson_one {text : CStr}
    (hsplit : splitLoop none (text ++ [';']) = (text, [';'])) (htrim : Trimmed text) (hne : text ≠ [])
    (mem : ℕ → Uninit) (stray : ℕ → Bool) (elapsed lockWait : ℕ) (e : Engine) :
    IsJson (engineExecJson mem stray elapsed lockWait e (text ++ [';'])) := by
  refine isJson_engineExecJson_iff.mpr fun hlen => ?_
  have houtcomes := executed_outcome mem stray e (text ++ [';'])
  rw [engineExecSql_one hsplit htrim hne] at houtcomes
  have hone := congrArg List.length houtcomes
  rw [List.length_map, List.length_singleton] at hone
  omega

end Single

/-! ## Parameters -/

theorem length_jsonReadLoop {size : ℕ} {s out value rest : CStr} (hout : out.length < size)
    (h : jsonReadLoop size s out = some (value, rest)) : value.length < size := by
  have hgrow : ∀ {out : CStr} {c d : Char}, ¬ (c.toNat < 0x20 ∨ size ≤ out.length + 1) →
      (out ++ [d]).length < size := by
    intro out c d hroom
    rw [List.length_append, List.length_singleton]
    omega
  fun_induction jsonReadLoop size s out with
  | case1 | case3 | case4 | case5 | case7 => exact absurd h (by simp)
  | case2 s out =>
    obtain ⟨rfl, rfl⟩ := Prod.mk.inj (Option.some.inj h)
    exact hout
  | case6 out e s c hc hroom ih => exact ih (hgrow hroom) h
  | case8 =>
    rename_i hroom ih
    exact ih (hgrow hroom) h

theorem length_jsonGetStringField {body field value : CStr} {size : ℕ} (hsize : 0 < size)
    (h : jsonGetStringField body field size = some value) : value.length < size := by
  have hloop : ∀ {needle p : CStr} {n : ℕ}, getFieldLoop needle size n p = some value →
      value.length < size := by
    intro needle p n hloop
    induction n generalizing p with
    | zero => exact absurd hloop (by simp [getFieldLoop])
    | succ n ih =>
      rw [getFieldLoop] at hloop
      split at hloop
      · exact absurd hloop (by simp)
      · split at hloop
        · obtain ⟨⟨value', rest⟩, hread, rfl⟩ := Option.map_eq_some_iff.mp hloop
          unfold jsonReadStringAt at hread
          split at hread
          · exact length_jsonReadLoop (by simpa using hsize) hread
          · exact absurd hread (by simp)
        · exact ih hloop
  rw [jsonGetStringField] at h
  split at h
  · exact absurd h (by simp)
  · exact hloop h

/-! ## The statement of a completion -/

/-- The statement of a completion, without its `;`. -/
def autocompleteText (pre : CStr) (limit : ℤ) : CStr :=
  "SELECT english FROM dictionary WHERE english LIKE '".toList ++ pre ++ "%' LIMIT ".toList ++
    intText limit

theorem intText_digits {n : ℤ} (h : 0 ≤ n) : ∀ c ∈ intText n, c.isDigit = true := by
  rw [intText, if_neg (by omega)]
  exact fun c hc => isDigit_of_mem_toDigits hc

theorem splitLoop_autocompleteText {pre : CStr} (hpre : isAsciiLowercaseWord pre = true) {limit : ℤ}
    (hlimit : 0 ≤ limit) : splitLoop none (autocompleteText pre limit ++ [';']) =
      (autocompleteText pre limit, [';']) := by
  have hquote : '\'' ∉ pre ++ ['%'] := by
    have hpre' := not_mem_of_isAsciiLowercaseWord hpre (c := '\'') (by decide)
    simpa using hpre'
  have hplain : (intText limit).all fun c => c ≠ ';' && c ≠ '\'' && c ≠ '"' := by
    refine List.all_eq_true.mpr fun c hc => ?_
    have hdigit := intText_digits hlimit c hc
    have hne : c ≠ ';' ∧ c ≠ '\'' ∧ c ≠ '"' := by
      refine ⟨?_, ?_, ?_⟩ <;>
      · rintro rfl
        exact absurd hdigit (by decide)
    simp [hne]
  have hshape : ∀ s, autocompleteText pre limit ++ s =
      "SELECT english FROM dictionary WHERE english LIKE ".toList ++ '\'' ::
        (doubleApostrophes (pre ++ ['%']) ++ '\'' :: (" LIMIT ".toList ++ (intText limit ++ s))) := by
    intro s
    rw [doubleApostrophes_of_not_mem hquote]
    unfold autocompleteText
    generalize intText limit = digits
    simp
  have hend : splitLoop none [';'] = ([], [';']) := rfl
  rw [hshape, splitLoop_plain (by simp), splitLoop_quoted, splitLoop_plain (by simp),
    splitLoop_plain hplain, hend, ← hshape, List.append_nil]

theorem trimmed_autocompleteText {pre : CStr} {limit : ℤ} (hlimit : 0 ≤ limit) :
    Trimmed (autocompleteText pre limit) := by
  have hfirst : "SELECT english FROM dictionary WHERE english LIKE '".toList.head? = some 'S' := by simp
  have hhead : (autocompleteText pre limit).head? = some 'S' := by
    unfold autocompleteText
    rw [List.head?_append, List.head?_append, List.head?_append, hfirst]
    rfl
  have hne : intText limit ≠ [] := by
    rw [intText, if_neg (by omega)]
    exact Nat.toDigits_ne_nil
  have hlast : (autocompleteText pre limit).getLast? = (intText limit).getLast? :=
    List.getLast?_append_of_ne_nil _ hne
  refine ⟨fun c hc => ?_, fun c hc => ?_⟩
  · obtain rfl := Option.some.inj (hhead.symm.trans hc)
    decide
  · exact (digit_spec (intText_digits hlimit c (List.mem_of_getLast? (hlast ▸ hc)))).1

theorem autocompleteText_ne_nil (pre : CStr) (limit : ℤ) : autocompleteText pre limit ≠ [] := by
  unfold autocompleteText
  generalize intText limit = digits
  simp

/-! ## The handlers -/

/-- All that is cached is JSON. -/
def CacheOk (cache : DictCache CStr) : Prop := ∀ key json, cache.lookup key = some json → IsJson json

theorem CacheOk.put {cache : DictCache CStr} (h : CacheOk cache) (key : CStr) {json : CStr}
    (hjson : IsJson json) : CacheOk (cache.put key json) := by
  intro key' json' hlookup
  by_cases hkey : key = []
  · rw [DictCache.put, if_pos hkey] at hlookup
    exact h key' json' hlookup
  · by_cases hsame : key' = key
    · rw [hsame, DictCache.lookup_put_self cache hkey] at hlookup
      rw [← Option.some.inj hlookup]
      exact hjson
    · exact h key' json' (DictCache.lookup_put_of_ne hsame hlookup)

theorem CacheOk.get {cache : DictCache CStr} (h : CacheOk cache) {key : CStr} (hkey : key ≠ []) :
    CacheOk (cache.get key).2 ∧ ∀ json, (cache.get key).1 = some json → IsJson json := by
  obtain ⟨hget, hkeep⟩ := @DictCache.lookup_get _ cache key hkey
  constructor
  · intro key' json' hlookup
    rw [hkeep] at hlookup
    exact h key' json' hlookup
  · intro json hjson
    exact h key json (hget ▸ hjson)

theorem CacheOk.invalidate {cache : DictCache CStr} (h : CacheOk cache) {key : CStr}
    (hkey : key ≠ []) : CacheOk (cache.invalidate key) := by
  intro key' json' hlookup
  by_cases hsame : key' = key
  · rw [hsame, DictCache.lookup_invalidate_self cache hkey] at hlookup
    exact absurd hlookup (by simp)
  · rw [DictCache.lookup_invalidate_of_ne hsame] at hlookup
    exact h key' json' hlookup

namespace RouterState

variable [CDouble] {m : Moment} {s : RouterState} {req : HttpRequest}

/-- What a handler leaves behind: a valid response, and a cache of JSON texts. -/
def Good (result : HttpResponse × RouterState) : Prop := result.1.Valid ∧ CacheOk result.2.cache

omit [CDouble] in
theorem good_error (h : CacheOk s.cache) (status : ℕ) {name : CStr} (hname : IsPlain name) :
    Good (jsonError status name, s) :=
  ⟨valid_jsonError status hname, h⟩

omit [CDouble] in
theorem valid_warmingUp : warmingUp.Valid := valid_jsonBody.mpr (by decide +kernel)

/-- A call with one statement returns a JSON text, and leaves the cache alone. -/
theorem engineExec_one {text : CStr} (hsplit : splitLoop none (text ++ [';']) = (text, [';']))
    (htrim : Trimmed text) (hne : text ≠ []) (m : Moment) (s : RouterState) :
    IsJson (engineExec m s (text ++ [';'])).1.json ∧
      (engineExec m s (text ++ [';'])).1.elapsed < 2 ^ 64 ∧
      (engineExec m s (text ++ [';'])).2.cache = s.cache :=
  ⟨isJson_engineExecJson_one hsplit htrim hne .., m.elapsed.isLt, rfl⟩

omit [CDouble] in
theorem parseLimitParam_nonneg {query : CStr} {limit : ℤ} (h : parseLimitParam query = some limit) :
    0 ≤ limit := by
  unfold parseLimitParam at h
  split at h
  · rw [← Option.some.inj h]
    decide
  · split_ifs at h with hvalid
    rw [← Option.some.inj h]
    exact hvalid.2.1.le

omit [CDouble] in
theorem snprintf_eq_some {size : ℕ} {text out : CStr} (h : snprintf size text = some out) :
    out = text := by
  unfold snprintf at h
  split_ifs at h
  exact (Option.some.inj h).symm

theorem handleAutocompleteRequest_good (h : CacheOk s.cache) :
    Good (handleAutocompleteRequest m s req) := by
  unfold handleAutocompleteRequest
  by_cases hmethod : req.method ≠ "GET".toList
  · rw [if_pos hmethod]
    exact good_error h 405 (by decide)
  rw [if_neg hmethod]
  cases hparam : queryParam req.query "prefix".toList 256 with
  | none => exact good_error h 400 (by decide)
  | some pre =>
    dsimp only
    by_cases hword : isAsciiLowercaseWord pre.1 = false
    · rw [if_pos hword]
      exact good_error h 400 (by decide)
    rw [if_neg hword]
    have hword : isAsciiLowercaseWord pre.1 = true := by simpa using hword
    have hlen : pre.1.length < 256 := pre.2.1
    cases hlimit : parseLimitParam req.query with
    | none => exact good_error h 400 (by decide)
    | some limit =>
      have hquote : '\'' ∉ pre.1 := not_mem_of_isAsciiLowercaseWord hword (by decide)
      dsimp only
      rw [sqlEscapeLiteral_eq (by omega), Option.bind_some, doubleApostrophes_of_not_mem hquote]
      cases hsql : snprintf 768 ("SELECT english FROM dictionary WHERE english LIKE '".toList ++ pre.1 ++
          "%' LIMIT ".toList ++ intText limit ++ ";".toList) with
      | none => exact good_error h 400 (by decide)
      | some sql =>
        have hend : ";".toList = [';'] := rfl
        rw [hend] at hsql
        have htext : sql = autocompleteText pre.1 limit ++ [';'] := snprintf_eq_some hsql
        dsimp only
        by_cases hready : engineIsReady s.engine = false
        · rw [if_pos hready]
          exact ⟨valid_warmingUp, h⟩
        rw [if_neg hready, htext]
        have hpos := parseLimitParam_nonneg hlimit
        have hexec := engineExec_one (splitLoop_autocompleteText hword hpos)
          (trimmed_autocompleteText hpos) (autocompleteText_ne_nil pre.1 limit) m s
        generalize engineExec m s (autocompleteText pre.1 limit ++ [';']) = result at hexec
        obtain ⟨result, s'⟩ := result
        obtain ⟨hjson, helapsed, hcache⟩ := hexec
        dsimp only at hjson helapsed hcache ⊢
        rw [← hcache] at h
        cases hbuild : buildAutocompleteResponse pre.1 result.ok result.elapsed result.json with
        | none => exact good_error h 500 (by decide)
        | some json =>
          exact ⟨valid_jsonBody.mpr (isJson_buildAutocompleteResponse hlen _ helapsed hjson hbuild), h⟩

theorem handleAdminInsertRequest_good (h : CacheOk s.cache) :
    Good (handleAdminInsertRequest m s req) := by
  unfold handleAdminInsertRequest
  by_cases hmethod : req.method ≠ "POST".toList
  · rw [if_pos hmethod]
    exact good_error h 405 (by decide)
  rw [if_neg hmethod]
  cases hbody : req.body with
  | none => exact good_error h 400 (by decide)
  | some body =>
    cases hlength : req.contentLength with
    | zero => exact good_error h 400 (by decide)
    | succ n =>
      dsimp only
      cases henglish : jsonGetStringField body "english".toList 256 with
      | none => exact good_error h 400 (by decide)
      | some english =>
        cases hkorean : jsonGetStringField body "korean".toList 256 with
        | none => exact good_error h 400 (by decide)
        | some korean =>
          dsimp only
          by_cases hvalid : isAsciiLowercaseWord english = true ∧ korean ≠ []
          · have hlen := length_jsonGetStringField (by decide) henglish
            have hlen' := length_jsonGetStringField (by decide) hkorean
            rw [if_pos hvalid, adminInsertSql_text hvalid.1 (by omega) (by omega)]
            dsimp only
            by_cases hready : engineIsReady s.engine = false
            · rw [if_pos hready]
              exact ⟨valid_warmingUp, h⟩
            rw [if_neg hready]
            have hne : adminInsertText english korean ≠ [] := by
              unfold adminInsertText
              simp
            have hexec := engineExec_one (@splitLoop_adminInsertText english korean hvalid.1)
              trimmed_adminInsertText hne m s
            generalize engineExec m s (adminInsertText english korean ++ [';']) = result at hexec
            obtain ⟨result, s'⟩ := result
            obtain ⟨hjson, helapsed, hcache⟩ := hexec
            dsimp only at hjson helapsed hcache ⊢
            rw [← hcache] at h
            refine ⟨valid_jsonBody.mpr (isJson_buildAdminInsertResponse hlen _ helapsed hjson), ?_⟩
            dsimp only
            split_ifs
            · exact h.invalidate (englishKey_ne_nil english)
            · exact h
          · rw [if_neg hvalid]
            exact good_error h 400 (by decide)

omit [CDouble] in
theorem dictMode_plain (query : DictQuery) : IsPlain (dictMode query) := by
  cases query with
  | english => exact (by decide : IsPlain "english".toList)
  | id => exact (by decide : IsPlain "id".toList)
  | korean => exact (by decide : IsPlain "korean".toList)

omit [CDouble] in
theorem length_dictParam (query : DictQuery) : (dictParam query).length < 256 := by
  cases query with
  | english text => exact text.2.1
  | id text => exact text.2.1.trans (by decide)
  | korean text => exact text.2.1

omit [CDouble] in
theorem DictQuery.text_of_sql {query : DictQuery} {sql : CStr} (h : query.sql = some sql) :
    query.Valid ∧ sql = query.text ++ [';'] := by
  by_cases hvalid : query.Valid
  · exact ⟨hvalid, Option.some.inj (h.symm.trans (DictQuery.sql_eq hvalid))⟩
  · rw [DictQuery.sql_eq_none hvalid] at h
    exact absurd h (by simp)

theorem askEngine_good (h : CacheOk s.cache) {query : DictQuery} {sql : CStr}
    (hsql : query.sql = some sql) (key : Option CStr) {lookup : ℕ} (hlookup : lookup < 2 ^ 64) :
    Good (askEngine m s query sql key lookup) := by
  obtain ⟨hvalid, rfl⟩ := DictQuery.text_of_sql hsql
  unfold askEngine
  by_cases hready : engineIsReady s.engine = false
  · rw [if_pos hready]
    exact ⟨valid_warmingUp, h⟩
  rw [if_neg hready]
  have hexec := engineExec_one (DictQuery.splitLoop_text hvalid) (DictQuery.trimmed_text hvalid)
    query.text_ne_nil m s
  generalize engineExec m s (query.text ++ [';']) = result at hexec
  obtain ⟨result, s'⟩ := result
  obtain ⟨hjson, -, hcache⟩ := hexec
  dsimp only at hjson hcache ⊢
  rw [← hcache] at h
  refine ⟨valid_jsonBody.mpr (isJson_wrapDictResponse (dictMode_plain query) (length_dictParam query)
    _ _ hlookup hjson), ?_⟩
  cases key with
  | none => exact h
  | some key =>
    dsimp only
    split_ifs
    · exact h.put key hjson
    · exact h

theorem handleDictRequest_good (h : CacheOk s.cache) : Good (handleDictRequest m s req) := by
  unfold handleDictRequest
  by_cases hmethod : req.method ≠ "GET".toList
  · rw [if_pos hmethod]
    exact good_error h 405 (by decide)
  rw [if_neg hmethod]
  cases hquery : dictQueryOf req.query with
  | none => exact good_error h 400 (by decide)
  | some query =>
    dsimp only
    cases hsql : query.sql with
    | none => cases query <;> exact good_error h 400 (by decide)
    | some sql =>
      dsimp only
      cases hkey : (if bypassCache req.query then none else query.key) with
      | none => exact askEngine_good h hsql none (by decide)
      | some key =>
        have hne : key ≠ [] := by
          split_ifs at hkey
          cases query with
          | english text =>
            rw [← Option.some.inj hkey]
            exact englishKey_ne_nil text.1
          | id text =>
            rw [← Option.some.inj hkey]
            exact List.append_ne_nil_of_left_ne_nil (by simp) text.1
          | korean text => exact absurd hkey (by simp [DictQuery.key])
        obtain ⟨hcache, hcached⟩ := h.get hne
        dsimp only
        rcases hget : s.cache.get key with ⟨_ | json, cache⟩ <;> rw [hget] at hcache hcached
        · exact askEngine_good (s := { s with cache := cache }) hcache hsql (some key) m.lookup.isLt
        · exact ⟨valid_jsonBody.mpr (isJson_wrapDictResponse (dictMode_plain query)
            (length_dictParam query) _ _ m.lookup.isLt (hcached json rfl)), hcache⟩

omit [CDouble] in
theorem handleExplainRequest_valid : (handleExplainRequest m s req).Valid := by
  unfold handleExplainRequest
  split_ifs
  · exact valid_jsonError 405 (by decide)
  · split
    · exact valid_jsonError 400 (by decide)
    · split_ifs
      · exact valid_jsonError 400 (by decide)
      · exact valid_jsonBody.mpr (isJson_engineExplain ..)

omit [CDouble] in
theorem handleStatsRequest_valid : (handleStatsRequest m s req).Valid := by
  unfold handleStatsRequest
  split_ifs
  · exact valid_jsonError 405 (by decide)
  · exact valid_jsonBody.mpr (isJson_stats (Nat.mod_lt _ (by decide)) m.lockWaitTotal.isLt
      (Nat.mod_lt _ (by decide)) (Nat.mod_lt _ (by decide)))

/-! ## The two that are not JSON -/

omit [CDouble] in
/-- The text of a request to `/api/query` that is executed. -/
def queryText (req : HttpRequest) : Option CStr :=
  if req.path = "/api/query".toList ∧ req.method = "POST".toList ∧ req.contentLength ≠ 0 then req.body
  else none

omit [CDouble] in
/-- The path of the file that a request asks for. -/
def filePath (s : RouterState) (req : HttpRequest) : Option CStr :=
  if "/api/".toList <+: req.path then none
  else match staticPath s req with
    | .ok path => some path
    | .error _ => none

/-- With several statements, no array of row numbers is full. The path of a missing file, where it
fits the body, goes between quotes. -/
def Answers (m : Moment) (s : RouterState) (req : HttpRequest) : Prop :=
  (∀ sql, queryText req = some sql → 2 ≤ (executed m.mem m.stray s.engine sql).length →
    ∀ x ∈ executed m.mem m.stray s.engine sql, ¬ x.RangeFull) ∧
  ∀ path, filePath s req = some path → m.web path = .missing → path.length < 982 → FillsQuotes path

omit [CDouble] in
theorem valid_setJsonf_path (path : CStr) :
    (setJsonf 404 "\x7b\"ok\":false,\"error\":\"not_found\",\"path\":\"".toList path
      "\"\x7d".toList).Valid ↔ (path.length < 982 → FillsQuotes path) := by
  have hlen : ("\x7b\"ok\":false,\"error\":\"not_found\",\"path\":\"".toList ++ path ++
      "\"\x7d".toList).length = path.length + 42 := by
    simp only [List.length_append, String.length_toList]
    have hconst : "\x7b\"ok\":false,\"error\":\"not_found\",\"path\":\"".length +
        "\"\x7d".length = 42 := by decide
    omega
  unfold setJsonf
  rw [hlen]
  by_cases hfits : path.length < 982
  · rw [if_pos (by omega), valid_jsonBody, isJson_path_iff]
    exact ⟨fun h _ => h, fun h => h hfits⟩
  · rw [if_neg (by omega)]
    exact iff_of_true (valid_jsonError 500 (by decide)) fun h => absurd h hfits

omit [CDouble] in
theorem staticPath_error {response : HttpResponse} (h : staticPath s req = .error response) :
    response.Valid := by
  unfold staticPath at h
  by_cases hmethod : req.method ≠ "GET".toList
  · rw [if_pos hmethod] at h
    rw [← Except.error.inj h]
    exact valid_jsonError 405 (by decide)
  rw [if_neg hmethod] at h
  by_cases hbad : req.path.head? ≠ some '/' ∨ "..".toList <:+: req.path ∨ req.path[1]? = some '/'
  · rw [if_pos hbad] at h
    rw [← Except.error.inj h]
    exact valid_jsonError 400 (by decide)
  rw [if_neg hbad] at h
  split at h
  · rw [← Except.error.inj h]
    exact valid_jsonError 400 (by decide)
  · exact absurd h (by simp)

omit [CDouble] in
theorem serveStatic_valid_iff : (serveStatic m s req).Valid ↔
    ∀ path, staticPath s req = .ok path → m.web path = .missing → path.length < 982 →
      FillsQuotes path := by
  unfold serveStatic
  cases hpath : staticPath s req with
  | error response => exact iff_of_true (staticPath_error hpath) fun path h => absurd h (by simp)
  | ok path =>
    have hcond : (∀ path', Except.ok path = (Except.ok path' : Except HttpResponse CStr) →
        m.web path' = .missing → path'.length < 982 → FillsQuotes path') ↔
        (m.web path = .missing → path.length < 982 → FillsQuotes path) :=
      ⟨fun h => h path rfl, fun h path' heq => Except.ok.inj heq ▸ h⟩
    rw [hcond]
    dsimp only
    unfold readFileResponse
    cases hweb : m.web path with
    | missing =>
      rw [valid_setJsonf_path]
      exact ⟨fun h _ => h, fun h => h rfl⟩
    | unreadable => exact iff_of_true (valid_jsonError 404 (by decide)) (by simp)
    | readFailed => exact iff_of_true (valid_jsonError 500 (by decide)) (by simp)
    | content bytes => exact iff_of_true (fun _ h => absurd h (by simp)) (by simp)

omit [CDouble] in
theorem valid_takeEngineResult (result : EngineResult) :
    (takeEngineResult result).Valid ↔ IsJson result.json := valid_jsonBody

theorem engineExec_json (m : Moment) (s : RouterState) (sql : CStr) : (engineExec m s sql).1.json =
    engineExecJson m.mem m.stray m.elapsed m.lockWait s.engine sql := rfl

theorem handleQueryRequest_valid_iff (hpath : req.path = "/api/query".toList) :
    (handleQueryRequest m s req).1.Valid ↔
      ∀ sql, queryText req = some sql → 2 ≤ (executed m.mem m.stray s.engine sql).length →
        ∀ x ∈ executed m.mem m.stray s.engine sql, ¬ x.RangeFull := by
  have hrefused : ∀ {response : HttpResponse}, response.Valid → queryText req = none →
      (response.Valid ↔
        ∀ sql, queryText req = some sql → 2 ≤ (executed m.mem m.stray s.engine sql).length →
          ∀ x ∈ executed m.mem m.stray s.engine sql, ¬ x.RangeFull) := by
    intro response hvalid hnone
    refine iff_of_true hvalid fun sql hsql => ?_
    rw [hnone] at hsql
    exact absurd hsql (by simp)
  unfold handleQueryRequest
  by_cases hmethod : req.method = "POST".toList
  · rw [if_neg (not_not.mpr hmethod)]
    cases hbody : req.body with
    | none => exact hrefused (valid_jsonError 400 (by decide)) (by rw [queryText, hbody, ite_self])
    | some body =>
      cases hlength : req.contentLength with
      | zero =>
        exact hrefused (valid_jsonError 400 (by decide)) (if_neg fun hreq => hreq.2.2 hlength)
      | succ n =>
        have htext : queryText req = some body := by
          rw [queryText, if_pos ⟨hpath, hmethod, by omega⟩, hbody]
        dsimp only
        rw [valid_takeEngineResult, engineExec_json, isJson_engineExecJson_iff, htext]
        constructor
        · intro h sql heq
          rw [← Option.some.inj heq]
          exact h
        · exact fun h => h body rfl
  · rw [if_pos hmethod]
    exact hrefused (valid_jsonError 405 (by decide)) (if_neg fun hreq => hmethod hreq.2.1)

theorem handleQueryRequest_cache : (handleQueryRequest m s req).2.cache = s.cache := by
  unfold handleQueryRequest
  split_ifs
  · rfl
  · split <;> rfl

/-! ## The dispatcher -/

/-- A request that is neither executed nor for a file. -/
theorem answers_of_path (hquery : req.path ≠ "/api/query".toList) (hapi : "/api/".toList <+: req.path) :
    Answers m s req := by
  constructor
  · intro sql h
    rw [queryText, if_neg (fun hreq => hquery hreq.1)] at h
    exact absurd h (by simp)
  · intro path h
    rw [filePath, if_pos hapi] at h
    exact absurd h (by simp)

/-- **One request: its body is JSON if and only if it meets the condition, and the cache stays
JSON.** -/
theorem dispatchRequest_good (h : CacheOk s.cache) :
    ((dispatchRequest m s req).1.Valid ↔ Answers m s req) ∧ CacheOk (dispatchRequest m s req).2.cache := by
  have hgood : ∀ {result : HttpResponse × RouterState}, req.path ≠ "/api/query".toList →
      "/api/".toList <+: req.path → Good result →
      (result.1.Valid ↔ Answers m s req) ∧ CacheOk result.2.cache :=
    fun hquery hapi hresult => ⟨iff_of_true hresult.1 (answers_of_path hquery hapi), hresult.2⟩
  unfold dispatchRequest
  by_cases hdict : req.path = "/api/dict".toList
  · rw [if_pos hdict]
    exact hgood (by rw [hdict]; decide) (by rw [hdict]; decide) (handleDictRequest_good h)
  rw [if_neg hdict]
  by_cases hauto : req.path = "/api/autocomplete".toList
  · rw [if_pos hauto]
    exact hgood (by rw [hauto]; decide) (by rw [hauto]; decide) (handleAutocompleteRequest_good h)
  rw [if_neg hauto]
  by_cases hadmin : req.path = "/api/admin/insert".toList
  · rw [if_pos hadmin]
    exact hgood (by rw [hadmin]; decide) (by rw [hadmin]; decide) (handleAdminInsertRequest_good h)
  rw [if_neg hadmin]
  by_cases hquery : req.path = "/api/query".toList
  · rw [if_pos hquery]
    have hfile : filePath s req = none := by
      rw [filePath, if_pos (by rw [hquery]; decide)]
    refine ⟨(handleQueryRequest_valid_iff hquery).trans ?_, ?_⟩
    · rw [Answers, hfile]
      exact ⟨fun h => ⟨h, by simp⟩, And.left⟩
    · rw [handleQueryRequest_cache]
      exact h
  rw [if_neg hquery]
  by_cases hexplain : req.path = "/api/explain".toList
  · rw [if_pos hexplain]
    exact hgood hquery (by rw [hexplain]; decide) ⟨handleExplainRequest_valid, h⟩
  rw [if_neg hexplain]
  by_cases hstats : req.path = "/api/stats".toList
  · rw [if_pos hstats]
    exact hgood hquery (by rw [hstats]; decide) ⟨handleStatsRequest_valid, h⟩
  rw [if_neg hstats]
  by_cases hinject : req.path = "/api/inject".toList
  · rw [if_pos hinject]
    refine hgood hquery (by rw [hinject]; decide) ⟨?_, h⟩
    dsimp only
    split_ifs
    · exact valid_jsonError 405 (by decide)
    · exact valid_jsonBody.mpr (by decide +kernel)
  rw [if_neg hinject]
  by_cases hapi : "/api/".toList <+: req.path
  · rw [if_pos hapi]
    exact hgood hquery hapi (good_error h 404 (by decide))
  rw [if_neg hapi]
  have hnone : queryText req = none := if_neg fun hreq => hquery hreq.1
  have hfile : ∀ path, filePath s req = some path ↔ staticPath s req = .ok path := by
    intro path
    rw [filePath, if_neg hapi]
    cases staticPath s req <;> simp
  refine ⟨serveStatic_valid_iff.trans ?_, h⟩
  simp only [Answers, hnone, hfile]
  exact ⟨fun h => ⟨by simp, h⟩, And.right⟩

/-! ## Runs -/

omit [CDouble] in
/-- The process with its empty cache, where so many statements are counted. -/
def start (e : Engine) (queries : ℕ) (webRoot : CStr) : RouterState :=
  ⟨e, DictCache.create 1024, queries, webRoot⟩

/-- The process behind `engine_init`, which has counted the CREATE of a dictionary that was missing. -/
def boot (files : Path → Option CStr) (webRoot : CStr) : RouterState :=
  start (engineInit files) (if dictionarySchemaExists (.start files) then 0 else 1) webRoot

/-- The state after some requests. -/
def after (s : RouterState) (requests : List (Moment × Option HttpRequest)) : RouterState :=
  requests.foldl (fun s request => (routerDispatch request.1 s request.2).2) s

theorem routerDispatch_cacheOk (h : CacheOk s.cache) (m : Moment) (req : Option HttpRequest) :
    CacheOk (routerDispatch m s req).2.cache := by
  cases req with
  | none => exact h
  | some req => exact (dispatchRequest_good h).2

/-- **Whatever the requests were, the cache holds JSON.** -/
theorem cacheOk_after (requests : List (Moment × Option HttpRequest)) (h : CacheOk s.cache) :
    CacheOk (after s requests).cache := by
  induction requests generalizing s with
  | nil => exact h
  | cons request requests ih => exact ih (routerDispatch_cacheOk h request.1 request.2)

omit [CDouble] in
theorem cacheOk_start (e : Engine) (queries : ℕ) (webRoot : CStr) :
    CacheOk (start e queries webRoot).cache := by
  intro key json h
  rw [start, DictCache.lookup_create] at h
  exact absurd h (by simp)

/-- **After any requests, the body of a response is JSON if and only if its request meets the
condition.** -/
theorem routerDispatch_valid_iff (e : Engine) (queries : ℕ) (webRoot : CStr)
    (requests : List (Moment × Option HttpRequest)) (m : Moment) (req : Option HttpRequest) :
    (routerDispatch m (after (start e queries webRoot) requests) req).1.Valid ↔
      ∀ r, req = some r → Answers m (after (start e queries webRoot) requests) r := by
  have hcache := cacheOk_after requests (cacheOk_start e queries webRoot)
  generalize after (start e queries webRoot) requests = s at hcache ⊢
  cases req with
  | none => exact iff_of_true (valid_jsonError 400 (by decide)) (by simp)
  | some req =>
    refine (dispatchRequest_good hcache).1.trans ⟨fun h r heq => ?_, fun h => h req rfl⟩
    rw [← Option.some.inj heq]
    exact h

omit [CDouble]

/-- A moment without files. -/
def noFiles : Moment := ⟨fun _ => .zero, fun _ => false, 0, 0, 0, 0, fun _ => .missing⟩

/-- **A path with a quote is sent as it is.** -/
theorem routerDispatch_quote : ¬ (@routerDispatch .whole noFiles
    (@boot .whole (fun _ => none) "./web".toList)
    (some ⟨"GET".toList, "/a\"b".toList, [], 0, none⟩)).1.Valid := by
  intro h
  exact absurd (h (by decide +kernel) (by decide +kernel)) (by decide +kernel)

end RouterState

end MiniSql
