import MiniSql.EngineJson
import MiniSql.RouterDict

/-!
# The responses of the router

`router_dispatch` with the texts that it sends. Allocation succeeds. What the environment supplies
is given with each request: uninitialized memory, the files below the web root, and the times,
each as the number that `printf` rounds it to.

## Main definitions

* `HttpRequest`, `HttpResponse`.
* `queryParam`, `jsonGetStringField` — the parameters of a request.
* `appendJsonEscaped`, `buildSuggestionsArray` — texts in buffers of a fixed size.
* `wrapDictResponse`, `buildAdminInsertResponse`, `buildAutocompleteResponse`.
* `engineExplain`.
* `RouterState`, `routerDispatch`.
-/

namespace MiniSql
open CText

/-! ## Requests and responses -/

/-- `http_request_t`, with C strings for its arrays. -/
structure HttpRequest where
  method : CStr
  path : CStr
  query : CStr
  contentLength : ℕ
  body : Option CStr

/-- `http_response_t`, and whether the body is a file. -/
structure HttpResponse where
  status : ℕ
  contentType : CStr
  body : CStr
  fromFile : Bool

def jsonType : CStr := "application/json".toList

/-- A JSON body. -/
def jsonBody (status : ℕ) (body : CStr) : HttpResponse := ⟨status, jsonType, body, false⟩

/-- The body of an error. -/
def jsonError (status : ℕ) (name : CStr) : HttpResponse :=
  jsonBody status ("\x7b\"ok\":false,\"error\":\"".toList ++ name ++ "\"\x7d".toList)

/-- `set_jsonf`, with what stands before and after `%s`. -/
def setJsonf (status : ℕ) (before arg after : CStr) : HttpResponse :=
  if (before ++ arg ++ after).length < 1024 then jsonBody status (before ++ arg ++ after)
  else jsonError 500 "response_too_large".toList

/-! ## Parameters -/

/-- `from_hex`. -/
def fromHex (c : Char) : Option ℕ :=
  if '0' ≤ c ∧ c ≤ '9' then some (c.toNat - 48)
  else if 'a' ≤ c ∧ c ≤ 'f' then some (c.toNat - 87)
  else if 'A' ≤ c ∧ c ≤ 'F' then some (c.toNat - 55)
  else none

/-- The byte of `%xx` at the start of a text. -/
def percentByte : CStr → Option (Char × CStr)
  | '%' :: a :: b :: s => do
    let hi ← fromHex a
    let lo ← fromHex b
    return (Char.ofNat (16 * hi + lo), s)
  | _ => none

/-- The loop of `url_decode`, with room for so many bytes. -/
def urlDecodeLoop : ℕ → CStr → CStr
  | 0, _ => []
  | _ + 1, [] => []
  | room + 1, c :: s =>
    match percentByte (c :: s) with
    | some (d, rest) => d :: urlDecodeLoop room rest
    | none => (if c = '+' then ' ' else c) :: urlDecodeLoop room s

theorem length_urlDecodeLoop (room : ℕ) (s : CStr) : (urlDecodeLoop room s).length ≤ room := by
  induction room generalizing s with
  | zero => simp [urlDecodeLoop]
  | succ room ih =>
    cases s with
    | nil => simp [urlDecodeLoop]
    | cons c s =>
      rw [urlDecodeLoop]
      split <;> simpa using ih _

/-- `url_decode` into an array, read as a C string. -/
def urlDecode (src : CStr) (size : ℕ) [NeZero size] : Param size :=
  ⟨cstr (urlDecodeLoop (size - 1) src), by
    have hpos : 0 < size := Nat.pos_of_neZero size
    have hlen := length_urlDecodeLoop (size - 1) src
    have htake : (cstr (urlDecodeLoop (size - 1) src)).length ≤ (urlDecodeLoop (size - 1) src).length :=
      (List.takeWhile_sublist _).length_le
    omega, nulFree_cstr _⟩

/-- `query_param`. -/
def queryParam (query key : CStr) (size : ℕ) [NeZero size] : Option (Param size) :=
  ((query.splitOn '&').find? fun piece => (key ++ ['=']).isPrefixOf piece).map fun piece =>
    urlDecode ((piece.drop (key.length + 1)).take 1023) size

/-- `parse_limit_param`. -/
def parseLimitParam (query : CStr) : Option ℤ :=
  match queryParam query "limit".toList 32 with
  | none => some 5
  | some text =>
    if isPositiveIntText text.1 ∧ 0 < atoi text.1 ∧ atoi text.1 ≤ 20 then some (atoi text.1)
    else none

/-- What a byte behind a backslash stands for in `json_read_string_at`. -/
def jsonUnescape : Char → Option Char
  | '"' => some '"'
  | '\\' => some '\\'
  | '/' => some '/'
  | 'n' => some '\n'
  | 'r' => some '\r'
  | 't' => some '\t'
  | _ => none

/-- The loop of `json_read_string_at` into an array, with the bytes read so far. -/
def jsonReadLoop (size : ℕ) : CStr → CStr → Option (CStr × CStr)
  | [], _ => none
  | '"' :: s, out => some (out, s)
  | ['\\'], _ => none
  | '\\' :: e :: s, out =>
    match jsonUnescape e with
    | none => none
    | some c => if c.toNat < 0x20 ∨ size ≤ out.length + 1 then none else jsonReadLoop size s (out ++ [c])
  | c :: s, out => if c.toNat < 0x20 ∨ size ≤ out.length + 1 then none else jsonReadLoop size s (out ++ [c])

/-- `json_read_string_at`: the string and what follows it. -/
def jsonReadStringAt (cursor : CStr) (size : ℕ) : Option (CStr × CStr) :=
  match cursor with
  | '"' :: s => jsonReadLoop size s []
  | _ => none

/-- What follows the place that `strstr` finds. -/
def afterFirst (needle : CStr) : CStr → Option CStr
  | [] => none
  | c :: s =>
    if needle.isPrefixOf (c :: s) then some ((c :: s).drop needle.length) else afterFirst needle s

/-- The loop of `json_get_string_field`, with the length of the body as fuel. -/
def getFieldLoop (needle : CStr) (size : ℕ) : ℕ → CStr → Option CStr
  | 0, _ => none
  | n + 1, p =>
    match afterFirst needle p with
    | none => none
    | some p =>
      match p.dropWhile isSpace with
      | ':' :: p => (jsonReadStringAt (p.dropWhile isSpace) size).map Prod.fst
      | p => getFieldLoop needle size n p

/-- `json_get_string_field`. The name and its quotes have to fit into `needle[96]`. -/
def jsonGetStringField (body field : CStr) (size : ℕ) : Option CStr :=
  if 96 ≤ field.length + 2 then none
  else getFieldLoop ('"' :: (field ++ ['"'])) size (body.length + 1) body

/-! ## Texts in buffers -/

/-- `append_char`. -/
def appendChar (size : ℕ) (out : CStr) (c : Char) : Option CStr :=
  if size ≤ out.length + 1 then none else some (out ++ [c])

/-- `append_json_escaped`. -/
def appendJsonEscaped (size : ℕ) : CStr → CStr → CStr
  | [], out => out
  | c :: text, out =>
    if out.length + 1 < size then
      if (c = '"' ∨ c = '\\') ∧ out.length + 2 < size then
        appendJsonEscaped size text (out ++ ['\\', c])
      else if c = '\n' ∧ out.length + 2 < size then appendJsonEscaped size text (out ++ ['\\', 'n'])
      else if c = '\r' ∧ out.length + 2 < size then appendJsonEscaped size text (out ++ ['\\', 'r'])
      else if c = '\t' ∧ out.length + 2 < size then appendJsonEscaped size text (out ++ ['\\', 't'])
      else if 0x20 ≤ c.toNat then appendJsonEscaped size text (out ++ [c])
      else appendJsonEscaped size text out
    else out

/-- What follows the quote behind a cursor, in `skip_json_string`. -/
def skipJsonString : CStr → Option CStr
  | [] => none
  | '"' :: s => some s
  | ['\\'] => none
  | '\\' :: _ :: s => skipJsonString s
  | _ :: s => skipJsonString s

/-- The inner loop of `build_suggestions_array`, up to the end of a row, with the length of the
text as fuel. -/
def skipRow : ℕ → CStr → Option CStr
  | 0, p => some p
  | _ + 1, [] => some []
  | n + 1, '"' :: p => (skipJsonString p).bind (skipRow n)
  | _ + 1, ']' :: p => some p
  | n + 1, _ :: p => skipRow n p

/-- One value in `build_suggestions_array`, with a comma before all but the first one. -/
def appendSuggestion (size : ℕ) (first : Bool) (value out : CStr) : Option CStr :=
  ((if first then some out else appendChar size out ',').bind (appendChar size · '"')).bind fun out =>
    appendChar size (appendJsonEscaped size value out) '"'

/-- The loop of `build_suggestions_array`, with the length of the text as fuel. Nothing is read
behind the text. -/
def suggestionsLoop (size : ℕ) : ℕ → Bool → CStr → CStr → Option CStr
  | 0, _, _, out => some out
  | n + 1, first, p, out =>
    match p.dropWhile fun c => isSpace c || c = ',' with
    | [] => some out
    | ']' :: _ => some out
    | '[' :: p =>
      match p.dropWhile isSpace with
      | '"' :: s => do
        let (value, rest) ← jsonReadStringAt ('"' :: s) 256
        let out ← appendSuggestion size first value out
        let rest ← skipRow rest.length rest
        suggestionsLoop size n false rest out
      | p => do
        let rest ← skipRow p.length p
        suggestionsLoop size n first rest out
    | _ :: p => suggestionsLoop size n first p out

/-- `build_suggestions_array` with an array of this size. -/
def buildSuggestionsArray (size : ℕ) (engineJson : CStr) : Option CStr := do
  let out ← appendChar size [] '['
  match afterFirst "\"rows\":[".toList engineJson with
  | none => appendChar size out ']'
  | some p =>
    let out ← suggestionsLoop size (p.length + 1) true p out
    appendChar size out ']'

/-! ## Bodies -/

/-- `%.6f` of a number of millionths. -/
def fixed6 (n : ℕ) : CStr :=
  intText (n / 1000000) ++ '.' :: [Nat.digitChar (n / 100000 % 10), Nat.digitChar (n / 10000 % 10),
    Nat.digitChar (n / 1000 % 10), Nat.digitChar (n / 100 % 10), Nat.digitChar (n / 10 % 10),
    Nat.digitChar (n % 10)]

/-- A body with a time in it, in a block of the length of all else and 32 bytes for the time. -/
def printTimed (before time after : CStr) : CStr :=
  (before ++ time ++ after).take (before.length + 32 + after.length)

/-- `build_autocomplete_response`. -/
def buildAutocompleteResponse (pre : CStr) (ok : Bool) (elapsed : ℕ) (engineJson : CStr) :
    Option CStr := do
  let suggestions ← buildSuggestionsArray 4096 engineJson
  return printTimed
    ("\x7b\"ok\":".toList ++ boolText ok ++ ",\"prefix\":\"".toList ++ appendJsonEscaped 512 pre [] ++
      "\",\"suggestions\":".toList ++ suggestions ++ ",\"elapsed_ms\":".toList)
    (fixed3 elapsed) (",\"engine\":".toList ++ engineJson ++ ['}'])

/-- `build_admin_insert_response`. -/
def buildAdminInsertResponse (english : CStr) (ok : Bool) (elapsed : ℕ) (engineJson : CStr) : CStr :=
  printTimed
    ("\x7b\"ok\":".toList ++ boolText ok ++ ",\"english\":\"".toList ++
      appendJsonEscaped 512 english [] ++ "\",\"elapsed_ms\":".toList)
    (fixed3 elapsed) (",\"engine\":".toList ++ engineJson ++ ['}'])

/-- `wrap_dict_response`. -/
def wrapDictResponse (ok : Bool) (mode query : CStr) (cacheHit : Bool) (lookup : ℕ)
    (engineJson : CStr) : CStr :=
  printTimed
    ("\x7b\"ok\":".toList ++ boolText ok ++ ",\"cache_hit\":".toList ++ boolText cacheHit ++
      ",\"cache_lookup_ms\":".toList)
    (fixed6 lookup)
    (",\"mode\":\"".toList ++ mode ++ "\",\"query\":\"".toList ++ appendJsonEscaped 512 query [] ++
      "\",\"engine\":".toList ++ engineJson ++ ['}'])

/-! ## The engine -/

/-- `engine_result_t`. -/
structure EngineResult where
  ok : Bool
  json : CStr
  elapsed : ℕ

/-- A file below the web root. -/
inductive WebFile
  | missing
  | unreadable
  | readFailed
  | content (bytes : CStr)

/-- What the environment supplies to a request: memory, what a statement that reads outside of its
arrays returns, the times and the files. -/
structure Moment where
  mem : ℕ → Uninit
  stray : ℕ → Bool
  elapsed : Fin (2 ^ 64)
  lockWait : Fin (2 ^ 64)
  lookup : Fin (2 ^ 64)
  lockWaitTotal : Fin (2 ^ 64)
  web : CStr → WebFile

/-- The process: the engine, the cache of JSON texts, the number of statements and the web root. -/
structure RouterState where
  engine : Engine
  cache : DictCache CStr
  totalQueries : ℕ
  webRoot : CStr

/-- The plan of a statement in `engine_explain`, whether an index is used, and the nodes. -/
def explainPlan (e : Engine) (sql : ParsedSQL) : CStr × Bool × ℕ :=
  match sql.type with
  | .select =>
    if (shouldUseIdRange sql).isSome then ("BPTREE_RANGE_SCAN".toList, true, 1)
    else if (shouldUseIdIndex sql).isSome then ("BPTREE_POINT_LOOKUP".toList, true, 1)
    else
      match shouldUseTriePrefix sql with
      | some pre => if e.trieReady then ("TRIE_PREFIX_SCAN".toList, true, pre.length)
        else ("FULL_SCAN".toList, false, 0)
      | none => ("FULL_SCAN".toList, false, 0)
  | .create => ("CATALOG_WRITE".toList, false, 0)
  | _ => ("TABLE_WRITE".toList, false, 0)

/-- What `engine_explain` says about a statement. -/
def explainText (e : Engine) (sql : ParsedSQL) : CStr :=
  "\x7b\"ok\":true,\"type\":".toList ++ jbAppendJsonString (queryTypeName sql.type) ++
    ",\"table\":".toList ++ jbAppendJsonString sql.table ++
    ",\"plan\":".toList ++ jbAppendJsonString (explainPlan e sql).1 ++
    ",\"index_used\":".toList ++ boolText (explainPlan e sql).2.1 ++
    ",\"nodes_visited\":".toList ++ intText (explainPlan e sql).2.2 ++ ['}']

/-- `engine_explain`. -/
def engineExplain (mem : ℕ → Uninit) (e : Engine) (sql : CStr) : EngineResult :=
  match splitNextStatement (sql.length + 1) sql with
  | none => ⟨false, "\x7b\"ok\":false,\"error\":\"empty sql\"\x7d".toList, 0⟩
  | some (stmt, _) =>
    match parseSql (mem 0) stmt with
    | none => ⟨false, "\x7b\"ok\":false,\"error\":\"parse error or unsupported query\"\x7d".toList, 0⟩
    | some sql =>
      if sql.type = .unknown then
        ⟨false, "\x7b\"ok\":false,\"error\":\"parse error or unsupported query\"\x7d".toList, 0⟩
      else ⟨true, explainText e sql, 0⟩

/-- `take_engine_result`. -/
def takeEngineResult (result : EngineResult) : HttpResponse :=
  jsonBody (if result.ok then 200 else 500) result.json

namespace RouterState

variable [CDouble]

/-- `engine_exec_sql`. -/
def engineExec (m : Moment) (s : RouterState) (sql : CStr) : EngineResult × RouterState :=
  let done := executed m.mem m.stray s.engine sql
  (⟨!done.isEmpty && done.all Executed.ok,
      engineExecJson m.mem m.stray m.elapsed m.lockWait s.engine sql, m.elapsed⟩,
    { s with
      engine := (engineExecSql m.mem s.engine sql).2.2
      totalQueries := s.totalQueries + done.length })

/-! ## The handlers -/

omit [CDouble] in
def warmingUp : HttpResponse :=
  jsonBody 503 "\x7b\"ok\":false,\"error\":\"warming_up\",\"retry_after_ms\":500\x7d".toList

/-- `handle_autocomplete_request`. -/
def handleAutocompleteRequest (m : Moment) (s : RouterState) (req : HttpRequest) :
    HttpResponse × RouterState :=
  if req.method ≠ "GET".toList then (jsonError 405 "method_not_allowed".toList, s)
  else
    match queryParam req.query "prefix".toList 256 with
    | none => (jsonError 400 "invalid_prefix".toList, s)
    | some pre =>
      if isAsciiLowercaseWord pre.1 = false then (jsonError 400 "invalid_prefix".toList, s)
      else
        match parseLimitParam req.query with
        | none => (jsonError 400 "invalid_limit".toList, s)
        | some limit =>
          match (sqlEscapeLiteral pre.1 512).bind fun escaped =>
            snprintf 768 ("SELECT english FROM dictionary WHERE english LIKE '".toList ++ escaped ++
              "%' LIMIT ".toList ++ intText limit ++ ";".toList) with
          | none => (jsonError 400 "query_too_long".toList, s)
          | some sql =>
            if engineIsReady s.engine = false then (warmingUp, s)
            else
              let (result, s) := engineExec m s sql
              match buildAutocompleteResponse pre.1 result.ok result.elapsed result.json with
              | none => (jsonError 500 "response_too_large".toList, s)
              | some json => (jsonBody (if result.ok then 200 else 500) json, s)

/-- `handle_admin_insert_request`. -/
def handleAdminInsertRequest (m : Moment) (s : RouterState) (req : HttpRequest) :
    HttpResponse × RouterState :=
  if req.method ≠ "POST".toList then (jsonError 405 "method_not_allowed".toList, s)
  else
    match req.body, req.contentLength with
    | none, _ => (jsonError 400 "empty_body".toList, s)
    | some _, 0 => (jsonError 400 "empty_body".toList, s)
    | some body, _ + 1 =>
      match jsonGetStringField body "english".toList 256, jsonGetStringField body "korean".toList 256 with
      | some english, some korean =>
        if isAsciiLowercaseWord english ∧ korean ≠ [] then
          match adminInsertSql english korean with
          | none => (jsonError 400 "payload_too_long".toList, s)
          | some sql =>
            if engineIsReady s.engine = false then (warmingUp, s)
            else
              let (result, s) := engineExec m s sql
              let cache := if result.ok then s.cache.invalidate (englishKey english) else s.cache
              (jsonBody (if result.ok then 200 else 500)
                (buildAdminInsertResponse english result.ok result.elapsed result.json),
                { s with cache := cache })
        else (jsonError 400 "invalid_payload".toList, s)
      | _, _ => (jsonError 400 "invalid_payload".toList, s)

omit [CDouble] in
/-- What a request to `/api/dict` asks for. -/
def dictQueryOf (query : CStr) : Option DictQuery :=
  match (queryParam query "english".toList 256).filter fun text => text.1 ≠ [] with
  | some english => some (.english english)
  | none =>
    match (queryParam query "id".toList 64).filter fun text => text.1 ≠ [] with
    | some id => some (.id id)
    | none =>
      ((queryParam query "korean".toList 256).filter fun text => text.1 ≠ []).map .korean

omit [CDouble] in
/-- `bypass_cache`. -/
def bypassCache (query : CStr) : Bool :=
  match queryParam query "nocache".toList 8 with
  | some text => text.1 = "1".toList || text.1 = "true".toList
  | none => false

omit [CDouble] in
def dictMode : DictQuery → CStr
  | .english _ => "english".toList
  | .id _ => "id".toList
  | .korean _ => "korean".toList

omit [CDouble] in
def dictParam : DictQuery → CStr
  | .english text => text.1
  | .id text => text.1
  | .korean text => text.1

/-- `handle_dict_request` where the engine is asked. A result that is all right is cached under
the key. -/
def askEngine (m : Moment) (s : RouterState) (query : DictQuery) (sql : CStr) (key : Option CStr)
    (lookup : ℕ) : HttpResponse × RouterState :=
  if engineIsReady s.engine = false then (warmingUp, s)
  else
    let (result, s) := engineExec m s sql
    let cache := match key with
      | some key => if result.ok then s.cache.put key result.json else s.cache
      | none => s.cache
    (jsonBody 200 (wrapDictResponse result.ok (dictMode query) (dictParam query) false lookup result.json),
      { s with cache := cache })

/-- `handle_dict_request`. -/
def handleDictRequest (m : Moment) (s : RouterState) (req : HttpRequest) :
    HttpResponse × RouterState :=
  if req.method ≠ "GET".toList then (jsonError 405 "method_not_allowed".toList, s)
  else
    match dictQueryOf req.query with
    | none => (jsonError 400 "missing_query".toList, s)
    | some query =>
      match query.sql with
      | none =>
        match query with
        | .id _ => (jsonError 400 "invalid_id".toList, s)
        | _ => (jsonError 400 "query_too_long".toList, s)
      | some sql =>
        match if bypassCache req.query then none else query.key with
        | none => askEngine m s query sql none 0
        | some key =>
          match s.cache.get key with
          | (some json, cache) =>
            (jsonBody 200 (wrapDictResponse true (dictMode query) (dictParam query) true m.lookup json),
              { s with cache := cache })
          | (none, cache) => askEngine m { s with cache := cache } query sql (some key) m.lookup

/-- `/api/query` of `router_dispatch`. -/
def handleQueryRequest (m : Moment) (s : RouterState) (req : HttpRequest) : HttpResponse × RouterState :=
  if req.method ≠ "POST".toList then (jsonError 405 "method_not_allowed".toList, s)
  else
    match req.body, req.contentLength with
    | none, _ => (jsonError 400 "empty_sql".toList, s)
    | some _, 0 => (jsonError 400 "empty_sql".toList, s)
    | some body, _ + 1 => (takeEngineResult (engineExec m s body).1, (engineExec m s body).2)

omit [CDouble] in
/-- `/api/explain` of `router_dispatch`. -/
def handleExplainRequest (m : Moment) (s : RouterState) (req : HttpRequest) : HttpResponse :=
  if req.method ≠ "GET".toList then jsonError 405 "method_not_allowed".toList
  else
    match queryParam req.query "sql".toList 1024 with
    | none => jsonError 400 "missing_sql".toList
    | some sql =>
      if sql.1 = [] then jsonError 400 "missing_sql".toList
      else takeEngineResult (engineExplain m.mem s.engine sql.1)

omit [CDouble] in
/-- `/api/stats` of `router_dispatch`. The counters have 64 bits. -/
def handleStatsRequest (m : Moment) (s : RouterState) (req : HttpRequest) : HttpResponse :=
  if req.method ≠ "GET".toList then jsonError 405 "method_not_allowed".toList
  else jsonBody 200
    (("\x7b\"ok\":true,\"total_queries\":".toList ++ intText (s.totalQueries % 2 ^ 64 : ℕ) ++
      ",\"lock_wait_ns_total\":".toList ++ intText (m.lockWaitTotal : ℕ) ++
      ",\"cache_hits\":".toList ++ intText (s.cache.hits % 2 ^ 64 : ℕ) ++
      ",\"cache_misses\":".toList ++ intText (s.cache.misses % 2 ^ 64 : ℕ) ++ ['}']).take 383)

/-! ## Files -/

omit [CDouble] in
/-- `content_type_for_path`. -/
def contentTypeForPath (path : CStr) : CStr :=
  if '.' ∉ path then "application/octet-stream".toList
  else
    let ext := path.rtakeWhile (· ≠ '.')
    if ext = "html".toList then "text/html; charset=utf-8".toList
    else if ext = "css".toList then "text/css; charset=utf-8".toList
    else if ext = "js".toList then "application/javascript; charset=utf-8".toList
    else if ext = "svg".toList then "image/svg+xml".toList
    else if ext = "json".toList then "application/json".toList
    else "application/octet-stream".toList

omit [CDouble] in
/-- `read_file_response`. -/
def readFileResponse (m : Moment) (path : CStr) : HttpResponse :=
  match m.web path with
  | .missing =>
    setJsonf 404 "\x7b\"ok\":false,\"error\":\"not_found\",\"path\":\"".toList path "\"\x7d".toList
  | .unreadable => jsonError 404 "not_found".toList
  | .readFailed => jsonError 500 "read_failed".toList
  | .content bytes => ⟨200, contentTypeForPath path, bytes, true⟩

omit [CDouble] in
/-- The file that `serve_static` reads, or its error. -/
def staticPath (s : RouterState) (req : HttpRequest) : Except HttpResponse CStr :=
  if req.method ≠ "GET".toList then .error (jsonError 405 "method_not_allowed".toList)
  else if req.path.head? ≠ some '/' ∨ "..".toList <:+: req.path ∨ req.path[1]? = some '/' then
    .error (jsonError 400 "bad_path".toList)
  else
    match snprintf 1024 (s.webRoot ++
      if req.path = ['/'] then "/concurrency.html".toList else req.path) with
    | none => .error (jsonError 400 "path_too_long".toList)
    | some path => .ok path

omit [CDouble] in
/-- `serve_static`. -/
def serveStatic (m : Moment) (s : RouterState) (req : HttpRequest) : HttpResponse :=
  match staticPath s req with
  | .error response => response
  | .ok path => readFileResponse m path

/-! ## The dispatcher -/

/-- `router_dispatch`, for a request that is not NULL. -/
def dispatchRequest (m : Moment) (s : RouterState) (req : HttpRequest) : HttpResponse × RouterState :=
  if req.path = "/api/dict".toList then handleDictRequest m s req
  else if req.path = "/api/autocomplete".toList then handleAutocompleteRequest m s req
  else if req.path = "/api/admin/insert".toList then handleAdminInsertRequest m s req
  else if req.path = "/api/query".toList then handleQueryRequest m s req
  else if req.path = "/api/explain".toList then (handleExplainRequest m s req, s)
  else if req.path = "/api/stats".toList then (handleStatsRequest m s req, s)
  else if req.path = "/api/inject".toList then
    (if req.method ≠ "POST".toList then jsonError 405 "method_not_allowed".toList
      else jsonBody 501 ("\x7b\"ok\":false,\"error\":\"not_implemented\",".toList ++
        "\"message\":\"/api/inject is outside server-protocol scope\"\x7d".toList), s)
  else if "/api/".toList <+: req.path then (jsonError 404 "not_found".toList, s)
  else (serveStatic m s req, s)

/-- `router_dispatch`. -/
def routerDispatch (m : Moment) (s : RouterState) (req : Option HttpRequest) :
    HttpResponse × RouterState :=
  match req with
  | none => (jsonError 400 "bad_request".toList, s)
  | some req => dispatchRequest m s req

end RouterState

end MiniSql
