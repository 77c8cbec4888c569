import MiniSql.DictCache
import MiniSql.EngineReady
import MiniSql.Router

/-!
# The handlers of the dictionary

`handle_dict_request` answers a word or an id from the cache and, where it is not cached, from
the engine. `handle_admin_insert_request` inserts a word and then throws out what is cached for
it. The parameters of a request are taken as they are after decoding. Response texts are left
out: what is cached and sent is the result of the engine.

## Main definitions

* `Server` — the engine and the cache.
* `DictQuery` — what a lookup asks for.
* `readDict`, `insertWord` — what the two handlers do with the engine.
* `handleDictRequest`, `handleAdminInsertRequest`, `handleQueryRequest`.

## Main results

* `readDict_english` — the answer to a lookup of a word.
* `insertWord_spec` — what an inserted word does to the dictionary.
-/

namespace MiniSql
open CText

/-! ## Requests -/

/-- A decoded parameter in an array of the given size. -/
def Param (size : ℕ) : Type := { text : CStr // text.length < size ∧ NulFree text }

instance (size : ℕ) : DecidableEq (Param size) := inferInstanceAs (DecidableEq { _text : CStr // _ })

/-- `is_positive_int_text`. -/
def isPositiveIntText (text : CStr) : Bool := text ≠ [] && text.all Char.isDigit

/-- What a lookup asks for: the translations of a word, a row, or the words of a translation. -/
inductive DictQuery
  | english (text : Param 256)
  | id (text : Param 64)
  | korean (text : Param 256)
  deriving DecidableEq

/-- The key of the cache for a word. -/
def englishKey (english : CStr) : CStr := "english:".toList ++ english

theorem englishKey_ne_nil (english : CStr) : englishKey english ≠ [] :=
  List.append_ne_nil_of_left_ne_nil (by simp) english

theorem englishKey_inj {a b : CStr} (h : englishKey a = englishKey b) : a = b :=
  List.append_cancel_left h

/-- The key of the cache for an id. -/
def idKey (id : CStr) : CStr := "id:".toList ++ id

theorem idKey_ne_nil (id : CStr) : idKey id ≠ [] :=
  List.append_ne_nil_of_left_ne_nil (by simp) id

theorem englishKey_ne_idKey (english id : CStr) : englishKey english ≠ idKey id := by
  have hlong : ∃ a, englishKey english = 'e' :: a := ⟨_, rfl⟩
  have hshort : ∃ a, idKey id = 'i' :: a := ⟨_, rfl⟩
  obtain ⟨a, ha⟩ := hlong
  obtain ⟨b, hb⟩ := hshort
  rw [ha, hb]
  simp

/-- The key under which an answer is cached. Lookups of a translation are not cached. -/
def DictQuery.key : DictQuery → Option CStr
  | .english text => some (englishKey text.1)
  | .id text => some (idKey text.1)
  | .korean _ => none

theorem DictQuery.key_ne_nil {query : DictQuery} {key : CStr} (h : query.key = some key) : key ≠ [] := by
  cases query with
  | english text =>
    have hkey : englishKey text.1 = key := Option.some.inj h
    exact hkey ▸ englishKey_ne_nil text.1
  | id text =>
    have hkey : idKey text.1 = key := Option.some.inj h
    exact hkey ▸ idKey_ne_nil text.1
  | korean text => exact absurd h (by simp [DictQuery.key])

theorem DictQuery.key_inj {query query' : DictQuery} {key : CStr} (h : query.key = some key)
    (h' : query'.key = some key) : query' = query := by
  have hsome := h'.trans h.symm
  cases query with
  | english a =>
    cases query' with
    | english b =>
      have hkey : englishKey b.1 = englishKey a.1 := Option.some.inj hsome
      exact congrArg _ (Subtype.ext (englishKey_inj hkey))
    | id b =>
      have hkey : idKey b.1 = englishKey a.1 := Option.some.inj hsome
      exact absurd hkey.symm (englishKey_ne_idKey _ _)
    | korean b => exact absurd h' (by simp [DictQuery.key])
  | id a =>
    cases query' with
    | english b =>
      have hkey : englishKey b.1 = idKey a.1 := Option.some.inj hsome
      exact absurd hkey (englishKey_ne_idKey _ _)
    | id b =>
      have hkey : idKey b.1 = idKey a.1 := Option.some.inj hsome
      exact congrArg _ (Subtype.ext (List.append_cancel_left hkey))
    | korean b => exact absurd h' (by simp [DictQuery.key])
  | korean a => exact absurd h (by simp [DictQuery.key])

/-- The statement `handle_dict_request` runs for `?id=...`. -/
def dictIdSql (id : CStr) : Option CStr :=
  if isPositiveIntText id then
    (snprintf 320 (idKey id)).bind fun _ =>
      snprintf 768 ("SELECT english, korean FROM dictionary WHERE id = ".toList ++ id ++ ";".toList)
  else none

/-- The statement `handle_dict_request` runs for `?korean=...`. -/
def dictKoreanSql (korean : CStr) : Option CStr :=
  (sqlEscapeLiteral korean 512).bind fun escaped =>
    snprintf 768 ("SELECT english FROM dictionary WHERE korean = '".toList ++ escaped ++
      "';".toList)

/-- The statement of a lookup, `none` where the request is refused. -/
def DictQuery.sql : DictQuery → Option CStr
  | .english text => (snprintf 320 (englishKey text.1)).bind fun _ => dictSql text.1
  | .id text => dictIdSql text.1
  | .korean text => dictKoreanSql text.1

/-! ## The statements of the handlers -/

/-- The statement of a lookup of a word, without its `;`. -/
def dictText (english : CStr) : CStr :=
  "SELECT korean FROM dictionary WHERE english = '".toList ++ doubleApostrophes english ++ ['\'']

/-- The statement of a lookup of an id, without its `;`. -/
def dictIdText (id : CStr) : CStr :=
  "SELECT english, korean FROM dictionary WHERE id = ".toList ++ id

/-- The statement of a lookup of a translation, without its `;`. -/
def dictKoreanText (korean : CStr) : CStr :=
  "SELECT english FROM dictionary WHERE korean = '".toList ++ doubleApostrophes korean ++ ['\'']

/-- The statement of a lookup, without its `;`. -/
def DictQuery.text : DictQuery → CStr
  | .english text => dictText text.1
  | .id text => dictIdText text.1
  | .korean text => dictKoreanText text.1

/-- A lookup is refused where its id is not a number. -/
def DictQuery.Valid : DictQuery → Prop
  | .id text => isPositiveIntText text.1 = true
  | _ => True

theorem snprintf_append {size n : ℕ} {p a : CStr} (hp : p.length = n) (h : n + a.length < size) :
    snprintf size (p ++ a) = some (p ++ a) := by
  rw [snprintf, if_pos]
  rw [List.length_append, hp]
  exact h

theorem DictQuery.sql_eq {query : DictQuery} (h : query.Valid) :
    query.sql = some (query.text ++ [';']) := by
  cases query with
  | english text =>
    obtain ⟨text, hlen, -⟩ := text
    have hkey : snprintf 320 (englishKey text) = some (englishKey text) :=
      snprintf_append (n := 8) rfl (by omega)
    have hsql : dictSql text = some (dictText text ++ [';']) := by
      rw [dictSql_eq (by omega)]
      unfold dictText
      rw [List.append_assoc (_ ++ _)]
      rfl
    change (snprintf 320 (englishKey text)).bind _ = _
    rw [hkey, Option.bind_some, hsql]
    rfl
  | id text =>
    obtain ⟨text, hlen, hnul⟩ := text
    have hvalid : isPositiveIntText text = true := h
    have hkey : snprintf 320 (idKey text) = some (idKey text) :=
      snprintf_append (n := 3) rfl (by omega)
    have htext : snprintf 768 (dictIdText text ++ [';']) = some (dictIdText text ++ [';']) := by
      unfold dictIdText
      rw [List.append_assoc]
      refine snprintf_append (n := 50) (by simp) ?_
      rw [List.length_append, List.length_singleton]
      omega
    change dictIdSql text = _
    rw [dictIdSql, if_pos hvalid, hkey, Option.bind_some]
    exact htext
  | korean text =>
    obtain ⟨text, hlen, -⟩ := text
    have hdouble := length_doubleApostrophes_le text
    have htext : snprintf 768 (dictKoreanText text ++ [';']) =
        some (dictKoreanText text ++ [';']) := by
      unfold dictKoreanText
      rw [List.append_assoc, List.append_assoc]
      refine snprintf_append (n := 47) (by simp) ?_
      rw [List.length_append, List.length_append, List.length_singleton, List.length_singleton]
      omega
    change dictKoreanSql text = _
    rw [dictKoreanSql, sqlEscapeLiteral_eq (by omega), Option.bind_some]
    unfold dictKoreanText at htext
    rw [List.append_assoc (_ ++ _)] at htext
    refine htext.trans ?_
    rw [← List.append_assoc]
    rfl

theorem DictQuery.sql_eq_none {query : DictQuery} (h : ¬ query.Valid) : query.sql = none := by
  cases query with
  | english text => exact absurd trivial h
  | id text => exact if_neg h
  | korean text => exact absurd trivial h

theorem isDigit_of_isPositiveIntText {text : CStr} (h : isPositiveIntText text = true) {c : Char}
    (hc : c ∈ text) : c.isDigit = true := by
  unfold isPositiveIntText at h
  rw [Bool.and_eq_true, List.all_eq_true] at h
  exact h.2 c hc

/-- Text without quotes stays outside of literals. -/
theorem splitLoop_plain {p : CStr} (hp : p.all fun c => c ≠ ';' && c ≠ '\'' && c ≠ '"')
    (s : CStr) : splitLoop none (p ++ s) = (p ++ (splitLoop none s).1, (splitLoop none s).2) := by
  induction p with
  | nil => rfl
  | cons c p ih =>
    simp only [List.all_cons, Bool.and_eq_true, decide_eq_true_eq] at hp
    obtain ⟨⟨⟨hend, hsingle⟩, hdouble⟩, hp⟩ := hp
    rw [List.cons_append, splitLoop, if_neg hend, if_neg (by simp [hsingle, hdouble]), ih hp]
    rfl

/-- A literal with its single quotes doubled ends at its closing quote. -/
theorem splitLoop_doubled (a s : CStr) :
    splitLoop (some '\'') (doubleApostrophes a ++ '\'' :: s) =
      (doubleApostrophes a ++ '\'' :: (splitLoop none s).1, (splitLoop none s).2) := by
  induction a with
  | nil =>
    change splitLoop (some '\'') ('\'' :: s) = _
    rw [splitLoop, if_pos rfl]
    rfl
  | cons c a ih =>
    rw [doubleApostrophes_cons]
    by_cases hc : c = '\''
    · rw [if_pos hc]
      change splitLoop (some '\'') ('\'' :: '\'' :: (doubleApostrophes a ++ '\'' :: s)) = _
      rw [splitLoop, if_pos rfl, splitLoop, if_neg (by decide), if_pos (.inl rfl), ih]
      rfl
    · rw [if_neg hc]
      change splitLoop (some '\'') (c :: (doubleApostrophes a ++ '\'' :: s)) = _
      rw [splitLoop, if_neg hc, ih]
      rfl

/-- A literal in a statement. -/
theorem splitLoop_quoted (a s : CStr) :
    splitLoop none ('\'' :: (doubleApostrophes a ++ '\'' :: s)) =
      ('\'' :: (doubleApostrophes a ++ '\'' :: (splitLoop none s).1), (splitLoop none s).2) := by
  rw [splitLoop, if_neg (by decide), if_pos (.inl rfl), splitLoop_doubled]

/-- A literal ends a statement. -/
theorem splitLoop_literal {p q : CStr} (hp : p = q ++ ['\''])
    (hq : q.all fun c => c ≠ ';' && c ≠ '\'' && c ≠ '"') (a : CStr) :
    splitLoop none (p ++ doubleApostrophes a ++ ['\''] ++ [';']) =
      (p ++ doubleApostrophes a ++ ['\''], [';']) := by
  have hend : splitLoop none [';'] = ([], [';']) := rfl
  have hshape : ∀ s, p ++ doubleApostrophes a ++ ['\''] ++ s =
      q ++ '\'' :: (doubleApostrophes a ++ '\'' :: s) := by
    intro s
    rw [hp]
    simp
  rw [hshape, splitLoop_plain hq, splitLoop_quoted, hend, ← hshape, List.append_nil]

theorem DictQuery.splitLoop_text {query : DictQuery} (h : query.Valid) :
    splitLoop none (query.text ++ [';']) = (query.text, [';']) := by
  cases query with
  | english text =>
    exact splitLoop_literal (q := "SELECT korean FROM dictionary WHERE english = ".toList) (by simp)
      (by simp) text.1
  | id text =>
    have hplain : (dictIdText text.1).all fun c => c ≠ ';' && c ≠ '\'' && c ≠ '"' := by
      unfold dictIdText
      rw [List.all_append, Bool.and_eq_true, List.all_eq_true (l := text.1)]
      refine ⟨by simp, fun c hc => ?_⟩
      have hdigit := isDigit_of_isPositiveIntText h hc
      have hne : c ≠ ';' ∧ c ≠ '\'' ∧ c ≠ '"' := by
        refine ⟨?_, ?_, ?_⟩ <;>
        · rintro rfl
          exact absurd hdigit (by decide)
      simp [hne]
    have hend : splitLoop none [';'] = ([], [';']) := rfl
    change splitLoop none (dictIdText text.1 ++ [';']) = _
    rw [splitLoop_plain hplain, hend, List.append_nil]
    rfl
  | korean text =>
    exact splitLoop_literal (q := "SELECT english FROM dictionary WHERE korean = ".toList) (by simp)
      (by simp) text.1

/-- Every lookup runs a SELECT. -/
theorem DictQuery.text_eq (query : DictQuery) : ∃ rest, query.text = "SELECT".toList ++ ' ' :: rest := by
  have hstart : ∀ {p q : CStr} (a : CStr), p = "SELECT".toList ++ ' ' :: q →
      ∃ rest, p ++ a = "SELECT".toList ++ ' ' :: rest := by
    rintro p q a rfl
    exact ⟨q ++ a, by simp only [List.append_assoc, List.cons_append]⟩
  cases query with
  | english text =>
    have hsplit : "SELECT korean FROM dictionary WHERE english = '".toList =
        "SELECT".toList ++ ' ' :: "korean FROM dictionary WHERE english = '".toList := by simp
    obtain ⟨rest, hrest⟩ := hstart (doubleApostrophes text.1 ++ ['\'']) hsplit
    exact ⟨rest, (List.append_assoc _ _ _).trans hrest⟩
  | id text =>
    have hsplit : "SELECT english, korean FROM dictionary WHERE id = ".toList =
        "SELECT".toList ++ ' ' :: "english, korean FROM dictionary WHERE id = ".toList := by simp
    exact hstart text.1 hsplit
  | korean text =>
    have hsplit : "SELECT english FROM dictionary WHERE korean = '".toList =
        "SELECT".toList ++ ' ' :: "english FROM dictionary WHERE korean = '".toList := by simp
    obtain ⟨rest, hrest⟩ := hstart (doubleApostrophes text.1 ++ ['\'']) hsplit
    exact ⟨rest, (List.append_assoc _ _ _).trans hrest⟩

theorem DictQuery.text_ne_nil (query : DictQuery) : query.text ≠ [] := by
  obtain ⟨rest, htext⟩ := query.text_eq
  rw [htext]
  simp

theorem parseSql_select (mem : Uninit) (rest : CStr) :
    ∃ sql, parseSql mem ("SELECT".toList ++ ' ' :: rest) = some sql ∧ sql.type = .select := by
  have hspace : ∀ c, (' ' :: rest).head? = some c → isWordChar c = false := by
    intro c hc
    obtain rfl := Option.some.inj hc
    decide
  have hletters : "SELECT".toList.all isWordChar = true := by decide
  have htokens : tokenize ("SELECT".toList ++ ' ' :: rest) = "SELECT".toList :: tokenize rest := by
    rw [tokenize_word (by decide) (List.all_eq_true.mp hletters) (by decide) hspace,
      tokenize_space (by decide)]
  refine ⟨parseSelect mem (tokenize rest) parsedNew, ?_, type_parseSelect ..⟩
  rw [parseSql, htokens]
  rfl

theorem DictQuery.trimmed_text {query : DictQuery} (h : query.Valid) : Trimmed query.text := by
  refine ⟨fun c hc => ?_, fun c hc => ?_⟩
  · obtain ⟨rest, htext⟩ := query.text_eq
    rw [htext] at hc
    obtain rfl := Option.some.inj hc
    decide
  · cases query with
    | english text =>
      have hlast : (DictQuery.english text).text.getLast? = some '\'' := List.getLast?_concat
      obtain rfl := Option.some.inj (hlast.symm.trans hc)
      decide
    | id text =>
      have hne : text.1 ≠ [] := by
        intro hnil
        have hvalid : isPositiveIntText text.1 = true := h
        rw [hnil] at hvalid
        exact absurd hvalid (by decide)
      have hlast : (DictQuery.id text).text.getLast? = text.1.getLast? :=
        List.getLast?_append_of_ne_nil _ hne
      exact (digit_spec (isDigit_of_isPositiveIntText h (List.mem_of_getLast? (hlast ▸ hc)))).1
    | korean text =>
      have hlast : (DictQuery.korean text).text.getLast? = some '\'' := List.getLast?_concat
      obtain rfl := Option.some.inj (hlast.symm.trans hc)
      decide

/-! ## The handlers -/

/-- The part of the process that the handlers share. -/
structure Server where
  engine : Engine
  cache : DictCache (List Outcome)

/-- What a handler sends: an error with its status, or what the engine said. -/
inductive Reply
  | error (status : ℕ)
  | answer (ok : Bool) (outcomes : List Outcome)
  deriving DecidableEq

variable [CDouble]

/-- A call of the engine behind the check that it is ready. -/
def execReady (mem : ℕ → Uninit) (e : Engine) (sql : CStr) : Reply × Engine :=
  if engineIsReady e then
    ((.answer (engineExecSql mem e sql).1 (engineExecSql mem e sql).2.1),
      (engineExecSql mem e sql).2.2)
  else (.error 503, e)

/-- What `handle_dict_request` does with the engine. -/
def readDict (mem : ℕ → Uninit) (e : Engine) (query : DictQuery) : Reply × Engine :=
  match query.sql with
  | none => (.error 400, e)
  | some sql => execReady mem e sql

/-- What `handle_admin_insert_request` does with the engine. -/
def insertWord (mem : ℕ → Uninit) (e : Engine) (english korean : Param 256) : Reply × Engine :=
  if isAsciiLowercaseWord english.1 ∧ korean.1 ≠ [] then
    match adminInsertSql english.1 korean.1 with
    | none => (.error 400, e)
    | some sql => execReady mem e sql
  else (.error 400, e)

/-- `handle_dict_request`. -/
def handleDictRequest (mem : ℕ → Uninit) (s : Server) (query : DictQuery) (bypass : Bool) :
    Reply × Server :=
  match query.sql, if bypass then none else query.key with
  | none, _ => (.error 400, s)
  | some _, none =>
    ((readDict mem s.engine query).1, { s with engine := (readDict mem s.engine query).2 })
  | some _, some key =>
    match s.cache.get key with
    | (some outcomes, cache) => (.answer true outcomes, { s with cache := cache })
    | (none, cache) =>
      match readDict mem s.engine query with
      | (.answer true outcomes, e) => (.answer true outcomes, ⟨e, cache.put key outcomes⟩)
      | (reply, e) => (reply, ⟨e, cache⟩)

/-- `handle_admin_insert_request`. -/
def handleAdminInsertRequest (mem : ℕ → Uninit) (s : Server) (english korean : Param 256) :
    Reply × Server :=
  match insertWord mem s.engine english korean with
  | (.answer true outcomes, e) =>
    (.answer true outcomes, ⟨e, s.cache.invalidate (englishKey english.1)⟩)
  | (reply, e) => (reply, ⟨e, s.cache⟩)

/-- `/api/query` of `router_dispatch`. -/
def handleQueryRequest (mem : ℕ → Uninit) (s : Server) (body : CStr) : Reply × Server :=
  if body = [] then (.error 400, s)
  else
    (.answer (engineExecSql mem s.engine body).1 (engineExecSql mem s.engine body).2.1,
      { s with engine := (engineExecSql mem s.engine body).2.2 })

/-! ## Lookups -/

/-- **A call with one statement executes it.** -/
theorem engineExecSql_one {text : CStr} (hsplit : splitLoop none (text ++ [';']) = (text, [';']))
    (htrim : Trimmed text) (hne : text ≠ []) (mem : ℕ → Uninit) (e : Engine) :
    engineExecSql mem e (text ++ [';']) =
      ((execOne e (mem 0) text).1.ok, [(execOne e (mem 0) text).1], (execOne e (mem 0) text).2) := by
  obtain ⟨c, s, rfl⟩ := List.exists_cons_of_ne_nil hne
  have hspace : isSpace c = false := htrim.1 c rfl
  have hdrop : (c :: s ++ [';']).dropWhile isSpace = c :: (s ++ [';']) := by
    rw [List.cons_append, List.dropWhile_cons, hspace]
    rfl
  have hnext : ∀ n, splitNextStatement (n + 1) (c :: s ++ [';']) = some (c :: s, []) := by
    intro n
    rw [splitNextStatement, hdrop]
    dsimp only
    rw [show c :: (s ++ [';']) = c :: s ++ [';'] from rfl, hsplit]
    dsimp only
    rw [trimSpace_of_trimmed htrim, if_neg (by simp)]
    rfl
  have hloop : execLoop mem ((c :: s ++ [';']).length + 1) 0 e (c :: s ++ [';']) =
      ([(execOne e (mem 0) (c :: s)).1], (execOne e (mem 0) (c :: s)).2) := by
    rw [execLoop, hnext]
    dsimp only
    rw [List.length_append, List.length_singleton, execLoop]
    rfl
  rw [engineExecSql, hloop]
  simp

/-- What a lookup returns from an engine that is ready: the answer to its SELECT. -/
theorem readDict_eq {e : Engine} (hready : engineIsReady e = true) {query : DictQuery}
    (h : query.Valid) (mem : ℕ → Uninit) :
    readDict mem e query = (.answer (execOne e (mem 0) query.text).1.ok [(execOne e (mem 0) query.text).1],
      (execOne e (mem 0) query.text).2) := by
  unfold readDict
  rw [DictQuery.sql_eq h]
  dsimp only
  rw [execReady, if_pos hready,
    engineExecSql_one (DictQuery.splitLoop_text h) (DictQuery.trimmed_text h) query.text_ne_nil]

/-- A lookup of an engine that is not ready fails. -/
theorem readDict_busy {e : Engine} (hready : ¬ engineIsReady e = true) (mem : ℕ → Uninit)
    (query : DictQuery) : ∃ status, readDict mem e query = (.error status, e) := by
  unfold readDict
  cases query.sql with
  | none => exact ⟨_, rfl⟩
  | some sql => exact ⟨_, if_neg hready⟩

/-- **A lookup changes nothing but the caches of the storage.** -/
theorem readDict_sound {e : Engine} (hs : e.storage.Sound) (mem : ℕ → Uninit) (query : DictQuery) :
    ∃ st, (readDict mem e query).2 = { e with storage := st } ∧ st.Sound ∧
      st.files = e.storage.files := by
  by_cases hvalid : query.Valid
  · by_cases hready : engineIsReady e = true
    · rw [readDict_eq hready hvalid]
      obtain ⟨rest, htext⟩ := query.text_eq
      obtain ⟨sql, hparse, htype⟩ := parseSql_select (mem 0) rest
      rw [← htext] at hparse
      unfold execOne
      rw [hparse]
      dsimp only
      unfold executeStatement
      rw [htype]
      exact executeSelect_sound hs (parseSql_from hparse).table
    · obtain ⟨status, hbusy⟩ := readDict_busy hready mem query
      exact ⟨e.storage, by rw [hbusy], hs, rfl⟩
  · refine ⟨e.storage, ?_, hs, rfl⟩
    unfold readDict
    rw [DictQuery.sql_eq_none hvalid]

/-! ## A word in the dictionary -/

/-- The condition of a lookup of a word. -/
def wordClause (word : CStr) : WhereClause := ⟨"english".toList, ['='], word, []⟩

/-- The translation in a row of the dictionary. -/
def koreanCell (schema : List ColDef) (row : Row) : CStr :=
  ((findSchemaIndex schema "korean".toList).bind (row[·]?)).getD []

/-- The rows of the dictionary. -/
def Storage.dictionaryRows (st : Storage) : Option (List ColDef × List Row) :=
  (st.tableSchema dictionaryName).bind fun schema =>
    ((st.content dictionaryName).bind (loadTableRows · schema.length)).map fun rows => (schema, rows)

omit [CDouble] in
theorem dictionaryRows_eq_some {st : Storage} {schema : List ColDef} {rows : List Row} :
    st.dictionaryRows = some (schema, rows) ↔ st.tableSchema dictionaryName = some schema ∧
      (st.content dictionaryName).bind (loadTableRows · schema.length) = some rows := by
  unfold Storage.dictionaryRows
  constructor
  · intro h
    obtain ⟨schema', hschema, h⟩ := Option.bind_eq_some_iff.mp h
    obtain ⟨rows', hrows, heq⟩ := Option.map_eq_some_iff.mp h
    obtain ⟨rfl, rfl⟩ := Prod.mk.inj heq
    exact ⟨hschema, hrows⟩
  · rintro ⟨hschema, hrows⟩
    rw [hschema, Option.bind_some, hrows, Option.map_some]

omit [CDouble] in
theorem SameTable.dictionaryRows {st st' : Storage} (h : SameTable dictionaryName st st') :
    st'.dictionaryRows = st.dictionaryRows := by
  rw [Storage.dictionaryRows, h.tableSchema, h.content, Storage.dictionaryRows]

/-- The translations of a word in the dictionary. -/
def Storage.translations (st : Storage) (word : CStr) : Option (List CStr) :=
  st.dictionaryRows.bind fun (schema, rows) =>
    (findSchemaIndex schema "english".toList).map fun i =>
      (rows.filter fun row => row[i]? = some word).map (koreanCell schema)

/-- The dictionary has translations, and the comparison with the word can be made on all its
rows and is true where the word is. -/
def Storage.FindsWord (st : Storage) (word : CStr) : Prop :=
  ∀ d ∈ st.dictionaryRows, (findSchemaIndex d.1 "korean".toList).isSome = true ∧
    ∀ row ∈ d.2, ∃ m ∈ evaluateSelectClause d.1 row (wordClause word),
      ∀ i ∈ findSchemaIndex d.1 "english".toList, row[i]? = some word → m = true

omit [CDouble] in
/-- A word in an array of the parser is compared as it is. -/
theorem stripOptionalQuotes_word {word behind : CStr} (hword : isAsciiLowercaseWord word = true)
    (hlen : word.length ≤ 255) (hbehind : behind = [] ∨ word.length = 255) :
    stripOptionalQuotes (word ++ behind) 256 = word := by
  have htake : (word ++ behind).take 255 = word := by
    rcases hbehind with rfl | hfull
    · rw [List.append_nil, List.take_of_length_le hlen]
    · rw [← hfull, List.take_left']
      rfl
  have hquote : ∀ c, c = '\'' ∨ c = '"' → (word ++ behind).head? ≠ some c := by
    intro c hc hhead
    cases hw : word with
    | nil =>
      rw [hw] at hword
      exact absurd hword (by decide)
    | cons d rest =>
      rw [hw] at hhead
      obtain rfl : d = c := Option.some.inj hhead
      refine not_mem_of_isAsciiLowercaseWord hword ?_ (show d ∈ word by simp [hw])
      rcases hc with rfl | rfl <;> decide
  unfold stripOptionalQuotes
  rw [if_neg]
  · exact htake
  · rintro ⟨-, ⟨hhead, -⟩ | ⟨hhead, -⟩⟩
    · exact hquote _ (.inl rfl) hhead
    · exact hquote _ (.inr rfl) hhead

section Lookup

variable {e : Engine} {word : Param 256}

omit [CDouble] in
theorem parseSql_dictText {word : CStr} (hquote : '\'' ∉ word) (mem : Uninit) :
    parseSql mem (dictText word) = some { dictStatement word with
      conds := [whereClause mem 0 "english".toList ['='] word] } := by
  unfold dictText
  rw [doubleApostrophes_of_not_mem hquote, parseSql, tokenize_dictSql hquote, tokenize_nil,
    List.append_nil]
  rfl

/-- The condition as the parser reads it. -/
theorem evaluate_whereClause (hword : isAsciiLowercaseWord word.1 = true) (mem : Uninit)
    (schema : List ColDef) (row : Row) :
    evaluateSelectClause schema row (whereClause mem 0 "english".toList ['='] word.1) =
      evaluateSelectClause schema row (wordClause word.1) := by
  have hlen : word.1.length < 256 := word.2.1
  have hplain : stripOptionalQuotes word.1 256 = word.1 := by
    have := @stripOptionalQuotes_word word.1 [] hword (by omega) (.inl rfl)
    rwa [List.append_nil] at this
  have hliteral : stripOptionalQuotes (cField 256 word.1 (mem.whereValue 0) []) 256 = word.1 := by
    unfold cField
    split
    · exact hplain
    · rename_i hlong
      rw [List.take_of_length_le (by omega)]
      exact stripOptionalQuotes_word hword (by omega) (.inr (by omega))
  rw [whereClause_english]
  unfold evaluateSelectClause wordClause
  dsimp only
  rw [hliteral, hplain]

/-- **A lookup finds the translations of its word.** -/
theorem readDict_finds (hs : e.storage.Sound) (hready : engineIsReady e = true)
    (hword : isAsciiLowercaseWord word.1 = true) (hfinds : e.storage.FindsWord word.1)
    {translations : List CStr} (htrans : e.storage.translations word.1 = some translations)
    (mem : ℕ → Uninit) :
    ∃ rs, (readDict mem e (.english word)).1 = .answer true [.rows .scan rs] ∧
      ∀ korean ∈ translations, [korean] ∈ rs.rows := by
  have hquote : '\'' ∉ word.1 := not_mem_of_isAsciiLowercaseWord hword (by decide)
  have hshort : dictionaryName.length ≤ nameMax := by decide
  obtain ⟨⟨schema, rows⟩, hrows, htrans⟩ := Option.bind_eq_some_iff.mp htrans
  obtain ⟨i, hi, rfl⟩ := Option.map_eq_some_iff.mp htrans
  obtain ⟨hkorean, heval⟩ := hfinds _ hrows
  obtain ⟨j, hj⟩ := Option.isSome_iff_exists.mp hkorean
  obtain ⟨hschema, hload⟩ := dictionaryRows_eq_some.mp hrows
  set clause := whereClause (mem 0) 0 "english".toList ['='] word.1 with hclause
  set sql : ParsedSQL := { dictStatement word.1 with conds := [clause] } with hsql
  -- every row is compared, and the rows of the word are among the matches
  set found : Row → Bool := fun row => (evaluateSelectClause schema row clause).getD false with hfound
  have hmatch : ∀ row ∈ rows, rowMatchesDelete schema row sql = some (found row) := by
    intro row hrow
    obtain ⟨m, hm, -⟩ := heval row hrow
    have hm' : evaluateSelectClause schema row clause = some m := by
      rw [hclause, evaluate_whereClause hword]
      exact hm
    change (evaluateSelectClause schema row clause).bind (fun m => some (false || m)) = _
    rw [hfound]
    dsimp only
    rw [hm']
    rfl
  let rs : RowSet := ⟨[((schema[j]?).map (·.name)).getD []],
    (rows.filter found).map fun row => [row[j]?.getD []]⟩
  have hscan : scanAnswer e.storage sql = .rows .scan rs := by
    have hrowsOf : scanRows e.storage (e.storage.tableFile dictionaryName) schema sql =
        some (rows.filter found) := by
      have hload' : (e.storage.files (e.storage.tableFile dictionaryName)).bind
          (loadTableRows · schema.length) = some rows := hload
      have hcolumns : sql.conds.all (fun c => (findSchemaIndex schema c.column).isSome) = true := by
        change ((findSchemaIndex schema "english".toList).isSome && true) = true
        rw [hi]
        rfl
      rw [scanRows, hload']
      dsimp only
      rw [if_pos hcolumns, collectMatchingRows_eq hmatch]
    refine scanAnswer_rows ?_
    change ((e.storage.tableSchema dictionaryName).bind fun schema =>
      (scanRows e.storage (e.storage.tableFile dictionaryName) schema sql).bind
        (buildRowset sql schema)) = _
    have hlimit : sql.limit < 0 := show (-1 : ℤ) < 0 by decide
    rw [hschema, Option.bind_some, hrowsOf, Option.bind_some,
      @buildRowset_column _ sql "korean".toList rfl (by decide) (by decide) hlimit rfl, hj]
    rfl
  have hanswer : (executeSelect e sql).1 = scanAnswer e.storage sql :=
    executeSelect_scan rfl rfl rfl hshort (show dictionaryName ≠ [] by decide)
      (hs.coherent dictionaryName (by decide))
  have hexec : (execOne e (mem 0) (DictQuery.english word).text).1 = scanAnswer e.storage sql := by
    unfold execOne
    rw [DictQuery.text, parseSql_dictText hquote]
    exact hanswer
  refine ⟨rs, ?_, fun korean hmem => ?_⟩
  · rw [@readDict_eq _ e hready (.english word) trivial, hexec, hscan]
    rfl
  · obtain ⟨row, hrow, rfl⟩ := List.mem_map.mp hmem
    obtain ⟨hrow, hcell⟩ := List.mem_filter.mp hrow
    obtain ⟨m, hm, htrue⟩ := heval row hrow
    have hfoundRow : found row = true := by
      rw [hfound]
      dsimp only
      rw [hclause, evaluate_whereClause hword, hm]
      exact htrue i hi (by simpa using hcell)
    refine List.mem_map.mpr ⟨row, List.mem_filter.mpr ⟨hrow, hfoundRow⟩, ?_⟩
    rw [koreanCell, hj]
    rfl

end Lookup

/-! ## Inserting a word -/

section Texts

omit [CDouble]

variable {word korean : CStr}

/-- The statement of an inserted word, without its `;`. -/
def adminInsertText (word korean : CStr) : CStr :=
  "INSERT INTO dictionary (english, korean) VALUES ('".toList ++ word ++ "', '".toList ++
    doubleApostrophes korean ++ "')".toList

theorem adminInsertSql_text (hword : isAsciiLowercaseWord word = true) (hlen : word.length ≤ 255)
    (hkorean : korean.length ≤ 255) :
    adminInsertSql word korean = some (adminInsertText word korean ++ [';']) := by
  rw [adminInsertSql_eq hword hlen hkorean]
  unfold adminInsertText
  rw [List.append_assoc _ "')".toList]
  rfl

theorem splitLoop_adminInsertText (hword : isAsciiLowercaseWord word = true) :
    splitLoop none (adminInsertText word korean ++ [';']) = (adminInsertText word korean, [';']) := by
  have hplain : doubleApostrophes word = word :=
    doubleApostrophes_of_not_mem (not_mem_of_isAsciiLowercaseWord hword (by decide))
  have hopen : "INSERT INTO dictionary (english, korean) VALUES ('".toList =
      "INSERT INTO dictionary (english, korean) VALUES (".toList ++ ['\''] := by simp
  have hshape : ∀ s, adminInsertText word korean ++ s =
      "INSERT INTO dictionary (english, korean) VALUES (".toList ++ '\'' ::
        (doubleApostrophes word ++ '\'' :: (", ".toList ++ '\'' ::
          (doubleApostrophes korean ++ '\'' :: (")".toList ++ s)))) := by
    intro s
    unfold adminInsertText
    rw [hopen, hplain]
    simp
  have hend : splitLoop none [';'] = ([], [';']) := rfl
  rw [hshape, splitLoop_plain (by simp), splitLoop_quoted, splitLoop_plain (by simp),
    splitLoop_quoted, splitLoop_plain (by simp), hend, ← hshape, List.append_nil]

theorem nulFree_adminInsertText (hword : NulFree word) (hkorean : NulFree korean) :
    NulFree (adminInsertText word korean) := by
  have hdouble : NulFree (doubleApostrophes korean) := by
    intro hmem
    obtain ⟨c, hc, hmem⟩ := List.mem_flatMap.mp hmem
    split at hmem
    · exact absurd hmem (by decide)
    · obtain rfl := List.mem_singleton.mp hmem
      exact hkorean hc
  unfold adminInsertText
  rw [nulFree_append, nulFree_append, nulFree_append, nulFree_append]
  exact ⟨⟨⟨⟨by simp, hword⟩, by decide⟩, hdouble⟩, by decide⟩

theorem trimmed_adminInsertText : Trimmed (adminInsertText word korean) := by
  have hfirst : "INSERT INTO dictionary (english, korean) VALUES ('".toList.head? = some 'I' := by simp
  have hhead : (adminInsertText word korean).head? = some 'I' := by
    unfold adminInsertText
    rw [List.head?_append, List.head?_append, List.head?_append, List.head?_append, hfirst]
    rfl
  have hlast : (adminInsertText word korean).getLast? = some ')' :=
    List.getLast?_append_of_ne_nil _ (by simp)
  refine ⟨fun c hc => ?_, fun c hc => ?_⟩
  · obtain rfl := Option.some.inj (hhead.symm.trans hc)
    decide
  · obtain rfl := Option.some.inj (hlast.symm.trans hc)
    decide

/-- The statement gives the word for `english`, whatever becomes of the translation. -/
theorem parseSql_adminInsertText (hword : isAsciiLowercaseWord word = true) (mem : Uninit) :
    ∃ values, parseSql mem (adminInsertText word korean) =
      some { adminInsertStatement word [] with values := word :: values } := by
  have hquote : '\'' ∉ word := not_mem_of_isAsciiLowercaseWord hword (by decide)
  have hbracket : word ≠ [')'] := by
    rintro rfl
    exact absurd hword (by decide)
  obtain ⟨a, rest, ha, hshape⟩ := exists_literal_end korean [')']
  have hshape : doubleApostrophes korean ++ "')".toList = a ++ '\'' :: rest := hshape
  refine ⟨(identListLoop (a :: tokenize rest)).1, ?_⟩
  unfold adminInsertText
  rw [List.append_assoc _ (doubleApostrophes korean), hshape, ← List.append_assoc, parseSql,
    tokenize_adminInsertSql hquote ha, parseTokens_adminInsertTokens, identListLoop_comma hbracket]
  rfl

end Texts

section Insert

omit [CDouble] in
/-- Only the word is given for `english`. -/
theorem givenValues_english {schema : List ColDef} {i : ℕ}
    (hi : findSchemaIndex schema "english".toList = some i) (word : CStr) (values : List CStr) :
    givenValues schema ["english".toList, "korean".toList] (word :: values) i = [word] := by
  have hkorean : findSchemaIndex schema "korean".toList ≠ some i := by
    intro hk
    exact absurd (findSchemaIndex_inj hi hk) (by decide)
  unfold givenValues
  rw [if_neg (by simp)]
  cases values with
  | nil =>
    simp only [List.zip_cons_cons, List.zip_nil_right, List.filter_cons, List.filter_nil, hi,
      decide_true, if_true, List.map_cons, List.map_nil]
  | cons v values =>
    simp only [List.zip_cons_cons, List.zip_nil_left, List.filter_cons, List.filter_nil, hi, hkorean,
      decide_true, decide_false, if_true, Bool.false_eq_true, if_false, List.map_cons, List.map_nil]

omit [CDouble] in
/-- The word goes to the column `english`. -/
theorem insertedRow_english {st : Storage} {schema : List ColDef} {word : CStr} {values : List CStr}
    {row : Row} {i : ℕ} (hi : findSchemaIndex schema "english".toList = some i)
    (h : insertedRow st dictionaryName ["english".toList, "korean".toList] (word :: values) schema =
      some row) : row[i]? = some word := by
  obtain ⟨hlen, hcell⟩ := insertedRow_cell h
  have hlt : i < row.length := hlen ▸ findSchemaIndex_lt hi
  rw [List.getElem?_eq_getElem hlt]
  rcases hcell i _ (List.getElem?_eq_getElem hlt) with hgive | ⟨hid, -⟩
  · have hmem := hgive.mem_givenValues
    rw [givenValues_english hi] at hmem
    rw [List.mem_singleton.mp hmem]
  · exact absurd (findSchemaIndex_inj hi hid) (by decide)

/-- What an inserted word does to the dictionary: `row` is what was added to its file. -/
structure WordInserted (st st' : Storage) (word : CStr) (row : Option Row) : Prop where
  valid : row.isSome = true → isAsciiLowercaseWord word = true
  schema : st'.tableSchema dictionaryName = st.tableSchema dictionaryName
  content : st'.content dictionaryName = withRow (st.content dictionaryName) row
  english : ∀ schema i r, st.tableSchema dictionaryName = some schema →
    findSchemaIndex schema "english".toList = some i → row = some r →
      RowOk schema.length r ∧ r[i]? = some word

omit [CDouble] in
theorem WordInserted.refl (st : Storage) (word : CStr) : WordInserted st st word none :=
  ⟨fun h => absurd h (by simp), rfl, rfl, fun _ _ _ _ _ h => absurd h (by simp)⟩

omit [CDouble] in
/-- The translations behind an inserted word. -/
theorem WordInserted.translations {st st' : Storage} {word : CStr} {row : Option Row}
    (h : WordInserted st st' word row)
    (hline : ∀ file ∈ st.content dictionaryName, EndsRecord file) {other : CStr}
    {translations : List CStr} (htrans : st.translations other = some translations) :
    ∃ added, st'.translations other = some (translations ++ added) ∧
      (other = word → row.isSome = true → added ≠ []) := by
  obtain ⟨⟨schema, rows⟩, hrows, htrans⟩ := Option.bind_eq_some_iff.mp htrans
  obtain ⟨i, hi, rfl⟩ := Option.map_eq_some_iff.mp htrans
  obtain ⟨hschema, hload⟩ := dictionaryRows_eq_some.mp hrows
  obtain ⟨file, hfile, hload⟩ := Option.bind_eq_some_iff.mp hload
  have hcontent := h.content
  rw [hfile] at hcontent
  cases row with
  | none =>
    refine ⟨[], ?_, fun _ hrow => absurd hrow (by simp)⟩
    have hrows' : st'.dictionaryRows = some (schema, rows) :=
      dictionaryRows_eq_some.mpr ⟨h.schema.trans hschema, by rw [hcontent]; exact hload⟩
    rw [Storage.translations, hrows', Option.bind_some]
    dsimp only
    rw [hi, Option.map_some, List.append_nil]
  | some row =>
    obtain ⟨hok, hcell⟩ := h.english schema i row hschema hi rfl
    have hne : word ≠ [] := by
      rintro rfl
      exact absurd (h.valid rfl) (by decide)
    have hterm := (hline file hfile).terminated (List.mem_of_getElem? hcell) hne
    have hload' := loadTableRows_append hterm hload (tableSchema_ne_nil hschema) hok
    have hrows' : st'.dictionaryRows = some (schema, rows ++ [row]) :=
      dictionaryRows_eq_some.mpr ⟨h.schema.trans hschema, by rw [hcontent]; exact hload'⟩
    refine ⟨([row].filter fun r => r[i]? = some other).map (koreanCell schema), ?_, ?_⟩
    · rw [Storage.translations, hrows', Option.bind_some]
      dsimp only
      rw [hi, Option.map_some, List.filter_append, List.map_append]
    · rintro rfl -
      simp [hcell]

variable {e : Engine} {word korean : Param 256}

/-- What a request to insert a word does, with an engine that is ready. -/
theorem insertWord_eq (hready : engineIsReady e = true) (hword : isAsciiLowercaseWord word.1 = true)
    (hkorean : korean.1 ≠ []) (mem : ℕ → Uninit) :
    insertWord mem e word korean = (.answer (execOne e (mem 0) (adminInsertText word.1 korean.1)).1.ok
      [(execOne e (mem 0) (adminInsertText word.1 korean.1)).1],
      (execOne e (mem 0) (adminInsertText word.1 korean.1)).2) := by
  have hwlen : word.1.length < 256 := word.2.1
  have hklen : korean.1.length < 256 := korean.2.1
  have hne : adminInsertText word.1 korean.1 ≠ [] := by
    unfold adminInsertText
    simp
  unfold insertWord
  rw [if_pos ⟨hword, hkorean⟩, adminInsertSql_text hword (by omega) (by omega)]
  dsimp only
  rw [execReady, if_pos hready,
    engineExecSql_one (splitLoop_adminInsertText hword) trimmed_adminInsertText hne]

/-- A request to insert a word into an engine that is not ready fails. -/
theorem insertWord_busy (hready : ¬ engineIsReady e = true) (mem : ℕ → Uninit) :
    ∃ status, insertWord mem e word korean = (.error status, e) := by
  unfold insertWord
  split
  · cases adminInsertSql word.1 korean.1 with
    | none => exact ⟨_, rfl⟩
    | some sql => exact ⟨_, if_neg hready⟩
  · exact ⟨_, rfl⟩

/-- **An inserted word leaves an engine that serves, and a row with the word.** -/
theorem insertWord_spec (hs : Serves e)
    (hline : ∀ file ∈ e.storage.content dictionaryName, EndsRecord file) (mem : ℕ → Uninit) :
    ∃ row, Serves (insertWord mem e word korean).2 ∧
      WordInserted e.storage (insertWord mem e word korean).2.storage word.1 row ∧
      (∀ outcomes, (insertWord mem e word korean).1 = .answer true outcomes → row.isSome = true) := by
  by_cases hvalid : isAsciiLowercaseWord word.1 = true ∧ korean.1 ≠ []
  · obtain ⟨hword, hkorean⟩ := hvalid
    have hne : word.1 ≠ [] := by
      intro hnil
      rw [hnil] at hword
      exact absurd hword (by decide)
    obtain ⟨values, hparse⟩ := @parseSql_adminInsertText word.1 korean.1 hword (mem 0)
    have hnul := nulFree_adminInsertText word.2.2 korean.2.2
    obtain ⟨hvalues, hsets⟩ := nulFree_parseSql hnul hparse
    set sql : ParsedSQL := { adminInsertStatement word.1 [] with values := word.1 :: values } with hsql
    have hrow : ∀ schema i row, e.storage.tableSchema dictionaryName = some schema →
        findSchemaIndex schema "english".toList = some i →
        appendedRow e.storage dictionaryName sql.columns sql.values = some row →
          RowOk schema.length row ∧ row[i]? = some word.1 := by
      intro schema i row hschema hi happ
      have hinserted := insertedRow_of_appended hschema happ
      exact ⟨rowOk_insertedRow hvalues hinserted, insertedRow_english hi hinserted⟩
    have hkeeps : KeepsWords e.storage sql := by
      intro _ _
      refine ⟨show '/' ∉ dictionaryName by decide, ?_⟩
      rw [if_pos (show sql.table = dictionaryName from rfl)]
      intro schema hschema j hj row happ
      obtain ⟨-, hcell⟩ := hrow schema j row hschema hj happ
      refine ⟨fun v hv => ?_, fun file hfile => (hline file hfile).terminated
        (List.mem_of_getElem? hcell) hne⟩
      have hgiven := givenValues_english hj word.1 values
      rw [show v = word.1 from List.mem_singleton.mp (hgiven ▸ hv)]
      exact hword
    obtain ⟨hserves, -⟩ := serves_executeStatement hs (show dictionaryName.length ≤ nameMax by decide)
      hvalues hsets hkeeps
    obtain ⟨hsound, -, hschema', hcontent', hok⟩ := storageInsert_table hs.sound
      (show PlainName dictionaryName by decide) sql.columns sql.values
    have hexec : execOne e (mem 0) (adminInsertText word.1 korean.1) =
        executeWrite e dictionaryName (storageInsert e.storage dictionaryName sql.columns sql.values) := by
      unfold execOne
      rw [hparse]
      rfl
    -- filling the trie again reads the dictionary only
    have hfiles : (executeWrite e dictionaryName
        (storageInsert e.storage dictionaryName sql.columns sql.values)).2.storage.files =
          (storageInsert e.storage dictionaryName sql.columns sql.values).2.files := by
      unfold executeWrite refreshAfterWrite
      dsimp only
      split
      · exact (dictionaryTrieRebuild_sound (e := { e with storage := _ }) hsound).2
      · rfl
    have hsame := sameTable_of_files hfiles dictionaryName
    rw [insertWord_eq hs.ready hword hkorean, hexec]
    refine ⟨appendedRow e.storage dictionaryName sql.columns sql.values, hserves, ⟨fun _ => hword, ?_, ?_, hrow⟩,
      ?_⟩
    · exact hsame.tableSchema.trans hschema'
    · exact hsame.content.trans hcontent'
    · intro outcomes hanswer
      obtain ⟨hstatus, -⟩ := Reply.answer.inj hanswer
      exact hok (ofStatus_ok.mp hstatus)
  · refine ⟨none, ?_⟩
    unfold insertWord
    rw [if_neg hvalid]
    exact ⟨hs, WordInserted.refl _ _, fun _ h => absurd h (by simp)⟩

end Insert

end MiniSql
