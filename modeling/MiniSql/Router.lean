import MiniSql.Parser

/-!
# Statements built by the router

`sql_escape_literal` of `router.c` doubles every single quote, and the handlers paste the
result between single quotes into a fixed statement. The tokenizer does not read `''` inside
a quoted token as a quote, so the round trip fails on every string with a quote in it.

## Main definitions

* `sqlEscapeLiteral` — the escaper, with the size of its output buffer.
* `dictSql`, `adminInsertSql` — the texts `handle_dict_request` and
  `handle_admin_insert_request` run.

## Main results

* `parseSql_dictSql_iff` — when a looked-up word comes back from the parser as it was.
* `parseSql_adminInsertSql_iff` — the same for an inserted translation.
-/

namespace MiniSql
open CText

/-! ## The texts -/

/-- The loop of `sql_escape_literal`, with the bytes written so far. -/
def escapeLoop (dstSize : ℕ) : CStr → CStr → Option CStr
  | [], out => some out
  | c :: src, out =>
    if c = '\'' then
      if dstSize ≤ out.length + 2 then none else escapeLoop dstSize src (out ++ ['\'', '\''])
    else if dstSize ≤ out.length + 1 then none
    else escapeLoop dstSize src (out ++ [c])

/-- `sql_escape_literal`. -/
def sqlEscapeLiteral (src : CStr) (dstSize : ℕ) : Option CStr :=
  if dstSize = 0 then none else escapeLoop dstSize src []

/-- `snprintf` into `size` bytes, with a text that does not fit treated as an error. -/
def snprintf (size : ℕ) (text : CStr) : Option CStr :=
  if text.length < size then some text else none

/-- The statement `handle_dict_request` runs for `?english=...`. -/
def dictSql (english : CStr) : Option CStr :=
  (sqlEscapeLiteral english 512).bind fun escaped =>
    snprintf 768 ("SELECT korean FROM dictionary WHERE english = '".toList ++ escaped ++
      "';".toList)

/-- The statement `handle_admin_insert_request` runs. -/
def adminInsertSql (english korean : CStr) : Option CStr :=
  (sqlEscapeLiteral english 512).bind fun escapedEnglish =>
    (sqlEscapeLiteral korean 512).bind fun escapedKorean =>
      snprintf 1024 ("INSERT INTO dictionary (english, korean) VALUES ('".toList ++
        escapedEnglish ++ "', '".toList ++ escapedKorean ++ "');".toList)

/-- What `handle_dict_request` means to run: one condition, on `english`. -/
def dictStatement (english : CStr) : ParsedSQL :=
  { parsedNew with
    type := .select, table := "dictionary".toList, columns := ["korean".toList],
    conds := [⟨"english".toList, ['='], english, []⟩] }

/-- What `handle_admin_insert_request` means to run: two columns, two values. -/
def adminInsertStatement (english korean : CStr) : ParsedSQL :=
  { parsedNew with
    type := .insert, table := "dictionary".toList,
    columns := ["english".toList, "korean".toList], values := [english, korean] }

/-! ## The escaper -/

/-- A text with its single quotes doubled. -/
def doubleApostrophes (s : CStr) : CStr :=
  s.flatMap fun c => if c = '\'' then ['\'', '\''] else [c]

theorem doubleApostrophes_cons (c : Char) (s : CStr) :
    doubleApostrophes (c :: s) =
      (if c = '\'' then ['\'', '\''] else [c]) ++ doubleApostrophes s := by
  simp [doubleApostrophes]

theorem doubleApostrophes_append (s t : CStr) :
    doubleApostrophes (s ++ t) = doubleApostrophes s ++ doubleApostrophes t := by
  simp [doubleApostrophes]

theorem doubleApostrophes_of_not_mem {s : CStr} (hs : '\'' ∉ s) : doubleApostrophes s = s := by
  induction s with
  | nil => rfl
  | cons c s ih =>
    simp only [List.mem_cons, not_or] at hs
    rw [doubleApostrophes_cons, if_neg (Ne.symm hs.1), ih hs.2]
    rfl

theorem length_doubleApostrophes_le (s : CStr) : (doubleApostrophes s).length ≤ 2 * s.length := by
  induction s with
  | nil => simp [doubleApostrophes]
  | cons c s ih =>
    rw [doubleApostrophes_cons]
    split <;> simp <;> omega

theorem escapeLoop_eq {dstSize : ℕ} {src out : CStr}
    (h : out.length + (doubleApostrophes src).length < dstSize) :
    escapeLoop dstSize src out = some (out ++ doubleApostrophes src) := by
  induction src generalizing out with
  | nil => simp [escapeLoop, doubleApostrophes]
  | cons c src ih =>
    rw [doubleApostrophes_cons] at h ⊢
    by_cases hc : c = '\'' <;> simp only [hc, if_true, if_false] at h ⊢ <;>
      simp only [List.cons_append, List.nil_append, List.length_cons] at h ⊢
    · rw [escapeLoop, if_pos rfl, if_neg (by omega), ih (by simp; omega)]
      simp
    · rw [escapeLoop, if_neg hc, if_neg (by omega), ih (by simp; omega)]
      simp

/-- A parameter from one of the router's 256-byte arrays always fits its 512-byte one. -/
theorem sqlEscapeLiteral_eq {s : CStr} (h : s.length ≤ 255) :
    sqlEscapeLiteral s 512 = some (doubleApostrophes s) := by
  have := length_doubleApostrophes_le s
  rw [sqlEscapeLiteral, if_neg (by decide), escapeLoop_eq (by simp; omega)]
  rfl

theorem dictSql_eq {s : CStr} (h : s.length ≤ 255) :
    dictSql s = some ("SELECT korean FROM dictionary WHERE english = '".toList ++
      doubleApostrophes s ++ "';".toList) := by
  have := length_doubleApostrophes_le s
  rw [dictSql, sqlEscapeLiteral_eq h, Option.bind_some, snprintf, if_pos]
  simp
  omega

theorem adminInsertSql_eq {word s : CStr} (hword : isAsciiLowercaseWord word = true)
    (hlen : word.length ≤ 255) (h : s.length ≤ 255) :
    adminInsertSql word s = some ("INSERT INTO dictionary (english, korean) VALUES ('".toList ++
      word ++ "', '".toList ++ doubleApostrophes s ++ "');".toList) := by
  have := length_doubleApostrophes_le s
  have hplain : doubleApostrophes word = word :=
    doubleApostrophes_of_not_mem (not_mem_of_isAsciiLowercaseWord hword (by decide))
  rw [adminInsertSql, sqlEscapeLiteral_eq hlen, sqlEscapeLiteral_eq h, Option.bind_some,
    Option.bind_some, hplain, snprintf, if_pos]
  simp
  omega

/-! ## The tokens of the two statements -/

/-- The tokens of the lookup, with `value` in the place of the literal. -/
def dictTokens (value : CStr) : List CStr :=
  ["SELECT".toList, "korean".toList, "FROM".toList, "dictionary".toList, "WHERE".toList,
    "english".toList, ['='], value]

/-- The tokens of the insert, with `word` and `value` in the places of the literals. -/
def adminInsertTokens (word value : CStr) : List CStr :=
  ["INSERT".toList, "INTO".toList, "dictionary".toList, ['('], "english".toList, [','],
    "korean".toList, [')'], "VALUES".toList, ['('], word, [','], value]

/-- A literal ends at the first single quote inside it. -/
theorem tokenize_dictSql {a : CStr} (ha : '\'' ∉ a) (rest : CStr) :
    tokenize ("SELECT korean FROM dictionary WHERE english = '".toList ++ a ++ '\'' :: rest) =
      dictTokens a ++ tokenize rest := by
  have hquoted := tokenize_quoted (.inl rfl) ha rest
  simp [tokenize_cons 'S', tokenize_cons 'k', tokenize_cons 'F', tokenize_cons 'd',
    tokenize_cons 'W', tokenize_cons 'e', tokenize_cons '=', tokenize_cons ' ', tokenStep,
    isSpace, isSingle, isWordChar, hquoted, dictTokens]

theorem tokenize_adminInsertSql {word a : CStr} (hword : '\'' ∉ word) (ha : '\'' ∉ a)
    (rest : CStr) :
    tokenize ("INSERT INTO dictionary (english, korean) VALUES ('".toList ++ word ++
      "', '".toList ++ a ++ '\'' :: rest) = adminInsertTokens word a ++ tokenize rest := by
  have hliterals : tokenize ('\'' :: (word ++ '\'' :: ',' :: ' ' :: '\'' :: (a ++ '\'' :: rest))) =
      word :: [','] :: a :: tokenize rest := by
    rw [tokenize_quoted (.inl rfl) hword, tokenize_single (by decide), tokenize_space (by decide),
      tokenize_quoted (.inl rfl) ha]
  simp [tokenize_cons 'I', tokenize_cons 'd', tokenize_cons '(', tokenize_cons 'e',
    tokenize_cons ',', tokenize_cons 'k', tokenize_cons ')', tokenize_cons 'V', tokenize_cons ' ',
    tokenStep, isSpace, isSingle, isWordChar, hliterals, adminInsertTokens]

theorem tokenize_dictSql_end : tokenize ";".toList = [[';']] := by decide

theorem tokenize_adminInsertSql_end : tokenize ");".toList = [[')'], [';']] := by decide

/-- Escaping a text with a quote in it, and pasting it between `p` and `q`. -/
theorem append_doubleApostrophes {a : CStr} (ha : '\'' ∉ a) (b p q : CStr) :
    p ++ doubleApostrophes (a ++ '\'' :: b) ++ q =
      p ++ a ++ '\'' :: '\'' :: (doubleApostrophes b ++ q) := by
  rw [doubleApostrophes_append, doubleApostrophes_of_not_mem ha, doubleApostrophes_cons, if_pos rfl]
  simp

/-- A literal with its single quotes doubled ends for the parser at the first of them, or at its
closing quote. -/
theorem exists_literal_end (text s : CStr) :
    ∃ a rest, '\'' ∉ a ∧ doubleApostrophes text ++ '\'' :: s = a ++ '\'' :: rest := by
  by_cases hmem : '\'' ∈ text
  · obtain ⟨a, b, rfl, ha⟩ := List.eq_append_cons_of_mem hmem
    refine ⟨a, '\'' :: (doubleApostrophes b ++ '\'' :: s), ha, ?_⟩
    simpa using append_doubleApostrophes ha b [] ('\'' :: s)
  · exact ⟨text, s, hmem, by rw [doubleApostrophes_of_not_mem hmem]⟩

/-! ## What the parser makes of the tokens -/

theorem parseTokens_dictTokens (mem : Uninit) (value : CStr) :
    parseTokens mem (dictTokens value ++ [[';']]) =
      some { dictStatement value with
        conds := [whereClause mem 0 "english".toList ['='] value] } := rfl

/-- Whatever follows it, the first equation of a `WHERE` is its first condition. -/
theorem head?_parseWhereLoop (mem : Uninit) (n : ℕ) (name value : CStr) (rest : List CStr) :
    (parseWhereLoop mem (n + 1) (name :: ['='] :: value :: rest) [] []).1.head? =
      some (whereClause mem 0 name ['='] value) := by
  have hread : readCondition mem 0 (name :: ['='] :: value :: rest) =
      some (whereClause mem 0 name ['='] value, true, rest) := rfl
  have hfirst : [whereClause mem 0 name ['='] value] <+:
      (parseWhereLoop mem (n + 1) (name :: ['='] :: value :: rest) [] []).1 := by
    rw [parseWhereLoop, List.length_nil, hread]
    cases rest with
    | nil => exact List.prefix_rfl
    | cons l rest =>
      dsimp only
      split
      · exact parseWhereLoop_prefix ..
      · exact List.prefix_rfl
  obtain ⟨ws, hws⟩ := hfirst
  rw [← hws]
  rfl

/-- Whatever follows the literal, the first condition is about the literal. -/
theorem head?_conds_of_dictTokens {mem : Uninit} {value : CStr} {rest : List CStr}
    {sql : ParsedSQL} (h : parseTokens mem (dictTokens value ++ rest) = some sql) :
    sql.conds.head? = some (whereClause mem 0 "english".toList ['='] value) := by
  set conds := (parseWhereLoop mem (rest.length + 3) ("english".toList :: ['='] :: value :: rest)
    [] []).1 with hconds
  have hsql : sql.conds = conds := by
    have : (parseTokens mem (dictTokens value ++ rest)).map (·.conds) = some conds := by
      change some (ParsedSQL.conds (parseLimit _ (Prod.fst (parseOrderBy _ _)))) = _
      simp only [parseLimit_conds, parseOrderBy_conds]
      rfl
    simpa [h] using this
  rw [hsql, hconds]
  exact head?_parseWhereLoop mem (rest.length + 2) "english".toList value rest

theorem parseTokens_adminInsertTokens (mem : Uninit) (word value : CStr) (rest : List CStr) :
    parseTokens mem (adminInsertTokens word value ++ rest) =
      some { adminInsertStatement word value with
        values := (identListLoop (word :: [','] :: value :: rest)).1 } := rfl

theorem whereClause_english (mem : Uninit) (value : CStr) :
    whereClause mem 0 "english".toList ['='] value =
      ⟨"english".toList, ['='], cField 256 value (mem.whereValue 0) [], []⟩ := rfl

/-! ## The round trips -/

/-- Without a single quote inside, only the array of the condition can change the word. -/
theorem parseSql_dictSql {s : CStr} (hlen : s.length ≤ 255) (hquote : '\'' ∉ s) (mem : Uninit) :
    (dictSql s).bind (parseSql mem) =
      some { dictStatement s with
        conds := [whereClause mem 0 "english".toList ['='] s] } := by
  rw [dictSql_eq hlen, Option.bind_some, doubleApostrophes_of_not_mem hquote, parseSql,
    show "';".toList = '\'' :: ";".toList from rfl, tokenize_dictSql hquote, tokenize_dictSql_end,
    parseTokens_dictTokens]

theorem parseSql_adminInsertSql {word s : CStr} (hword : isAsciiLowercaseWord word = true)
    (hwlen : word.length ≤ 255) (hlen : s.length ≤ 255) (hquote : '\'' ∉ s) (mem : Uninit) :
    (adminInsertSql word s).bind (parseSql mem) =
      some { adminInsertStatement word s with
        values := (identListLoop [word, [','], s, [')'], [';']]).1 } := by
  have hword' : '\'' ∉ word := not_mem_of_isAsciiLowercaseWord hword (by decide)
  rw [adminInsertSql_eq hword hwlen hlen, Option.bind_some, doubleApostrophes_of_not_mem hquote,
    parseSql, show "');".toList = '\'' :: ");".toList from rfl,
    tokenize_adminInsertSql hword' hquote, tokenize_adminInsertSql_end,
    parseTokens_adminInsertTokens]

/-- With a single quote inside, the first condition is about the text before it. -/
theorem head?_conds_dictSql {a b : CStr} (hlen : (a ++ '\'' :: b).length ≤ 255) (ha : '\'' ∉ a)
    {mem : Uninit} {sql : ParsedSQL}
    (h : (dictSql (a ++ '\'' :: b)).bind (parseSql mem) = some sql) :
    sql.conds.head? = some (whereClause mem 0 "english".toList ['='] a) := by
  rw [dictSql_eq hlen, Option.bind_some, append_doubleApostrophes ha, parseSql, tokenize_dictSql ha] at h
  exact head?_conds_of_dictTokens h

theorem values_adminInsertSql {word a b : CStr} (hword : isAsciiLowercaseWord word = true)
    (hwlen : word.length ≤ 255) (hlen : (a ++ '\'' :: b).length ≤ 255) (ha : '\'' ∉ a)
    {mem : Uninit} {sql : ParsedSQL}
    (h : (adminInsertSql word (a ++ '\'' :: b)).bind (parseSql mem) = some sql) :
    ∃ rest, sql.values = (identListLoop (word :: [','] :: a :: rest)).1 := by
  have hword' : '\'' ∉ word := not_mem_of_isAsciiLowercaseWord hword (by decide)
  rw [adminInsertSql_eq hword hwlen hlen, Option.bind_some, append_doubleApostrophes ha, parseSql,
    tokenize_adminInsertSql hword' ha, parseTokens_adminInsertTokens, Option.some.injEq] at h
  exact ⟨_, by rw [← h]⟩

/-- **A looked-up word comes back from the parser exactly when it has no single quote and
leaves room for a terminator in the array of the condition.** -/
theorem parseSql_dictSql_iff {s : CStr} (hlen : s.length ≤ 255) :
    (∀ mem, (dictSql s).bind (parseSql mem) = some (dictStatement s)) ↔
      '\'' ∉ s ∧ s.length ≤ 254 := by
  constructor
  · intro h
    have hquote : '\'' ∉ s := by
      intro hmem
      obtain ⟨a, b, rfl, ha⟩ := List.eq_append_cons_of_mem hmem
      have hhead := head?_conds_dictSql hlen ha (h Uninit.zero)
      simp only [List.length_append, List.length_cons] at hlen
      rw [whereClause_english, cField_of_lt (by omega)] at hhead
      simp [dictStatement] at hhead
    refine ⟨hquote, ?_⟩
    by_contra hlong
    -- a full array is read past its end, into whatever the heap held
    have hparse := h { Uninit.zero with whereValue := fun _ => 'x' }
    rw [parseSql_dictSql hlen hquote, Option.some.injEq, whereClause_english] at hparse
    have hvalue := congrArg (fun sql => sql.conds.map (·.value.length)) hparse
    simp [dictStatement, cField, cstr, show ¬ s.length < 255 by omega] at hvalue
    omega
  · rintro ⟨hquote, hshort⟩ mem
    rw [parseSql_dictSql hlen hquote, whereClause_english, cField_of_lt (by omega)]
    rfl

/-- **An inserted translation comes back from the parser exactly when it has no single quote
and is not a closing bracket.** -/
theorem parseSql_adminInsertSql_iff {s : CStr} (hlen : s.length ≤ 255) :
    (∀ mem word, isAsciiLowercaseWord word = true → word.length ≤ 255 →
      (adminInsertSql word s).bind (parseSql mem) = some (adminInsertStatement word s)) ↔
      '\'' ∉ s ∧ s ≠ [')'] := by
  have hbracket : ∀ word, isAsciiLowercaseWord word = true → word ≠ [')'] := by
    rintro word hword rfl
    exact absurd hword (by decide)
  constructor
  · intro h
    constructor
    · intro hmem
      obtain ⟨a, b, rfl, ha⟩ := List.eq_append_cons_of_mem hmem
      have hparse := h Uninit.zero ['w'] (by decide) (by decide)
      obtain ⟨rest, hvalues⟩ := values_adminInsertSql (by decide) (by decide) hlen ha hparse
      rw [identListLoop_comma (by decide)] at hvalues
      have htail : (identListLoop (a :: rest)).1.head? = some (a ++ '\'' :: b) := by
        have := congrArg List.tail hvalues
        simp only [adminInsertStatement, List.tail_cons] at this
        rw [← this]
        rfl
      have := head?_identListLoop htail
      simp at this
    · rintro rfl
      have hparse := h Uninit.zero ['w'] (by decide) (by decide)
      rw [parseSql_adminInsertSql (by decide) (by decide) (by decide) (by decide)] at hparse
      exact absurd hparse (by decide)
  · rintro ⟨hquote, hne⟩ mem word hword hwlen
    have hlist : (identListLoop [word, [','], s, [')'], [';']]).1 = [word, s] := by
      rw [identListLoop_comma (hbracket word hword), identListLoop.eq_def]
      simp [hne, ieq, equalsIgnoreCase]
    rw [parseSql_adminInsertSql hword hwlen hlen hquote, hlist]
    rfl

/-- **Both statements bring their parameter back exactly when it has no single quote, is at
most 254 bytes long and is not a closing bracket.** -/
theorem router_statements_iff {s : CStr} (hlen : s.length ≤ 255) :
    (∀ mem, (dictSql s).bind (parseSql mem) = some (dictStatement s) ∧
      ∀ word, isAsciiLowercaseWord word = true → word.length ≤ 255 →
        (adminInsertSql word s).bind (parseSql mem) = some (adminInsertStatement word s)) ↔
      '\'' ∉ s ∧ s.length ≤ 254 ∧ s ≠ [')'] := by
  have hdict := parseSql_dictSql_iff hlen
  have hinsert := parseSql_adminInsertSql_iff hlen
  constructor
  · intro h
    obtain ⟨hquote, hshort⟩ := hdict.mp fun mem => (h mem).1
    exact ⟨hquote, hshort, (hinsert.mp fun mem => (h mem).2).2⟩
  · rintro ⟨hquote, hshort, hne⟩ mem
    exact ⟨hdict.mpr ⟨hquote, hshort⟩ mem, hinsert.mpr ⟨hquote, hne⟩ mem⟩

/-- `it` is looked up as it is; the statement for `it's` compares with `it`. -/
theorem router_statements_it :
    (dictSql "it".toList).bind (parseSql Uninit.zero) = some (dictStatement "it".toList) :=
  ((router_statements_iff (s := "it".toList) (by decide)).mpr (by decide) Uninit.zero).1

theorem router_statements_apostrophe :
    (dictSql "it's".toList).bind (parseSql Uninit.zero) ≠ some (dictStatement "it's".toList) := by
  decide

end MiniSql
