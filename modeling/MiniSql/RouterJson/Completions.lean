import MiniSql.DictCoherence.Runs
import MiniSql.RouterJson.Suggestions
import MiniSql.RouterJson.Tables
import MiniSql.TrieSelect

/-!
# What a completion answers

A request to `/api/autocomplete` becomes a SELECT with a prefix, which goes through the trie, the rows
that its numbers lead to, the document of the engine and the array of suggestions. At the end there
are the words of the dictionary with that prefix, in the order in which they were inserted.

## Main definitions

* `completionSql` — the statement of a completion, as it is parsed.
* `Vocabulary` — an engine whose dictionary holds some words.
* `suggested` — the words that it suggests for a prefix.
* `Completion` — the response to a completion.

## Main results

* `parseSql_autocompleteText` — the statement is parsed back.
* `executeSelect_completion` — its rows are the words with the prefix.
* `RouterState.handleAutocompleteRequest_completion` — the response.
-/

namespace MiniSql
open CText Json

/-! ## The statement -/

/-- The statement of a completion, as it is parsed. -/
def completionSql (pre : CStr) (limit : ℤ) : ParsedSQL :=
  { parsedNew with
    type := .select, table := dictionaryName, columns := ["english".toList],
    conds := [⟨"english".toList, "LIKE".toList, pre ++ ['%'], []⟩], limit := limit }

theorem tokenize_autocompleteText {pre : CStr} (hquote : '\'' ∉ pre) {limit : ℤ} (hlimit : 0 ≤ limit) :
    tokenize (autocompleteText pre limit) =
      ["SELECT".toList, "english".toList, "FROM".toList, dictionaryName, "WHERE".toList,
        "english".toList, "LIKE".toList, pre ++ ['%'], "LIMIT".toList, intText limit] := by
  have hliteral : '\'' ∉ pre ++ ['%'] := by simpa using hquote
  have hdigits := intText_digits hlimit
  have hne : intText limit ≠ [] := by
    rw [intText, if_neg (by omega)]
    exact Nat.toDigits_ne_nil
  have hminus : ¬ ['-', '-'] <+: intText limit := by
    intro hstarts
    exact absurd (hdigits '-' (hstarts.subset (by simp))) (by decide)
  have hword := @tokenize_word (intText limit) hne (fun c hc => by
    have hdigit := hdigits c hc
    simp [isWordChar, Char.isAlphanum, hdigit]) hminus [] (by simp)
  rw [List.append_nil] at hword
  have hquoted := tokenize_quoted (.inl rfl) hliteral (" LIMIT ".toList ++ intText limit)
  have hshape : autocompleteText pre limit =
      "SELECT english FROM dictionary WHERE english LIKE ".toList ++
        '\'' :: ((pre ++ ['%']) ++ '\'' :: (" LIMIT ".toList ++ intText limit)) := by
    unfold autocompleteText
    generalize intText limit = digits
    simp
  rw [hshape]
  generalize intText limit = digits at hword hquoted ⊢
  simp [tokenize_cons 'S', tokenize_cons 'e', tokenize_cons 'F', tokenize_cons 'd', tokenize_cons 'W',
    tokenize_cons 'L', tokenize_cons ' ', tokenStep, isSpace, isSingle, isWordChar, hword,
    dictionaryName] at hquoted ⊢
  exact hquoted

/-- **The statement of a completion is parsed back**, as long as its pattern fits the array. -/
theorem parseSql_autocompleteText {pre : CStr} (hquote : '\'' ∉ pre) (hlen : pre.length < 254)
    {limit : ℤ} (hlimit : 0 ≤ limit) (hmax : limit ≤ intMax) (mem : Uninit) :
    parseSql mem (autocompleteText pre limit) = some (completionSql pre limit) := by
  have hclause : whereClause mem 0 "english".toList "LIKE".toList (pre ++ ['%']) =
      ⟨"english".toList, "LIKE".toList, pre ++ ['%'], []⟩ := by
    have hvalue : cField 256 (pre ++ ['%']) (mem.whereValue 0) [] = pre ++ ['%'] :=
      cField_of_lt (by rw [List.length_append, List.length_singleton]; omega)
    unfold whereClause
    dsimp only
    rw [hvalue]
    rfl
  have hparse : parseSql mem (autocompleteText pre limit) = some { parsedNew with
      type := .select, table := dictionaryName, columns := ["english".toList],
      conds := [whereClause mem 0 "english".toList "LIKE".toList (pre ++ ['%'])],
      limit := atoi (intText limit) } := by
    rw [parseSql, tokenize_autocompleteText hquote hlimit]
    rfl
  rw [hparse, hclause, atoi_intText ((by decide : intMin ≤ 0).trans hlimit) hmax]
  rfl

theorem shouldUseTriePrefix_completion {pre : CStr} (hword : isAsciiLowercaseWord pre = true)
    (hlen : pre.length < 254) (limit : ℤ) : shouldUseTriePrefix (completionSql pre limit) = some pre := by
  have hne : pre ≠ [] := by
    rintro rfl
    exact absurd hword (by decide)
  have hpos := List.length_pos_iff.mpr hne
  have hquote : ∀ c, c = '\'' ∨ c = '"' → (pre ++ ['%']).getLast? ≠ some c := by
    intro c hc hlast
    rw [List.getLast?_concat] at hlast
    rcases hc with rfl | rfl <;> exact absurd hlast (by decide)
  have hliteral : stripOptionalQuotes (pre ++ ['%']) 256 = pre ++ ['%'] := by
    unfold stripOptionalQuotes
    rw [if_neg]
    · exact List.take_of_length_le (by rw [List.length_append, List.length_singleton]; omega)
    · rintro ⟨-, ⟨-, hlast⟩ | ⟨-, hlast⟩⟩
      · exact hquote _ (.inl rfl) hlast
      · exact hquote _ (.inr rfl) hlast
  have hpercent : '%' ∉ pre := not_mem_of_isAsciiLowercaseWord hword (by decide)
  have hunder : '_' ∉ pre := not_mem_of_isAsciiLowercaseWord hword (by decide)
  have htwo : 2 ≤ (pre ++ ['%']).length := by
    rw [List.length_append, List.length_singleton]
    omega
  unfold shouldUseTriePrefix
  change (if _ then some (stripOptionalQuotes (pre ++ ['%']) 256).dropLast else none) = _
  rw [hliteral, List.dropLast_concat]
  exact if_pos ⟨equalsIgnoreCase_refl _, equalsIgnoreCase_refl _, rfl, htwo, List.getLast?_concat,
    by omega, hpercent, hunder, hword⟩

/-! ## The answer -/

/-- An engine whose dictionary, with the columns that `engine_init` gives it, holds some words, and its
trie the same ones. -/
structure Vocabulary (e : Engine) (words : List CStr) : Prop where
  serves : Serves e
  no_bin : e.storage.files (binPath dictionaryName) = none
  schema : e.storage.tableSchema dictionaryName = some dictionaryColumns
  line : ∀ file ∈ e.storage.content dictionaryName, EndsLine file
  inserted : e.storage.words = some words
  trie : insertWords words 0 trieCreate = some e.trie

theorem findSchemaIndex_english : findSchemaIndex dictionaryColumns "english".toList = some 1 := by decide

/-- The rows behind the words. -/
theorem Vocabulary.rows {e : Engine} {words : List CStr} (h : Vocabulary e words) :
    ∃ file rows, e.storage.content dictionaryName = some file ∧
      loadTableRows file dictionaryColumns.length = some rows ∧
      words = rows.map fun row => row[1]?.getD [] := by
  have hwords := h.inserted
  rw [Storage.words, h.schema, Option.bind_some] at hwords
  obtain ⟨file, hfile, henglish⟩ := Option.bind_eq_some_iff.mp hwords
  rw [englishWords, findSchemaIndex_english, Option.bind_some] at henglish
  obtain ⟨rows, hrows, rfl⟩ := Option.map_eq_some_iff.mp henglish
  exact ⟨file, rows, hfile, hrows, rfl⟩

/-- The words of the dictionary are words. -/
theorem Vocabulary.word {e : Engine} {words : List CStr} (h : Vocabulary e words) {w : CStr}
    (hw : w ∈ words) : isAsciiLowercaseWord w = true :=
  (insertWords_isSome le_rfl).mp (Option.isSome_of_eq_some h.trie) w hw

section Answer

variable [CDouble] {e : Engine} {words : List CStr} {pre : CStr}

theorem buildRowset_completion (pre : CStr) (n : ℕ) (rows : List Row) :
    buildRowset (completionSql pre n) dictionaryColumns rows =
      some ⟨["english".toList], (rows.take n).map fun row => [row[1]?.getD []]⟩ := by
  have hsort : sortSelection (completionSql pre n) dictionaryColumns rows = some rows := by
    rw [sortSelection]
    rfl
  have hresolve : resolveSelectedColumns ["english".toList] dictionaryColumns = some [1] := by
    decide
  have hlimit : ¬ (n : ℤ) < 0 := by omega
  rw [buildRowset_plain hsort rfl (by decide), buildRowsetFromSelection]
  change (resolveSelectedColumns ["english".toList] dictionaryColumns).map _ = _
  rw [hresolve]
  change some (RowSet.mk _ ((if (n : ℤ) < 0 then rows else rows.take (n : ℤ).toNat).map _)) = _
  rw [if_neg hlimit, Int.toNat_natCast]
  rfl

/-- The words that are suggested for a prefix, in the order in which they were inserted: each word once,
unless there are so many that the table is scanned. -/
def suggested (pre : CStr) (words : List CStr) : List CStr :=
  if dictionaryTrieMaxRows ≤ (wordsWith pre words).dedup.length then wordsWith pre words
  else (wordsWith pre words).dedup

omit [CDouble] in
theorem mem_suggested {w : CStr} : w ∈ suggested pre words ↔ w ∈ wordsWith pre words := by
  unfold suggested
  split_ifs
  · rfl
  · exact List.mem_dedup

omit [CDouble] in
/-- The numbers lead to each word once, where it was inserted last. -/
theorem pickRows_lastNumbers {cell : Row → CStr} (rows : List Row) :
    (pickRows rows (lastNumbers pre (rows.map cell) 0)).map cell =
      (wordsWith pre (rows.map cell)).dedup := by
  suffices h : ∀ before, (pickRows (before ++ rows) (lastNumbers pre (rows.map cell) before.length)).map
      cell = (wordsWith pre (rows.map cell)).dedup from h []
  induction rows with
  | nil => intro before; rfl
  | cons row rows ih =>
    intro before
    have hrest := ih (before ++ [row])
    rw [List.append_assoc, List.singleton_append, List.length_append, List.length_singleton] at hrest
    have hcell : (before ++ row :: rows)[((before.length : ℕ) : ℤ).toNat]? = some row := by
      rw [Int.toNat_natCast, List.getElem?_append_right le_rfl, Nat.sub_self]
      rfl
    rw [List.map_cons, lastNumbers, wordsWith_cons]
    by_cases hpre : pre <+: cell row
    · have hmem : cell row ∈ wordsWith pre (rows.map cell) ↔ cell row ∈ rows.map cell := by
        rw [mem_wordsWith, and_iff_left hpre]
      rw [if_pos hpre]
      by_cases hlater : cell row ∈ rows.map cell
      · rw [if_neg fun h => h.2 hlater, List.dedup_cons_of_mem (hmem.mpr hlater), hrest]
      · rw [if_pos ⟨hpre, hlater⟩, List.dedup_cons_of_notMem (mt hmem.mp hlater), ← hrest, pickRows,
          List.filterMap_cons, if_neg (by omega), hcell]
        rfl
    · rw [if_neg fun h => hpre h.1, if_neg hpre, hrest]

theorem prefixAnswer_rows {st : Storage} {sql : ParsedSQL} {indices : List ℤ} {rs : RowSet}
    (hfew : ¬ dictionaryTrieMaxRows ≤ indices.length)
    (h : ((st.tableSchema sql.table).bind fun schema =>
      (fetchRows st sql.table (st.tableFile sql.table) schema (indices.insertionSort (· ≤ ·))).bind
        (buildRowset sql schema)) = some rs) : prefixAnswer st sql indices = .rows .trie rs := by
  rw [prefixAnswer, if_neg hfew, h]

/-- **A completion finds the words with its prefix**, in the order in which they were inserted. -/
theorem executeSelect_completion (h : Vocabulary e words) (hpre : isAsciiLowercaseWord pre = true)
    (hlen : pre.length < 254) (n : ℕ) :
    ∃ path, (executeSelect e (completionSql pre n)).1 =
      .rows path ⟨["english".toList], ((suggested pre words).take n).map fun w => [w]⟩ := by
  obtain ⟨file, rows, hfile, hload, hcells⟩ := h.rows
  have hstarts := shouldUseTriePrefix_completion hpre hlen (n : ℤ)
  obtain ⟨hfull, hsorted⟩ := insertionSort_trieSearchPrefix h.trie hpre dictionaryTrieMaxRows
  rw [executeSelect_starts hstarts h.serves.ready h.serves.sound, suggested,
    ← length_lastNumbers pre words 0]
  by_cases hmany : dictionaryTrieMaxRows ≤ (lastNumbers pre words 0).length
  · -- so many that the table is scanned
    have hscan : scanRows e.storage (e.storage.tableFile dictionaryName) dictionaryColumns
        (completionSql pre n) = some (rows.filter fun row => pre.isPrefixOf (row[1]?.getD [])) := by
      have hcontent : e.storage.files (e.storage.tableFile dictionaryName) = some file := hfile
      rw [scanRows_starts hstarts, hcontent, Option.bind_some, hload, Option.bind_some, prefixRows,
        findSchemaIndex_english, Option.bind_some, if_pos (.inr rfl)]
    have hwords : (wordsWith pre words).take n =
        ((rows.filter fun row => pre.isPrefixOf (row[1]?.getD [])).take n).map fun row =>
          row[1]?.getD [] := by
      rw [hcells, wordsWith, List.filter_map, ← List.map_take]
      rfl
    refine ⟨.scan, ?_⟩
    rw [if_pos hmany, prefixAnswer, if_pos (hfull.mpr hmany)]
    apply scanAnswer_rows
    change (e.storage.tableSchema dictionaryName).bind _ = _
    rw [h.schema, Option.bind_some]
    change (scanRows e.storage (e.storage.tableFile dictionaryName) dictionaryColumns _).bind _ = _
    rw [hscan, Option.bind_some, buildRowset_completion, hwords, List.map_map]
    rfl
  · have hfetch : fetchRows e.storage dictionaryName (e.storage.tableFile dictionaryName)
        dictionaryColumns (lastNumbers pre words 0) = some (pickRows rows (lastNumbers pre words 0)) :=
      fetchRows_csv h.no_bin hfile hload _
    have hwords : (wordsWith pre words).dedup.take n =
        ((pickRows rows (lastNumbers pre words 0)).take n).map fun row => row[1]?.getD [] := by
      rw [hcells, ← pickRows_lastNumbers, List.map_take]
    refine ⟨.trie, ?_⟩
    rw [if_neg hmany]
    apply prefixAnswer_rows (mt hfull.mp hmany)
    rw [hsorted (not_le.mp hmany)]
    change (e.storage.tableSchema dictionaryName).bind _ = _
    rw [h.schema, Option.bind_some]
    change (fetchRows e.storage dictionaryName (e.storage.tableFile dictionaryName) dictionaryColumns
      (lastNumbers pre words 0)).bind _ = _
    rw [hfetch, Option.bind_some, buildRowset_completion, hwords, List.map_map]
    rfl

end Answer

/-! ## The response -/

section Response

variable [CDouble] {e : Engine} {words : List CStr} {pre : CStr}

omit [CDouble] in
/-- The one statement of a text that ends in a semicolon. -/
theorem splitNextStatement_one {text : CStr} (hsplit : splitLoop none (text ++ [';']) = (text, [';']))
    (htrim : Trimmed text) (hne : text ≠ []) (n : ℕ) :
    splitNextStatement (n + 1) (text ++ [';']) = some (text, []) := by
  obtain ⟨c, rest, rfl⟩ := List.exists_cons_of_ne_nil hne
  have hdrop : (c :: rest ++ [';']).dropWhile isSpace = c :: (rest ++ [';']) := by
    rw [List.cons_append, List.dropWhile_cons, htrim.1 c rfl]
    rfl
  rw [splitNextStatement, hdrop]
  dsimp only
  rw [← List.cons_append, hsplit]
  dsimp only
  rw [trimSpace_of_trimmed htrim, if_neg (by simp)]
  rfl

/-- The document of a SELECT alone begins with its result. -/
theorem engineExecJson_select {text : CStr} (hsplit : splitLoop none (text ++ [';']) = (text, [';']))
    (htrim : Trimmed text) (hne : text ≠ []) {mem : ℕ → Uninit} {sql : ParsedSQL}
    (hparse : parseSql (mem 0) text = some sql) (htype : sql.type = .select) {path : SelectPath}
    {rs : RowSet} (hrows : (executeSelect e sql).1 = .rows path rs) (stray : ℕ → Bool)
    (elapsed lockWait : ℕ) : ∃ rest,
      engineExecJson mem stray elapsed lockWait e (text ++ [';']) =
        "\x7b\"statements\":[".toList ++ (appendRowsetJson rs ++ rest) := by
  have hexec : (execOne e (mem 0) text).1 = .rows path rs := by
    rw [execOne, hparse]
    dsimp only
    rw [executeStatement, htype]
    exact hrows
  have hdone : ∃ ok, executed mem stray e (text ++ [';']) = [⟨e, some sql, .rows path rs, ok⟩] := by
    have hnext := splitNextStatement_one hsplit htrim hne (text ++ [';']).length
    have hend : ∀ n, splitNextStatement (n + 1) [] = none := fun _ => rfl
    obtain ⟨n, hn⟩ : ∃ n, (text ++ [';']).length = n + 1 := ⟨text.length, by simp⟩
    rw [executed, execTrace_succ _ _ _ _ _ hnext, hn, execTrace, List.length_nil, hend, hparse, hexec]
    exact ⟨_, rfl⟩
  obtain ⟨ok, hdone⟩ := hdone
  have hblank : isBlankSql (text ++ [';']) = false := by
    rw [isBlankSql, List.all_append]
    simp [isSpace]
  have hjson : Executed.json ⟨e, some sql, .rows path rs, ok⟩ = appendRowsetJson rs := by
    unfold Executed.json
    simp only [htype]
  rw [engineExecJson, if_neg (by simp [hblank])]
  dsimp only
  rw [hdone, List.map_singleton, hjson, commaLoop_true, commaSep]
  simp only [List.append_assoc]
  exact ⟨_, rfl⟩

omit [CDouble] in
theorem jsonByte_letter {c : Char} (hc : 'a' ≤ c ∧ c ≤ 'z') : jsonByte c = [c] := by
  have hlow : 0x61 ≤ c.toNat ∧ c.toNat ≤ 0x7a := hc
  have hne : ∀ d : Char, ¬ (0x61 ≤ d.toNat ∧ d.toNat ≤ 0x7a) → c ≠ d := by
    rintro d hd rfl
    exact hd hlow
  unfold jsonByte
  split
  · exact absurd rfl (hne _ (by decide))
  · exact absurd rfl (hne _ (by decide))
  · exact absurd rfl (hne _ (by decide))
  · exact absurd rfl (hne _ (by decide))
  · exact absurd rfl (hne _ (by decide))
  · exact if_neg (by omega)

omit [CDouble] in
/-- A word is written as it is. -/
theorem escaped_word {w : CStr} (hw : isAsciiLowercaseWord w = true) : escaped w = w := by
  have hletter : ∀ c ∈ w, jsonByte c = [c] := by
    intro c hc
    by_contra hne
    exact not_mem_of_isAsciiLowercaseWord hw (mt jsonByte_letter hne) hc
  rw [escaped, List.flatMap_congr hletter]
  simp

omit [CDouble] in
theorem printable_word {w : CStr} (hw : isAsciiLowercaseWord w = true) : Printable w := by
  intro c hc
  by_contra hlow
  refine not_mem_of_isAsciiLowercaseWord hw (fun hletter => ?_) hc
  have hle : 0x61 ≤ c.toNat := hletter.1
  omega

omit [CDouble] in
theorem length_commaSep (t : CStr) (ts : List CStr) :
    (commaSep (t :: ts)).length + 1 = ((t :: ts).map fun u => u.length + 1).sum := by
  induction ts generalizing t with
  | nil => rfl
  | cons u ts ih =>
    rw [commaSep, List.length_append, List.length_cons, List.map_cons, List.sum_cons, ← ih u]
    omega

/-- The bytes of the array of some words, with the NUL behind it. -/
def arraySize (words : List CStr) : ℕ := (words.map fun w => w.length + 3).sum + 2

omit [CDouble] in
theorem firstCells_words (ws : List CStr) : firstCells (ws.map fun w => [w]) = ws := by
  rw [firstCells, List.filterMap_map]
  exact List.filterMap_some

omit [CDouble] in
theorem arraySize_eq {ws : List CStr} (hwords : ∀ w ∈ ws, isAsciiLowercaseWord w = true) (size : ℕ)
    (hsize : 3 ≤ size) :
    (suggestionsText (ws.map fun w => [w])).length + 1 ≤ size ↔ arraySize ws ≤ size := by
  have hlength : ∀ w ∈ ws, (jbAppendJsonString w).length + 1 = w.length + 3 := by
    intro w hw
    have hescaped : w.flatMap jsonByte = w := escaped_word (hwords w hw)
    rw [jbAppendJsonString, hescaped, List.length_cons, List.length_append, List.length_singleton]
  rw [suggestionsText, firstCells_words, arrText, List.length_cons, List.length_append, List.length_singleton,
    arraySize, ← List.map_congr_left hlength]
  cases ws with
  | nil =>
    simp [commaSep]
    omega
  | cons w ws =>
    have hsep := length_commaSep (jbAppendJsonString w) (ws.map jbAppendJsonString)
    rw [← List.map_cons, List.map_map] at hsep
    change _ = (List.map (fun w => (jbAppendJsonString w).length + 1) (w :: ws)).sum at hsep
    omega

omit [CDouble] in
theorem neZero_prefixSize : NeZero 256 := ⟨by decide⟩

omit [CDouble] in
/-- The prefix that a request completes, and how many words it asks for. A pattern that fills the array
of the parser is not one. -/
def completionOf (req : HttpRequest) : Option (CStr × ℕ) :=
  if req.path = "/api/autocomplete".toList ∧ req.method = "GET".toList then do
    let pre ← @queryParam req.query "prefix".toList 256 neZero_prefixSize
    let limit ← parseLimitParam req.query
    if isAsciiLowercaseWord pre.1 ∧ pre.1.length < 254 then some (pre.1, limit.toNat) else none
  else none

omit [CDouble] in
/-- The response to a completion: the words, as long as their array fits, or an error. -/
def Completion (pre : CStr) (ws : List CStr) (response : HttpResponse) : Prop :=
  if (∀ w ∈ ws, w.length < 256) ∧ arraySize ws ≤ 4096 then
    response.status = 200 ∧ ∃ elapsed engine, JsonText (.obj
      [("ok".toList, .bool true), ("prefix".toList, .str pre), ("suggestions".toList, .arr (ws.map .str)),
        ("elapsed_ms".toList, .num elapsed), ("engine".toList, engine)]) response.body
  else response = jsonError 500 "response_too_large".toList

omit [CDouble] in
theorem completionOf_eq_some {req : HttpRequest} {pre : CStr} {n : ℕ}
    (h : completionOf req = some (pre, n)) :
    req.path = "/api/autocomplete".toList ∧ req.method = "GET".toList ∧
      ∃ param, queryParam req.query "prefix".toList 256 = some param ∧ param.1 = pre ∧
        parseLimitParam req.query = some (n : ℤ) ∧ n ≤ 20 ∧ isAsciiLowercaseWord pre = true ∧
        pre.length < 254 := by
  unfold completionOf at h
  split_ifs at h with hreq
  obtain ⟨param, hparam, h⟩ := Option.bind_eq_some_iff.mp h
  obtain ⟨limit, hlimit, h⟩ := Option.bind_eq_some_iff.mp h
  split_ifs at h with hvalid
  obtain ⟨rfl, rfl⟩ := Prod.mk.inj (Option.some.inj h)
  have hbounds : 0 ≤ limit ∧ limit ≤ 20 := by
    unfold parseLimitParam at hlimit
    split at hlimit
    · rw [← Option.some.inj hlimit]
      decide
    · split_ifs at hlimit with hdigits
      rw [← Option.some.inj hlimit]
      exact ⟨hdigits.2.1.le, hdigits.2.2⟩
  refine ⟨hreq.1, hreq.2, param, hparam, rfl, ?_, by omega, hvalid⟩
  rw [hlimit, Int.toNat_of_nonneg hbounds.1]

omit [CDouble] in
/-- The suggestions are the words of the rows, if their array fits. -/
theorem buildSuggestionsArray_words {ws : List CStr} (hwords : ∀ w ∈ ws, isAsciiLowercaseWord w = true)
    (names : List CStr) (rest : CStr) :
    buildSuggestionsArray 4096 ("\x7b\"statements\":[".toList ++
        (appendRowsetJson ⟨names, ws.map fun w => [w]⟩ ++ rest)) =
      if (∀ w ∈ ws, w.length < 256) ∧ arraySize ws ≤ 4096 then
        some (suggestionsText (ws.map fun w => [w])) else none := by
  have hcells := firstCells_words ws
  have hprint : ∀ c ∈ firstCells (ws.map fun w => [w]), Printable c :=
    fun c hc => printable_word (hwords c (hcells ▸ hc))
  have hrowset := @buildSuggestionsArray_rowset 4096 ⟨names, ws.map fun w => [w]⟩ hprint rest
  rw [hcells] at hrowset
  rw [hrowset]
  exact if_congr (and_congr_right fun _ => arraySize_eq hwords 4096 (by decide)) rfl rfl

omit [CDouble] in
/-- The document around an array of words. -/
theorem jsonText_completion (hpre : isAsciiLowercaseWord pre = true) (hlen : pre.length < 256)
    (ws : List CStr) {elapsed : ℕ} (helapsed : elapsed < 2 ^ 64) {engineJson : CStr} {engine : Value}
    (hengine : JsonText engine engineJson) :
    JsonText (.obj [("ok".toList, .bool true), ("prefix".toList, .str pre),
        ("suggestions".toList, .arr (ws.map .str)), ("elapsed_ms".toList, .num (fixed3 elapsed)),
        ("engine".toList, engine)])
      (printTimed ("\x7b\"ok\":".toList ++ boolText true ++ ",\"prefix\":\"".toList ++
          appendJsonEscaped 512 pre [] ++ "\",\"suggestions\":".toList ++
          suggestionsText (ws.map fun w => [w]) ++ ",\"elapsed_ms\":".toList)
        (fixed3 elapsed) (",\"engine\":".toList ++ engineJson ++ ['}'])) := by
  have hvalues := jsonText_suggestionsText (ws.map fun w => [w])
  rw [firstCells_words] at hvalues
  have hprefix : appendJsonEscaped 512 pre [] = pre := by
    have hescaped := @appendJsonEscaped_fits 512 pre (printable_word hpre) [] (by
      rw [escaped_word hpre, List.length_nil]
      omega)
    rw [hescaped, List.nil_append, escaped_word hpre]
  have hname : JsonText (.str pre) ('"' :: (pre ++ ['"'])) := by
    have hstring := jsonText_string pre
    have hescaped : pre.flatMap jsonByte = pre := escaped_word hpre
    rwa [jbAppendJsonString, hescaped] at hstring
  have hobj := @jsonText_obj [("ok".toList, _, boolText true), ("prefix".toList, _, _),
    ("suggestions".toList, _, suggestionsText (ws.map fun w => [w])),
    ("elapsed_ms".toList, _, fixed3 elapsed), ("engine".toList, _, engineJson)] (by simp)
    ⟨by decide, jsonText_bool true, by decide, hname, by decide, hvalues, by decide,
      jsonText_fixed3 elapsed, by decide, hengine, trivial⟩
  rw [printTimed_eq (length_fixed3_le helapsed), hprefix]
  generalize suggestionsText (ws.map fun w => [w]) = suggestions at hobj ⊢
  generalize fixed3 elapsed = time at hobj ⊢
  generalize boolText true = ok at hobj ⊢
  simpa [objText, commaSep] using hobj

omit [CDouble] in
theorem buildAutocompleteResponse_eq {ws : List CStr} (hpre : isAsciiLowercaseWord pre = true)
    (hlen : pre.length < 256) (hwords : ∀ w ∈ ws, isAsciiLowercaseWord w = true) {rest engineJson : CStr}
    {names : List CStr} (hengine : engineJson = "\x7b\"statements\":[".toList ++
      (appendRowsetJson ⟨names, ws.map fun w => [w]⟩ ++ rest)) (hjson : IsJson engineJson)
    {elapsed : ℕ} (helapsed : elapsed < 2 ^ 64) :
    Completion pre ws (match buildAutocompleteResponse pre true elapsed engineJson with
      | none => jsonError 500 "response_too_large".toList
      | some json => jsonBody 200 json) := by
  have hbuild := buildSuggestionsArray_words hwords names rest
  rw [← hengine] at hbuild
  unfold Completion buildAutocompleteResponse
  rw [hbuild]
  by_cases hfits : (∀ w ∈ ws, w.length < 256) ∧ arraySize ws ≤ 4096
  · rw [if_pos hfits, if_pos hfits]
    obtain ⟨engine, hdocument⟩ := hjson
    exact ⟨rfl, fixed3 elapsed, engine, jsonText_completion hpre hlen ws helapsed hdocument⟩
  · rw [if_neg hfits, if_neg hfits]
    rfl

end Response

/-! ## The request -/

namespace RouterState

variable [CDouble] {m : Moment} {s : RouterState} {req : HttpRequest} {words : List CStr} {pre : CStr}

/-- **A completion answers with the words that have the prefix**, in the order in which they were
inserted, as far as the limit goes and as long as their array fits. -/
theorem handleAutocompleteRequest_completion (h : Vocabulary s.engine words) {n : ℕ}
    (hasks : completionOf req = some (pre, n)) :
    Completion pre ((suggested pre words).take n) (handleAutocompleteRequest m s req).1 := by
  obtain ⟨-, hmethod, param, hparam, rfl, hlimit, hmax, hword, hlen⟩ := completionOf_eq_some hasks
  have hpos := parseLimitParam_nonneg hlimit
  have hquote : '\'' ∉ param.1 := not_mem_of_isAsciiLowercaseWord hword (by decide)
  have hsplit := splitLoop_autocompleteText hword hpos
  have htrim := @trimmed_autocompleteText param.1 _ hpos
  have hne := autocompleteText_ne_nil param.1 n
  -- the statement fits its buffer
  have hsql : snprintf 768 ("SELECT english FROM dictionary WHERE english LIKE '".toList ++ param.1 ++
      "%' LIMIT ".toList ++ intText n ++ ";".toList) = some (autocompleteText param.1 n ++ [';']) := by
    have hdigits := @length_intText_le n (by omega)
    apply if_pos
    simp only [List.length_append]
    simp
    omega
  -- its one outcome
  obtain ⟨path, hrows⟩ := executeSelect_completion h hword hlen n
  have hparse := parseSql_autocompleteText hquote hlen hpos (by
    have hint : (20 : ℤ) ≤ intMax := by decide
    omega) (m.mem 0)
  obtain ⟨rest, hjson⟩ :=
    engineExecJson_select hsplit htrim hne hparse rfl hrows m.stray m.elapsed m.lockWait
  have houtcomes : (engineExecSql m.mem s.engine (autocompleteText param.1 n ++ [';'])).2.1 =
      [.rows path ⟨["english".toList], ((suggested param.1 words).take n).map fun w => [w]⟩] := by
    have hexec : execOne s.engine (m.mem 0) (autocompleteText param.1 n) =
        executeSelect s.engine (completionSql param.1 n) := by
      rw [execOne, hparse]
      rfl
    rw [engineExecSql_one hsplit htrim hne, hexec, hrows]
  have hok : (engineExec m s (autocompleteText param.1 n ++ [';'])).1.ok = true := by
    rw [engineExec_ok (by rw [houtcomes]; simp [Outcome.answer]), houtcomes]
    simp [Outcome.answer]
  have hexecuted : (engineExec m s (autocompleteText param.1 n ++ [';'])).1.json = _ := hjson
  obtain ⟨hdocument, helapsed, -⟩ := engineExec_one hsplit htrim hne m s
  have hwords : ∀ w ∈ (suggested param.1 words).take n, isAsciiLowercaseWord w = true := by
    intro w hw
    exact h.word (mem_wordsWith.mp (mem_suggested.mp (List.mem_of_mem_take hw))).1
  have hresponse := buildAutocompleteResponse_eq hword param.2.1 hwords hexecuted hdocument helapsed
  unfold handleAutocompleteRequest
  rw [if_neg (not_not.mpr hmethod), hparam]
  dsimp only
  rw [if_neg (by simp [hword]), hlimit]
  dsimp only
  rw [sqlEscapeLiteral_eq (by omega), Option.bind_some, doubleApostrophes_of_not_mem hquote, hsql]
  dsimp only
  rw [if_neg (by simp [h.serves.ready])]
  generalize engineExec m s (autocompleteText param.1 n ++ [';']) = result at hok hresponse
  obtain ⟨result, s'⟩ := result
  dsimp only at hok hresponse ⊢
  rw [hok]
  cases hbuild : buildAutocompleteResponse param.1 true result.elapsed result.json with
  | none =>
    rw [hbuild] at hresponse
    exact hresponse
  | some json =>
    rw [hbuild] at hresponse
    exact hresponse

end RouterState

end MiniSql
