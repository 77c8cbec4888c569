import MiniSql.EngineJson
import MiniSql.RangeSelect.Rows

/-!
# What the JSON document of `engine_exec_sql` says

## Main definitions

* `RangeFull` — a `SELECT` whose array of row numbers cannot grow.
* `Describes` — the document describes the statements of a text.

## Main results

* `Executed.Ran.jsonText` — a statement appends one element that says what happened.
* `isJson_engineExecJson_iff` — when the document is JSON.
* `engineExecJson_describes` — the document describes the statements, unless a range search fills the largest array of row
  numbers.
-/

namespace MiniSql
open CText Json

variable [CDouble]

/-! ## Statements -/

omit [CDouble] in
/-- The `SELECT` searches a range, and `bptree_range` fills the largest array of row numbers. -/
def RangeFull (st : Storage) (sql : ParsedSQL) : Prop :=
  ∃ clause tree from' to', shouldUseIdRange sql = some clause ∧
    indexRegistryGet st sql.table = some tree ∧ parseBetweenBounds clause = some (from', to') ∧
    2 ^ 30 ≤ (bptreeRange tree from' to' (2 ^ 30)).length

/-- The two ends of `selectRange`. -/
theorem selectRange_spec {sql : ParsedSQL} {clause : WhereClause}
    (hclause : shouldUseIdRange sql = some clause) (st : Storage) :
    RangeFull st sql ∧ selectRange st sql clause = (.error (), st) ∨
      ¬ RangeFull st sql ∧ ∃ found st', selectRange st sql clause = (.ok found, st') := by
  have hfull : RangeFull st sql → ∃ tree from' to', indexRegistryGet st sql.table = some tree ∧
      parseBetweenBounds clause = some (from', to') ∧ rangeRows tree from' to' 28 16 = none := by
    rintro ⟨clause', tree, from', to', hclause', htree, hbounds, hlen⟩
    obtain rfl := Option.some.inj (hclause.symm.trans hclause')
    exact ⟨tree, from', to', htree, hbounds, (rangeRows_eq_none_iff tree from' to').mpr hlen⟩
  cases htree : indexRegistryGet st sql.table with
  | none =>
    refine .inr ⟨fun h => ?_, none, st, by simp [selectRange, htree]⟩
    obtain ⟨tree, -, -, heq, -⟩ := hfull h
    exact absurd (htree.symm.trans heq) (by simp)
  | some tree =>
    cases hbounds : parseBetweenBounds clause with
    | none =>
      refine .inr ⟨fun h => ?_, none, st, by simp [selectRange, hbounds]⟩
      obtain ⟨-, from', to', -, heq, -⟩ := hfull h
      exact absurd (hbounds.symm.trans heq) (by simp)
    | some bounds =>
      obtain ⟨from', to'⟩ := bounds
      cases hrows : rangeRows tree from' to' 28 16 with
      | none =>
        have hlen := (rangeRows_eq_none_iff tree from' to').mp hrows
        exact .inl ⟨⟨clause, tree, from', to', hclause, htree, hbounds, hlen⟩,
          by simp [selectRange, htree, hbounds, hrows]⟩
      | some indices =>
        refine .inr ⟨fun h => ?_, _, _, by simp only [selectRange, htree, hbounds, hrows]; rfl⟩
        obtain ⟨tree', a, b, heq, heq', hnone⟩ := hfull h
        obtain rfl := Option.some.inj (htree.symm.trans heq)
        obtain ⟨rfl, rfl⟩ := Prod.mk.inj (Option.some.inj (hbounds.symm.trans heq'))
        exact absurd (hrows.symm.trans hnone) (by simp)

theorem selectUnindexed_outcome (e : Engine) (st : Storage) (sql : ParsedSQL) :
    (∃ path rs, (selectUnindexed e st sql).1 = .rows path rs) ∨
      (selectUnindexed e st sql).1 = .status false := by
  have hscan : ∀ st' : Storage, ∀ outcome,
      (scanOutcome e (storageSelectResult st' sql.table sql)).1 = outcome →
      (∃ path rs, outcome = .rows path rs) ∨ outcome = .status false := by
    intro st' outcome h
    rcases hres : storageSelectResult st' sql.table sql with ⟨_ | rs, st''⟩ <;> rw [hres] at h
    · exact .inr h.symm
    · exact .inl ⟨.scan, rs, h.symm⟩
  unfold selectUnindexed
  cases shouldUseTriePrefix sql with
  | none => exact hscan st _ rfl
  | some pre =>
    dsimp only
    by_cases hready : e.trieReady = true
    · rw [if_pos hready]
      rcases hres : selectPrefix e st sql pre with ⟨_ | rs, st'⟩
      · exact hscan st' _ rfl
      · exact .inl ⟨.trie, rs, rfl⟩
    · rw [if_neg hready]
      exact hscan st _ rfl

/-- A `SELECT` returns rows, or it fails. -/
theorem executeSelect_outcome (e : Engine) (sql : ParsedSQL) :
    (∃ path rs, (executeSelect e sql).1 = .rows path rs) ∨
      (executeSelect e sql).1 = .status false := by
  unfold executeSelect
  cases hrange : shouldUseIdRange sql with
  | some clause =>
    rcases selectRange_spec hrange (ensureIndex e.storage sql.table) with
      ⟨-, herror⟩ | ⟨-, found, st', hok⟩
    · exact .inr (by simp only [herror])
    · cases found with
      | some rs => exact .inl ⟨.range, rs, by simp only [hok]⟩
      | none =>
        simp only [hok]
        exact selectUnindexed_outcome e st' sql
  | none =>
    cases hpoint : shouldUseIdIndex sql with
    | none => exact selectUnindexed_outcome ..
    | some clause =>
      cases hfound : selectPoint (ensureIndex e.storage sql.table) sql clause with
      | mk found st' =>
        cases found with
        | some rs => exact .inl ⟨.point, rs, by simp only [hfound]⟩
        | none =>
          simp only [hfound]
          exact selectUnindexed_outcome e st' sql

theorem executeSelect_of_full {e : Engine} {sql : ParsedSQL}
    (hfull : RangeFull (ensureIndex e.storage sql.table) sql) :
    (executeSelect e sql).1 = .status false := by
  have hclause : ∃ clause, shouldUseIdRange sql = some clause := by
    obtain ⟨clause, -, -, -, hclause, -⟩ := hfull
    exact ⟨clause, hclause⟩
  obtain ⟨clause, hclause⟩ := hclause
  rcases selectRange_spec hclause (ensureIndex e.storage sql.table) with ⟨-, herror⟩ | ⟨hnot, -⟩
  · simp only [executeSelect, hclause, herror]
  · exact absurd hfull hnot

namespace Executed

/-- The statement is such a `SELECT`. -/
def RangeFull (x : Executed) : Prop :=
  ∃ sql, x.parsed = some sql ∧ sql.type = .select ∧
    MiniSql.RangeFull (ensureIndex x.before.storage sql.table) sql

/-- The outcome is that of the statement. -/
def Ran (x : Executed) : Prop :=
  ∃ mem stray stmt, x.parsed = parseSql mem stmt ∧ x.outcome = (execOne x.before mem stmt).1 ∧
    x.ok = x.outcome.returnsZero stray

/-- What the statement appends, as a value. -/
def value (x : Executed) : Value :=
  match x.parsed with
  | none => errorValue "parse error or unsupported query".toList
  | some sql =>
    match sql.type with
    | .select =>
      match x.outcome with
      | .rows _ rs => rowsetValue rs
      | _ => statusValue sql false "select".toList
    | .create => statusValue sql x.ok "create".toList
    | .insert => statusValue sql x.ok "insert".toList
    | .delete => statusValue sql x.ok "delete".toList
    | .update => statusValue sql x.ok "update".toList
    | .unknown => errorValue "parse error or unsupported query".toList

variable {x : Executed}

theorem Ran.outcome_eq (h : x.Ran) {sql : ParsedSQL} (hparsed : x.parsed = some sql) :
    x.outcome = (executeStatement x.before sql).1 := by
  obtain ⟨mem, -, stmt, hsql, hout, -⟩ := h
  rw [hout, execOne, ← hsql, hparsed]

/-- A `SELECT` has rows, or it failed. -/
theorem Ran.select (h : x.Ran) {sql : ParsedSQL} (hparsed : x.parsed = some sql)
    (htype : sql.type = .select) :
    (∃ path rs, x.outcome = .rows path rs ∧ x.ok = true) ∨ x.outcome = .status false ∧ x.ok = false := by
  have hout := h.outcome_eq hparsed
  rw [executeStatement, htype] at hout
  obtain ⟨-, stray, -, -, -, hok⟩ := h
  rcases executeSelect_outcome x.before sql with ⟨path, rs, hrows⟩ | hfalse
  · exact .inl ⟨path, rs, hout.trans hrows, by rw [hok, hout, hrows]; rfl⟩
  · exact .inr ⟨hout.trans hfalse, by rw [hok, hout, hfalse]; rfl⟩

/-- A statement that is not understood fails. -/
theorem Ran.ok_of_unknown (h : x.Ran)
    (hparsed : ∀ sql, x.parsed = some sql → sql.type = .unknown) : x.ok = false := by
  obtain ⟨mem, stray, stmt, hsql, hout, hok⟩ := h
  have hfalse : x.outcome = .status false := by
    rw [hout, execOne]
    cases hp : parseSql mem stmt with
    | none => rfl
    | some sql =>
      have htype := hparsed sql (hsql.trans hp)
      simp only [executeStatement, htype]
  rw [hok, hfalse]
  rfl

/-- **A statement appends one element that says what happened.** -/
theorem Ran.jsonText (h : x.Ran) (hfull : ¬ x.RangeFull) : JsonText x.value x.json := by
  unfold value json
  cases hparsed : x.parsed with
  | none => exact jsonText_error _
  | some sql =>
    dsimp only
    cases htype : sql.type with
    | select =>
      rcases h.select hparsed htype with ⟨path, rs, hrows, -⟩ | ⟨hfalse, -⟩
      · simp only [hrows]
        exact jsonText_rowset rs
      · simp only [hfalse]
        cases hclause : shouldUseIdRange sql with
        | none => exact jsonText_status ..
        | some clause =>
          rcases selectRange_spec hclause (ensureIndex x.before.storage sql.table) with
            ⟨hrange, -⟩ | ⟨-, found, st', hok⟩
          · exact absurd ⟨sql, hparsed, htype, hrange⟩ hfull
          · simp only [hok]
            exact jsonText_status ..
    | create => exact jsonText_status ..
    | insert => exact jsonText_status ..
    | delete => exact jsonText_status ..
    | update => exact jsonText_status ..
    | unknown => exact jsonText_error _

/-- Where the array of row numbers cannot grow, nothing is appended. -/
theorem Ran.json_eq_nil (h : x.Ran) (hfull : x.RangeFull) : x.json = [] := by
  obtain ⟨sql, hparsed, htype, hrange⟩ := hfull
  have hout := h.outcome_eq hparsed
  rw [executeStatement, htype] at hout
  have hfalse := hout.trans (executeSelect_of_full hrange)
  obtain ⟨clause, -, -, -, hclause, -⟩ := id hrange
  rcases selectRange_spec hclause (ensureIndex x.before.storage sql.table) with
    ⟨-, herror⟩ | ⟨hnot, -⟩
  · simp only [json, hparsed, htype, hfalse, hclause, herror]
  · exact absurd hrange hnot

theorem Ran.field_ok (h : x.Ran) : x.value.field "ok".toList = some (.bool x.ok) := by
  have hstatus : ∀ sql ok action, (statusValue sql ok action).field "ok".toList = some (.bool ok) :=
    fun _ _ _ => rfl
  unfold value
  cases hparsed : x.parsed with
  | none =>
    rw [h.ok_of_unknown (by simp [hparsed])]
    rfl
  | some sql =>
    dsimp only
    cases htype : sql.type with
    | select =>
      rcases h.select hparsed htype with ⟨path, rs, hrows, hok⟩ | ⟨hfalse, hok⟩
      · simp only [hrows, hok]
        rfl
      · simp only [hfalse, hok]
        exact hstatus ..
    | create => exact hstatus ..
    | insert => exact hstatus ..
    | delete => exact hstatus ..
    | update => exact hstatus ..
    | unknown =>
      rw [h.ok_of_unknown (by simp [hparsed, htype])]
      rfl

/-- The element of a `SELECT` holds its columns and its rows. -/
theorem Ran.value_rows (h : x.Ran) {path : SelectPath} {rs : RowSet}
    (hrows : x.outcome = .rows path rs) : x.value = rowsetValue rs := by
  have hwrite : ∀ s : Status, .rows path rs ≠ Outcome.ofStatus s := by
    intro s
    rcases s with (_ | _) | _ <;> exact Outcome.noConfusion
  obtain ⟨mem, -, stmt, hsql, hout, -⟩ := id h
  cases hparsed : x.parsed with
  | none =>
    rw [hrows, execOne, ← hsql, hparsed] at hout
    exact absurd hout (by simp)
  | some sql =>
    have hexec := hrows.symm.trans (h.outcome_eq hparsed)
    unfold executeStatement at hexec
    unfold value
    cases htype : sql.type with
    | select => simp only [hparsed, htype, hrows]
    | unknown =>
      rw [htype] at hexec
      exact absurd hexec (by simp)
    | _ =>
      rw [htype] at hexec
      exact absurd hexec (hwrite _)

end Executed

theorem execTrace_succ (mem : ℕ → Uninit) (stray : ℕ → Bool) (n i : ℕ) (e : Engine)
    {cursor stmt rest : CStr}
    (hsplit : splitNextStatement (cursor.length + 1) cursor = some (stmt, rest)) :
    execTrace mem stray (n + 1) i e cursor =
      ⟨e, parseSql (mem i) stmt, (execOne e (mem i) stmt).1,
          (execOne e (mem i) stmt).1.returnsZero (stray i)⟩ ::
        execTrace mem stray n (i + 1) (execOne e (mem i) stmt).2 rest := by
  rw [execTrace, hsplit]

theorem execTrace_ran (mem : ℕ → Uninit) (stray : ℕ → Bool) (n i : ℕ) (e : Engine) (cursor : CStr) :
    ∀ x ∈ execTrace mem stray n i e cursor, x.Ran := by
  induction n generalizing i e cursor with
  | zero => simp [execTrace]
  | succ n ih =>
    intro x hx
    cases hsplit : splitNextStatement (cursor.length + 1) cursor with
    | none =>
      rw [execTrace, hsplit] at hx
      exact absurd hx (by simp)
    | some split =>
      obtain ⟨stmt, rest⟩ := split
      rw [execTrace_succ _ _ _ _ _ hsplit] at hx
      rcases List.mem_cons.mp hx with rfl | hx
      · exact ⟨mem i, stray i, stmt, rfl, rfl, rfl⟩
      · exact ih _ _ _ x hx

/-- The trace has the outcomes of the run. -/
theorem execTrace_outcome (mem : ℕ → Uninit) (stray : ℕ → Bool) (n i : ℕ) (e : Engine)
    (cursor : CStr) :
    (execTrace mem stray n i e cursor).map Executed.outcome = (execLoop mem n i e cursor).1 := by
  induction n generalizing i e cursor with
  | zero => rfl
  | succ n ih =>
    rw [execTrace, execLoop]
    cases hsplit : splitNextStatement (cursor.length + 1) cursor with
    | none => rfl
    | some split => exact congrArg (_ :: ·) (ih _ _ _)

/-! ## The document -/

/-- The members behind the statements. -/
def documentRest (elapsed lockWait : ℕ) (done : List Executed) : List (CStr × Value × CStr) :=
  [("ok".toList, .bool (!done.isEmpty && done.all Executed.ok),
      boolText (!done.isEmpty && done.all Executed.ok)),
    ("statement_count".toList, .num (intText done.length), intText done.length),
    ("index_used".toList, .bool (done.any Executed.indexUsed), boolText (done.any Executed.indexUsed)),
    ("nodes_visited".toList, .num (intText (maxNodesVisited done)),
      intText (maxNodesVisited done)),
    ("elapsed_ms".toList, .num (fixed3 elapsed), fixed3 elapsed),
    ("lock_wait_ms".toList, .num (fixed3 lockWait), fixed3 lockWait)]

/-- The members of a document with these statements. -/
def documentMembers (elapsed lockWait : ℕ) (done : List Executed) (elements : List Value) :
    List (CStr × Value) :=
  ("statements".toList, .arr elements) :: (documentRest elapsed lockWait done).map fun m => (m.1, m.2.1)

/-- The text of a document with these statements. -/
def documentText (elapsed lockWait : ℕ) (done : List Executed) (texts : List CStr) : CStr :=
  objText (("statements".toList, arrText texts) ::
    (documentRest elapsed lockWait done).map fun m => (m.1, m.2.2))

omit [CDouble] in
theorem membersOk_documentRest (elapsed lockWait : ℕ) (done : List Executed) :
    MembersOk (documentRest elapsed lockWait done) :=
  ⟨by decide, jsonText_bool _, by decide, jsonText_nat _, by decide, jsonText_bool _,
    by decide, jsonText_nat _, by decide, jsonText_fixed3 _, by decide, jsonText_fixed3 _, trivial⟩

/-- The statements of a document. -/
def statementTexts (done : List Executed) : List CStr :=
  if done.isEmpty then [appendErrorJson "empty sql".toList] else done.map Executed.json

variable {mem : ℕ → Uninit} {stray : ℕ → Bool} {elapsed lockWait : ℕ} {e : Engine} {sql : CStr}
variable {done : List Executed}

theorem engineExecJson_eq (hblank : isBlankSql sql = false) :
    engineExecJson mem stray elapsed lockWait e sql =
      documentText elapsed lockWait (executed mem stray e sql)
        (statementTexts (executed mem stray e sql)) := by
  rw [engineExecJson, if_neg (by simp [hblank])]
  dsimp only
  generalize executed mem stray e sql = done
  have hstatements : commaLoop true (done.map Executed.json) ++
      (if done.isEmpty then appendErrorJson "empty sql".toList else []) =
        commaSep (statementTexts done) := by
    rw [commaLoop_true, statementTexts]
    cases done with
    | nil => rfl
    | cons x done => simp
  rw [List.append_assoc "\x7b\"statements\":[".toList, hstatements]
  unfold documentText documentRest objText arrText
  generalize commaSep (statementTexts done) = statements
  generalize boolText (!done.isEmpty && done.all Executed.ok) = ok
  generalize intText done.length = count
  generalize boolText (done.any Executed.indexUsed) = used
  generalize intText (maxNodesVisited done) = nodes
  generalize fixed3 elapsed = elapsed
  generalize fixed3 lockWait = lockWait
  simp [commaSep]

omit [CDouble] in
theorem jsonText_document (elapsed lockWait : ℕ) (done : List Executed) {items : List (Value × CStr)}
    (h : ∀ p ∈ items, JsonText p.1 p.2) :
    JsonText (.obj (documentMembers elapsed lockWait done (items.map Prod.fst)))
      (documentText elapsed lockWait done (items.map Prod.snd)) :=
  @jsonText_obj (("statements".toList, _, _) :: documentRest elapsed lockWait done) (by simp)
    ⟨by decide, jsonText_arr h, membersOk_documentRest elapsed lockWait done⟩

omit [CDouble] in
/-- With a missing element among several, the document is not JSON. -/
theorem not_isJson_document (elapsed lockWait : ℕ) (done : List Executed) {texts : List CStr}
    (h : ∀ t ∈ texts, t = [] ∨ IsJson t) (hmem : [] ∈ texts) (hlen : 2 ≤ texts.length) :
    ¬ IsJson (documentText elapsed lockWait done texts) := by
  have hne : ∃ text rest, (documentRest elapsed lockWait done).map
      (fun m => '"' :: (m.1 ++ '"' :: ':' :: m.2.2)) = text :: rest := ⟨_, _, rfl⟩
  obtain ⟨text, rest, hrest⟩ := hne
  have hmissing := @not_isJson_missing (',' :: (commaSep (text :: rest) ++ ['}']))
    "statements".toList (by decide) texts h hmem hlen
  have htext : documentText elapsed lockWait done texts =
      '{' :: '"' :: ("statements".toList ++ '"' :: ':' ::
        (arrText texts ++ ',' :: (commaSep (text :: rest) ++ ['}']))) := by
    unfold documentText objText
    rw [List.map_cons, List.map_map]
    simp only [Function.comp_def, hrest]
    rw [commaSep]
    generalize commaSep (text :: rest) = tail
    generalize arrText texts = statements
    simp
  rwa [htext]

/-- The document is one object. Unless the text is blank, there is an element for each statement,
or one error, the statements are all well when each one is, and the element of a successful
`SELECT` holds the columns and the cells of its rows. -/
def Describes (json sql : CStr) (done : List Executed) : Prop :=
  ∃ members, JsonText (.obj members) json ∧ (isBlankSql sql = false →
    ∃ (elements : List Value) (oks : List Bool), members.lookup "statements".toList = some (.arr elements) ∧
      elements.length = max 1 done.length ∧
      elements.map (Value.field "ok".toList) = oks.map (some ∘ Value.bool) ∧
      members.lookup "ok".toList = some (.bool (oks.all id)) ∧
      (done = [] → ∃ message, elements = [errorValue message]) ∧
      ∀ (i : ℕ) (x : Executed) (v : Value), done[i]? = some x → elements[i]? = some v →
        v.field "ok".toList = some (.bool x.ok) ∧
        ∀ path rs, x.outcome = .rows path rs →
          v.field "columns".toList = some (.arr (rs.colNames.map .str)) ∧
          v.field "rows".toList = some (.arr (rs.rows.map fun row => .arr (row.map .str))))

theorem executed_ran : ∀ x ∈ executed mem stray e sql, x.Ran := execTrace_ran mem stray _ _ e sql

/-- The document of a run that appends all its elements. -/
theorem describes_document (hran : ∀ x ∈ done, x.Ran) (hfull : ∀ x ∈ done, ¬ x.RangeFull)
    (sql : CStr) : Describes (documentText elapsed lockWait done (statementTexts done)) sql done := by
  have hok : ∀ elements, (documentMembers elapsed lockWait done elements).lookup "ok".toList =
      some (.bool (!done.isEmpty && done.all Executed.ok)) := fun _ => rfl
  by_cases hnil : done = []
  · subst hnil
    have htext := @jsonText_document elapsed lockWait []
      [(errorValue "empty sql".toList, appendErrorJson "empty sql".toList)]
      (by simpa using jsonText_error _)
    exact ⟨_, htext, fun _ => ⟨_, [false], rfl, rfl, rfl, hok _, fun _ => ⟨_, rfl⟩, by simp⟩⟩
  · have hitems : ∀ p ∈ done.map fun x => (x.value, x.json), JsonText p.1 p.2 := by
      intro p hp
      obtain ⟨x, hx, rfl⟩ := List.mem_map.mp hp
      exact (hran x hx).jsonText (hfull x hx)
    have hempty : done.isEmpty = false := by simpa using hnil
    have htext := jsonText_document elapsed lockWait done hitems
    rw [List.map_map, List.map_map] at htext
    have htexts : done.map (Prod.snd ∘ fun x => (x.value, x.json)) = statementTexts done := by
      rw [statementTexts, if_neg (by simp [hempty])]
      rfl
    rw [htexts] at htext
    refine ⟨_, htext, fun _ => ⟨_, done.map Executed.ok, rfl, ?_, ?_, ?_, ?_, ?_⟩⟩
    · have hpos := List.length_pos_iff.mpr hnil
      rw [List.length_map]
      omega
    · rw [List.map_map, List.map_map]
      exact List.map_congr_left fun x hx => (hran x hx).field_ok
    · rw [hok, hempty]
      simp
    · exact fun h => absurd h hnil
    · intro i x v hx hv
      rw [List.getElem?_map, hx] at hv
      obtain rfl := Option.some.inj hv
      have hmem := hran x (List.mem_of_getElem? hx)
      refine ⟨hmem.field_ok, fun path rs hrows => ?_⟩
      dsimp only [Function.comp_apply]
      rw [hmem.value_rows hrows]
      exact ⟨rfl, rfl⟩

/-- With several statements and a missing element, the document is not JSON. -/
theorem not_isJson_statements (hran : ∀ x ∈ done, x.Ran) (hfull : ∃ x ∈ done, x.RangeFull)
    (hseveral : 2 ≤ done.length) :
    ¬ IsJson (documentText elapsed lockWait done (statementTexts done)) := by
  obtain ⟨x, hx, hfull⟩ := hfull
  have hempty : done.isEmpty = false := by
    simpa using List.ne_nil_of_mem hx
  rw [statementTexts, if_neg (by simp [hempty])]
  refine not_isJson_document elapsed lockWait done ?_ ?_ ?_
  · intro t ht
    obtain ⟨y, hy, rfl⟩ := List.mem_map.mp ht
    by_cases hy' : y.RangeFull
    · exact .inl ((hran y hy).json_eq_nil hy')
    · exact .inr ⟨_, (hran y hy).jsonText hy'⟩
  · exact List.mem_map.mpr ⟨x, hx, (hran x hx).json_eq_nil hfull⟩
  · rwa [List.length_map]

/-- With one statement and its element missing, there are no elements. -/
theorem jsonText_missing {x : Executed} (hran : x.Ran) (hfull : x.RangeFull) :
    JsonText (.obj (documentMembers elapsed lockWait [x] []))
      (documentText elapsed lockWait [x] (statementTexts [x])) := by
  have htext : documentText elapsed lockWait [x] (statementTexts [x]) =
      documentText elapsed lockWait [x] [] := by
    rw [statementTexts, if_neg (by simp), List.map_singleton, hran.json_eq_nil hfull]
    rfl
  rw [htext]
  exact @jsonText_document elapsed lockWait [x] [] (by simp)

/-- The document of a run with a missing element. -/
theorem not_describes_document (hran : ∀ x ∈ done, x.Ran) (hfull : ∃ x ∈ done, x.RangeFull)
    {sql : CStr} (hblank : isBlankSql sql = false) :
    ¬ Describes (documentText elapsed lockWait done (statementTexts done)) sql done := by
  rintro ⟨members, htext, helements⟩
  obtain ⟨elements, oks, hstatements, hlen, -⟩ := helements hblank
  rcases Nat.lt_or_ge 1 done.length with hseveral | hone
  · exact not_isJson_statements hran hfull hseveral ⟨_, htext⟩
  · obtain ⟨x, hx, hfull⟩ := hfull
    obtain ⟨y, rfl⟩ : ∃ y, done = [y] := by
      have hpos := List.length_pos_of_mem hx
      exact List.length_eq_one_iff.mp (by omega)
    obtain rfl := List.mem_singleton.mp hx
    have hmembers := Value.obj.inj (htext.unique (jsonText_missing (hran x hx) hfull))
    rw [hmembers] at hstatements
    have hnil : elements = [] := (Value.arr.inj (Option.some.inj hstatements)).symm
    rw [hnil] at hlen
    exact absurd hlen (by simp)

omit [CDouble] in
theorem splitNextStatement_blank (h : isBlankSql sql = true) (n : ℕ) :
    splitNextStatement n sql = none := by
  cases n with
  | zero => rfl
  | succ n =>
    have hdrop : sql.dropWhile isSpace = [] := List.dropWhile_eq_nil_iff.mpr (List.all_eq_true.mp h)
    rw [splitNextStatement, hdrop]

theorem executed_blank (h : isBlankSql sql = true) : executed mem stray e sql = [] := by
  rw [executed, execTrace, splitNextStatement_blank h]

/-- A blank text has no statements. -/
theorem engineExecJson_blank (h : isBlankSql sql = true) :
    engineExecJson mem stray elapsed lockWait e sql = appendErrorJson "empty sql".toList := by
  rw [engineExecJson, if_pos h]
  decide

/-- **The document is JSON, unless an element is missing among several.** -/
theorem isJson_engineExecJson_iff :
    IsJson (engineExecJson mem stray elapsed lockWait e sql) ↔
      (2 ≤ (executed mem stray e sql).length → ∀ x ∈ executed mem stray e sql, ¬ x.RangeFull) := by
  cases hblank : isBlankSql sql with
  | true =>
    rw [engineExecJson_blank hblank, executed_blank hblank]
    exact iff_of_true ⟨_, jsonText_error _⟩ (by simp)
  | false =>
    have hran := @executed_ran _ mem stray e sql
    rw [engineExecJson_eq hblank]
    generalize executed mem stray e sql = done at hran
    constructor
    · intro hjson hseveral x hx hfull
      exact not_isJson_statements hran ⟨x, hx, hfull⟩ hseveral hjson
    · intro h
      by_cases hfull : ∃ x ∈ done, x.RangeFull
      · obtain ⟨x, hx, hfull⟩ := hfull
        have hlen : ¬ 2 ≤ done.length := fun hseveral => h hseveral x hx hfull
        have hpos := List.length_pos_of_mem hx
        obtain ⟨y, rfl⟩ := List.length_eq_one_iff.mp (show done.length = 1 by omega)
        obtain rfl := List.mem_singleton.mp hx
        exact ⟨_, jsonText_missing (hran x hx) hfull⟩
      · obtain ⟨members, htext, -⟩ := @describes_document _ elapsed lockWait done hran
          (fun x hx hx' => hfull ⟨x, hx, hx'⟩) sql
        exact ⟨_, htext⟩

/-- **The document describes the statements, unless one of them is a `SELECT` whose array of row
numbers cannot grow.** -/
theorem engineExecJson_describes (mem : ℕ → Uninit) (stray : ℕ → Bool) (elapsed lockWait : ℕ)
    (e : Engine) (sql : CStr) :
    Describes (engineExecJson mem stray elapsed lockWait e sql) sql (executed mem stray e sql) ↔
      ∀ x ∈ executed mem stray e sql, ¬ x.RangeFull := by
  cases hblank : isBlankSql sql with
  | true =>
    rw [engineExecJson_blank hblank, executed_blank hblank]
    refine iff_of_true ⟨_, jsonText_error _, fun h => ?_⟩ (by simp)
    rw [hblank] at h
    exact absurd h (by simp)
  | false =>
    rw [engineExecJson_eq hblank]
    constructor
    · intro h x hx hfull
      exact not_describes_document executed_ran ⟨x, hx, hfull⟩ hblank h
    · intro h
      exact describes_document executed_ran h sql

/-! ## A range with every row of a large table -/

omit [CDouble]

theorem rangeFull_count {n : ℕ} (hcount : 2 ^ 30 = n) (hn : (n : ℤ) ≤ intMax) :
    RangeFull (ensureIndex (countEngine n).storage "t".toList)
      (countSelect ['1'] "2147483647".toList) := by
  obtain ⟨ids, tree, hids, htree, hindexes⟩ := (countTable hn).ensureIndex (by decide) (by decide)
  have hlen := length_hits_count hn hids hindexes
  have hrange : bptreeRange tree (min 1 intMax) (max 1 intMax) n =
      (hits tree (min 1 intMax) (max 1 intMax)).take n := bptreeRange_eq hindexes.sound (by decide) n
  refine ⟨⟨"id".toList, "BETWEEN".toList, ['1'], "2147483647".toList⟩, tree, min 1 intMax,
    max 1 intMax, by decide, htree, rfl, ?_⟩
  rw [hcount, hrange, List.length_take, hlen, min_self]

/-- **With 2^30 rows in the range, the first of two elements is missing.** -/
theorem engineExecJson_full :
    ¬ IsJson (@engineExecJson .whole (fun _ => .zero) (fun _ => false) 0 0 (countEngine (2 ^ 30))
      "SELECT * FROM t WHERE id BETWEEN 1 AND 2147483647; SELECT * FROM t".toList) := by
  have hn : ((2 ^ 30 : ℕ) : ℤ) ≤ intMax := by
    simp only [intMax]
    norm_num
  -- nothing below may compute the rows
  generalize hcount : 2 ^ 30 = n at hn ⊢
  generalize htext : "SELECT * FROM t WHERE id BETWEEN 1 AND 2147483647; SELECT * FROM t".toList = text
  have hdone : ∃ x y done, @executed .whole (fun _ => .zero) (fun _ => false) (countEngine n) text =
      x :: y :: done ∧ x.parsed = some (countSelect ['1'] "2147483647".toList) ∧
        x.before = countEngine n := by
    have hfirst : splitNextStatement (text.length + 1) text =
        some ("SELECT * FROM t WHERE id BETWEEN 1 AND 2147483647".toList, " SELECT * FROM t".toList) := by
      rw [← htext]
      decide +kernel
    have hsecond : splitNextStatement (" SELECT * FROM t".toList.length + 1)
        " SELECT * FROM t".toList = some ("SELECT * FROM t".toList, []) := by
      rfl
    have hparse : parseSql .zero "SELECT * FROM t WHERE id BETWEEN 1 AND 2147483647".toList =
        some (countSelect ['1'] "2147483647".toList) := by
      decide +kernel
    obtain ⟨m, hm⟩ : ∃ m, text.length = m + 1 := ⟨text.length - 1, by rw [← htext]; rfl⟩
    unfold executed
    rw [@execTrace_succ .whole _ _ _ _ _ _ _ _ hfirst, hm,
      @execTrace_succ .whole _ _ _ _ _ _ _ _ hsecond]
    exact ⟨_, _, _, rfl, hparse, rfl⟩
  obtain ⟨x, y, done, hdone, hparsed, hbefore⟩ := hdone
  have hblank : isBlankSql text = false := by
    rw [← htext]
    decide
  rw [@engineExecJson_eq .whole _ _ _ _ _ _ hblank, hdone]
  refine @not_isJson_statements .whole _ _ _ ?_ ⟨x, by simp, ?_⟩ (by simp)
  · rw [← hdone]
    exact @executed_ran .whole _ _ _ _
  · refine ⟨_, hparsed, by decide, ?_⟩
    rw [hbefore]
    exact rangeFull_count hcount hn

end MiniSql
