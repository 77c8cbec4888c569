import MiniSql.Tokens

/-!
# The parser

`parse_sql` of `parser.c`, a recursive descent over the token list. The list stands for
the `TokenList` from its position on: `peek` is the head, `advance` drops it. No helper
reports an error: each one stops where it is, and the half-filled `ParsedSQL` is the
result.

`WhereClause` arrays come from `realloc`, and so do `SetClause` arrays beyond their first
four entries, so the byte that `strncpy` leaves out at the end of a full array is whatever
the heap held. `Uninit` is that memory.

## Main definitions

* `Uninit` — the uninitialised bytes that end up inside the strings of a `ParsedSQL`.
* `parseWhere`, `parseCreate`, `parseInsert`, `parseSelect`, `parseDelete`, `parseUpdate`.
* `parseSql` — the entry point.
-/

namespace MiniSql
open CText

/-- What fresh heap memory holds in the last byte of each fixed array of the `i`-th
condition and of the `i`-th assignment, and behind the array of each. -/
structure Uninit where
  whereColumn : ℕ → Char
  whereOp : ℕ → Char
  whereValue : ℕ → Char
  whereValueTo : ℕ → Char
  behindWhere : ℕ → CStr
  setColumn : ℕ → Char
  setValue : ℕ → Char
  behindSet : ℕ → CStr

/-- Memory that happens to be all NUL bytes. -/
def Uninit.zero : Uninit :=
  ⟨fun _ => '\x00', fun _ => '\x00', fun _ => '\x00', fun _ => '\x00', fun _ => [],
    fun _ => '\x00', fun _ => '\x00', fun _ => []⟩

/-- `ieq`. -/
def ieq (a b : CStr) : Bool := equalsIgnoreCase a b

/-- `match` and `expect`: the tokens after the keyword, if the next token is the keyword. -/
def matchTok (kw : CStr) : List CStr → Option (List CStr)
  | t :: ts => if ieq t kw then some ts else none
  | [] => none

/-- A `match` or an `expect` whose result the caller does not look at. -/
def skipTok (kw : CStr) (ts : List CStr) : List CStr := (matchTok kw ts).getD ts

/-- The loop of `parse_ident_list`: the names read and the tokens left. -/
def identListLoop : List CStr → List CStr × List CStr
  | [] => ([], [])
  | t :: ts =>
    if t = [')'] then ([], t :: ts)
    else match ts with
      | s :: ts' =>
        if ieq s [','] then (t :: (identListLoop ts').1, (identListLoop ts').2)
        else ([t], s :: ts')
      | [] => ([t], [])

/-- `parse_ident_list`. A missing `)` is reported on stderr only. -/
def parseIdentList (ts : List CStr) : List CStr × List CStr :=
  let (names, rest) := identListLoop ts
  (names, skipTok [')'] rest)

/-- `is_select_stop_token`. -/
def isSelectStopToken (t : CStr) : Bool :=
  ieq t "FROM".toList || ieq t "WHERE".toList || ieq t "ORDER".toList ||
  ieq t "LIMIT".toList || t == [')'] || t == [';']

/-! ## WHERE -/

/-- The `i`-th `WhereClause`, as the strings read back from its arrays. -/
def whereClause (mem : Uninit) (i : ℕ) (col op val : CStr) : WhereClause :=
  let value := cField 256 val (mem.whereValue i) []
  let op' := cField 8 op (mem.whereOp i) value
  ⟨cField 64 col (mem.whereColumn i) op', op', value, []⟩

/-- The `i`-th `WhereClause` after a complete `BETWEEN low AND high`. -/
def betweenClause (mem : Uninit) (i : ℕ) (col low high : CStr) : WhereClause :=
  let valueTo := cField 256 high (mem.whereValueTo i) (mem.behindWhere i)
  ⟨cField 64 col (mem.whereColumn i) "BETWEEN".toList, "BETWEEN".toList,
    cField 256 low (mem.whereValue i) valueTo, valueTo⟩

/-- One turn of the loop of `parse_where` up to the connective: the condition stored,
whether the loop may go on, and the tokens left; `none` when a token is missing. -/
def readCondition (mem : Uninit) (i : ℕ) : List CStr → Option (WhereClause × Bool × List CStr)
  | col :: op :: val :: ts =>
    if ieq op "BETWEEN".toList then
      match ts with
      | andTok :: high :: ts' =>
        if ieq andTok "AND".toList then some (betweenClause mem i col val high, true, ts')
        else some (whereClause mem i col op val, false, ts')
      | _ => some (whereClause mem i col op val, false, [])
    else some (whereClause mem i col op val, true, ts)
  | _ => none

/-- The loop of `parse_where`: the conditions, the connectives and the tokens left. -/
def parseWhereLoop (mem : Uninit) :
    ℕ → List CStr → List WhereClause → List CStr → List WhereClause × List CStr × List CStr
  | 0, ts, ws, links => (ws, links, ts)
  | n + 1, ts, ws, links =>
    match readCondition mem ws.length ts with
    | none => (ws, links, [])
    | some (w, false, ts') => (ws ++ [w], links, ts')
    | some (w, true, []) => (ws ++ [w], links, [])
    | some (w, true, l :: ts') =>
      if ieq l "AND".toList || ieq l "OR".toList then
        parseWhereLoop mem n ts' (ws ++ [w])
          (links ++ [if ieq l "OR".toList then "OR".toList else "AND".toList])
      else (ws ++ [w], links, l :: ts')

/-- A connective with no condition after it is dropped again. -/
def trimLinks (ws : List WhereClause) (links : List CStr) : List CStr :=
  if links ≠ [] ∧ links.length + 1 ≠ ws.length then links.dropLast else links

/-- `where_logic`: the connective, when all agree. -/
def commonLogic : List CStr → CStr
  | [] => []
  | l :: ls => if ls.all (ieq l) then l else []

/-- `parse_where`, with the tokens left. -/
def parseWhere (mem : Uninit) (ts : List CStr) (sql : ParsedSQL) : ParsedSQL × List CStr :=
  let (ws, links, rest) := parseWhereLoop mem ts.length ts [] []
  let links := trimLinks ws links
  ({ sql with conds := ws, whereLinks := links, whereLogic := commonLogic links }, rest)

/-- `if (match(t, "WHERE")) parse_where(t, sql);` -/
def parseOptWhere (mem : Uninit) (ts : List CStr) (sql : ParsedSQL) : ParsedSQL × List CStr :=
  match matchTok "WHERE".toList ts with
  | some ts' => parseWhere mem ts' sql
  | none => (sql, ts)

/-! ## CREATE and INSERT -/

/-- The loop of `parse_create`: the names and types of the columns. -/
def colDefLoop : List CStr → List (CStr × CStr)
  | cname :: ctype :: ts =>
    if cname = [')'] then []
    else (cname, ctype) ::
      match ts with
      | s :: ts' => if ieq s [','] then colDefLoop ts' else []
      | [] => []
  | _ => []

/-- `snprintf(buf, 160, "%s %s", cname, ctype)`. -/
def colDefText (d : CStr × CStr) : CStr := (d.1 ++ ' ' :: d.2).take 159

/-- The columns a `CREATE` declares, from the tokens after its keyword. -/
def declaredColumns (ts : List CStr) : List (CStr × CStr) :=
  match matchTok "TABLE".toList ts with
  | some (_ :: ts') => ((matchTok ['('] ts').map colDefLoop).getD []
  | _ => []

/-- `parse_create`. -/
def parseCreate (ts : List CStr) (sql : ParsedSQL) : ParsedSQL :=
  let sql := { sql with type := .create }
  match matchTok "TABLE".toList ts with
  | none => sql
  | some [] => sql
  | some (name :: _) =>
    { sql with table := name.take 63, colDefs := (declaredColumns ts).map colDefText }

/-- `parse_insert`. -/
def parseInsert (ts : List CStr) (sql : ParsedSQL) : ParsedSQL :=
  let sql := { sql with type := .insert }
  match matchTok "INTO".toList ts with
  | none => sql
  | some [] => sql
  | some (name :: ts₁) =>
    let sql := { sql with table := name.take 63 }
    match matchTok ['('] ts₁ with
    | none => sql
    | some ts₂ =>
      let (cols, ts₃) := parseIdentList ts₂
      let sql := { sql with columns := cols }
      match (matchTok "VALUES".toList ts₃).bind (matchTok ['(']) with
      | none => sql
      | some ts₄ => { sql with values := (parseIdentList ts₄).1 }

/-! ## SELECT -/

/-- Append to a buffer of which `n` bytes can be used. -/
def bufAppend (n : ℕ) (buf s : CStr) : CStr := (buf ++ s).take n

/-- The tokens of a call up to its `)` or to a `;`, joined behind what the buffer holds. -/
def callArgs : List CStr → CStr → CStr × List CStr
  | [], buf => (buf, [])
  | t :: ts, buf =>
    if t = [')'] then (bufAppend 159 buf [')'], ts)
    else if t = [';'] then (buf, t :: ts)
    else callArgs ts (bufAppend 159 buf t)

/-- One column of the list: a name, or a call such as `COUNT(*)` joined into one string. -/
def selectColumn (first : CStr) : List CStr → CStr × List CStr
  | t :: ts =>
    if t = ['('] then callArgs ts (bufAppend 159 (first.take 159) ['('])
    else (first.take 159, t :: ts)
  | [] => (first.take 159, [])

/-- The loop over the columns of a `SELECT`. -/
def selectColumnsLoop : ℕ → List CStr → List CStr × List CStr
  | 0, ts => ([], ts)
  | _ + 1, [] => ([], [])
  | n + 1, first :: ts =>
    if isSelectStopToken first then ([], first :: ts)
    else
      let (col, ts₁) := selectColumn first ts
      match matchTok [','] ts₁ with
      | some ts₂ => (col :: (selectColumnsLoop n ts₂).1, (selectColumnsLoop n ts₂).2)
      | none => ([col], ts₁)

/-- `ORDER BY col [ASC|DESC]`. -/
def parseOrderBy (ts : List CStr) (sql : ParsedSQL) : ParsedSQL × List CStr :=
  match matchTok "ORDER".toList ts with
  | none => (sql, ts)
  | some ts₁ =>
    let ts₂ := skipTok "BY".toList ts₁
    let col := (ts₂.head?.getD []).take 63
    match matchTok "DESC".toList ts₂.tail with
    | some ts₃ => ({ sql with orderBy := some ⟨col, false⟩ }, ts₃)
    | none => ({ sql with orderBy := some ⟨col, true⟩ }, skipTok "ASC".toList ts₂.tail)

/-- `LIMIT n`. -/
def parseLimit (ts : List CStr) (sql : ParsedSQL) : ParsedSQL :=
  match matchTok "LIMIT".toList ts with
  | some (n :: _) => { sql with limit := atoi n }
  | _ => sql

/-- `parse_select`. -/
def parseSelect (mem : Uninit) (ts : List CStr) (sql : ParsedSQL) : ParsedSQL :=
  let (cols, ts₁) := selectColumnsLoop ts.length ts
  let sql := { sql with type := .select, columns := cols }
  match matchTok "FROM".toList ts₁ with
  | none => sql
  | some ts₂ =>
    let sql := { sql with table := (ts₂.head?.getD []).take 63 }
    let (sql, ts₃) := parseOptWhere mem ts₂.tail sql
    let (sql, ts₄) := parseOrderBy ts₃ sql
    parseLimit ts₄ sql

/-! ## DELETE and UPDATE -/

/-- `parse_delete`. -/
def parseDelete (mem : Uninit) (ts : List CStr) (sql : ParsedSQL) : ParsedSQL :=
  let sql := { sql with type := .delete }
  match matchTok "FROM".toList ts with
  | none => sql
  | some ts₁ =>
    (parseOptWhere mem ts₁.tail { sql with table := (ts₁.head?.getD []).take 63 }).1

/-- The `i`-th `SetClause`. The first four come from `calloc`. -/
def setClause (mem : Uninit) (i : ℕ) (col val : CStr) : SetClause :=
  let value := cField 256 val (if i < 4 then '\x00' else mem.setValue i) (mem.behindSet i)
  ⟨cField 64 col (if i < 4 then '\x00' else mem.setColumn i) value, value⟩

/-- The loop over the assignments of an `UPDATE`, from assignment `i` on. The token in
the place of `=` is not looked at. -/
def setLoop (mem : Uninit) (i : ℕ) : List CStr → List SetClause × List CStr
  | [] => ([], [])
  | col :: ts =>
    if ieq col "WHERE".toList || col == [';'] then ([], col :: ts)
    else match ts with
      | _ :: val :: ts' =>
        match ts' with
        | s :: ts'' =>
          if ieq s [','] then
            (setClause mem i col val :: (setLoop mem (i + 1) ts'').1, (setLoop mem (i + 1) ts'').2)
          else ([setClause mem i col val], s :: ts'')
        | [] => ([setClause mem i col val], [])
      | _ => ([], [])

/-- `parse_update`. -/
def parseUpdate (mem : Uninit) (ts : List CStr) (sql : ParsedSQL) : ParsedSQL :=
  let sql := { sql with type := .update, table := (ts.head?.getD []).take 63 }
  match matchTok "SET".toList ts.tail with
  | none => sql
  | some ts₁ =>
    let (sets, ts₂) := setLoop mem 0 ts₁
    (parseOptWhere mem ts₂ { sql with sets := sets }).1

/-! ## Entry point -/

/-- `parse_sql` on the tokens; `none` is the NULL result for an empty list. -/
def parseTokens (mem : Uninit) : List CStr → Option ParsedSQL
  | [] => none
  | kw :: ts =>
    some <|
      if ieq kw "CREATE".toList then parseCreate ts parsedNew
      else if ieq kw "INSERT".toList then parseInsert ts parsedNew
      else if ieq kw "SELECT".toList then parseSelect mem ts parsedNew
      else if ieq kw "DELETE".toList then parseDelete mem ts parsedNew
      else if ieq kw "UPDATE".toList then parseUpdate mem ts parsedNew
      else parsedNew

/-- `parse_sql`. -/
def parseSql (mem : Uninit) (input : CStr) : Option ParsedSQL :=
  parseTokens mem (tokenize input)

/-! ## What the later clauses leave alone -/

/-- The loop of `parse_where` only ever adds conditions. -/
theorem parseWhereLoop_prefix (mem : Uninit) (n : ℕ) (ts : List CStr) (ws : List WhereClause)
    (links : List CStr) : ws <+: (parseWhereLoop mem n ts ws links).1 := by
  induction n generalizing ts ws links with
  | zero => exact List.prefix_rfl
  | succ n ih =>
    rw [parseWhereLoop]
    split
    · exact List.prefix_rfl
    · exact List.prefix_append ..
    · exact List.prefix_append ..
    · split
      · exact (List.prefix_append ..).trans (ih ..)
      · exact List.prefix_append ..

@[simp] theorem parseOrderBy_conds (ts : List CStr) (sql : ParsedSQL) :
    (parseOrderBy ts sql).1.conds = sql.conds := by
  unfold parseOrderBy
  split
  · rfl
  · dsimp only
    split <;> rfl

@[simp] theorem parseLimit_conds (ts : List CStr) (sql : ParsedSQL) :
    (parseLimit ts sql).conds = sql.conds := by
  unfold parseLimit
  split <;> rfl

/-- The first name of a list is the token the list starts with. -/
theorem head?_identListLoop {t : CStr} {ts : List CStr} {v : CStr}
    (h : (identListLoop (t :: ts)).1.head? = some v) : v = t := by
  rw [identListLoop.eq_def] at h
  dsimp only at h
  split at h
  · simp at h
  · split at h
    · split at h <;> simpa [eq_comm] using h
    · simpa [eq_comm] using h

/-- A token that is not `)` and is followed by a comma is one more name. -/
theorem identListLoop_comma {t : CStr} (ht : t ≠ [')']) (ts : List CStr) :
    identListLoop (t :: [','] :: ts) = (t :: (identListLoop ts).1, (identListLoop ts).2) := by
  rw [identListLoop.eq_def]
  simp [ht, ieq]

/-! ## The kind of a statement -/

@[simp] theorem type_parseOptWhere (mem : Uninit) (ts : List CStr) (sql : ParsedSQL) :
    (parseOptWhere mem ts sql).1.type = sql.type := by
  unfold parseOptWhere
  split <;> rfl

@[simp] theorem type_parseOrderBy (ts : List CStr) (sql : ParsedSQL) :
    (parseOrderBy ts sql).1.type = sql.type := by
  unfold parseOrderBy
  split
  · rfl
  · dsimp only
    split <;> rfl

@[simp] theorem type_parseLimit (ts : List CStr) (sql : ParsedSQL) :
    (parseLimit ts sql).type = sql.type := by
  unfold parseLimit
  split <;> rfl

@[simp] theorem type_parseCreate (ts : List CStr) (sql : ParsedSQL) :
    (parseCreate ts sql).type = .create := by
  unfold parseCreate
  dsimp only
  split <;> rfl

@[simp] theorem type_parseInsert (ts : List CStr) (sql : ParsedSQL) :
    (parseInsert ts sql).type = .insert := by
  unfold parseInsert
  dsimp only
  split
  · rfl
  · rfl
  · split
    · rfl
    · split <;> rfl

@[simp] theorem type_parseSelect (mem : Uninit) (ts : List CStr) (sql : ParsedSQL) :
    (parseSelect mem ts sql).type = .select := by
  unfold parseSelect
  dsimp only
  split
  · rfl
  · simp

@[simp] theorem type_parseDelete (mem : Uninit) (ts : List CStr) (sql : ParsedSQL) :
    (parseDelete mem ts sql).type = .delete := by
  unfold parseDelete
  dsimp only
  split
  · rfl
  · simp

@[simp] theorem type_parseUpdate (mem : Uninit) (ts : List CStr) (sql : ParsedSQL) :
    (parseUpdate mem ts sql).type = .update := by
  unfold parseUpdate
  dsimp only
  split
  · rfl
  · simp

/-- Only `parse_create` makes a CREATE. -/
theorem eq_parseCreate_of_type {mem : Uninit} {tokens : List CStr} {sql : ParsedSQL}
    (h : parseTokens mem tokens = some sql) (htype : sql.type = .create) :
    sql = parseCreate tokens.tail parsedNew := by
  cases tokens with
  | nil => exact absurd h (by simp [parseTokens])
  | cons kw ts =>
    rw [parseTokens, Option.some.injEq] at h
    split_ifs at h <;> subst h <;> first | rfl | simp [parsedNew] at htype

/-! ## What the fields hold -/

theorem parseOptWhere_fields (mem : Uninit) (ts : List CStr) (sql : ParsedSQL) :
    ∃ conds links logic, (parseOptWhere mem ts sql).1 =
      { sql with conds := conds, whereLinks := links, whereLogic := logic } := by
  unfold parseOptWhere
  split <;> exact ⟨_, _, _, rfl⟩

theorem parseOrderBy_fields (ts : List CStr) (sql : ParsedSQL) :
    ∃ order, (parseOrderBy ts sql).1 = { sql with orderBy := order } := by
  unfold parseOrderBy
  split
  · exact ⟨_, rfl⟩
  · dsimp only
    split <;> exact ⟨_, rfl⟩

theorem parseLimit_fields (ts : List CStr) (sql : ParsedSQL) :
    ∃ limit, parseLimit ts sql = { sql with limit := limit } := by
  unfold parseLimit
  split <;> exact ⟨_, rfl⟩

theorem matchTok_subset {kw : CStr} {ts ts' : List CStr} (h : matchTok kw ts = some ts') :
    ts' ⊆ ts := by
  cases ts with
  | nil => exact absurd h (by simp [matchTok])
  | cons t ts =>
    rw [matchTok] at h
    split_ifs at h
    rw [← Option.some.inj h]
    exact List.subset_cons_self t ts

theorem identListLoop_subset (ts : List CStr) :
    (identListLoop ts).1 ⊆ ts ∧ (identListLoop ts).2 ⊆ ts := by
  fun_induction identListLoop ts with
  | case1 => simp
  | case2 => simp
  | case3 t ht s ts' hs ih =>
    exact ⟨List.cons_subset_cons t (List.subset_cons_of_subset s ih.1),
      List.subset_cons_of_subset t (List.subset_cons_of_subset s ih.2)⟩
  | case4 => simp
  | case5 => simp

theorem parseIdentList_subset (ts : List CStr) :
    (parseIdentList ts).1 ⊆ ts ∧ (parseIdentList ts).2 ⊆ ts := by
  obtain ⟨hnames, hrest⟩ := identListLoop_subset ts
  refine ⟨hnames, ?_⟩
  change skipTok [')'] (identListLoop ts).2 ⊆ ts
  unfold skipTok
  cases hskip : matchTok [')'] (identListLoop ts).2 with
  | none => exact hrest
  | some ts' => exact List.Subset.trans (matchTok_subset hskip) hrest

theorem setLoop_values (mem : Uninit) (i : ℕ) (ts : List CStr) :
    ∀ set ∈ (setLoop mem i ts).1, ∃ t ∈ ts, ∃ last behind, set.value = cField 256 t last behind := by
  fun_induction setLoop mem i ts with
  | case1 => simp
  | case2 => simp
  | case3 i col hend op val s ts'' hs ih =>
    intro set hset
    rcases List.mem_cons.mp hset with rfl | hset
    · exact ⟨val, by simp, _, _, rfl⟩
    · obtain ⟨t, ht, hval⟩ := ih set hset
      exact ⟨t, by simp [ht], hval⟩
  | case4 i col hend op val s ts'' hs =>
    intro set hset
    obtain rfl := List.mem_singleton.mp hset
    exact ⟨val, by simp, _, _, rfl⟩
  | case5 i col hend op val =>
    intro set hset
    obtain rfl := List.mem_singleton.mp hset
    exact ⟨val, by simp, _, _, rfl⟩
  | case6 => simp

/-- The name of the table fits, and the values are tokens or fields made of them. -/
structure ParsedSQL.From (ts : List CStr) (sql : ParsedSQL) : Prop where
  table : sql.table.length ≤ 63
  values : sql.values ⊆ ts
  sets : ∀ set ∈ sql.sets, ∃ t ∈ ts, ∃ last behind, set.value = cField 256 t last behind

theorem parseCreate_from (ts : List CStr) : (parseCreate ts parsedNew).From ts := by
  unfold parseCreate
  dsimp only
  split
  · exact ⟨by simp [parsedNew], by simp [parsedNew], by simp [parsedNew]⟩
  · exact ⟨by simp [parsedNew], by simp [parsedNew], by simp [parsedNew]⟩
  · exact ⟨List.length_take_le 63 _, by simp [parsedNew], by simp [parsedNew]⟩

theorem parseInsert_from (ts : List CStr) : (parseInsert ts parsedNew).From ts := by
  unfold parseInsert
  dsimp only
  split
  · exact ⟨by simp [parsedNew], by simp [parsedNew], by simp [parsedNew]⟩
  · exact ⟨by simp [parsedNew], by simp [parsedNew], by simp [parsedNew]⟩
  · rename_i name ts₁ hinto
    have h₁ : ts₁ ⊆ ts := List.Subset.trans (List.subset_cons_self name ts₁) (matchTok_subset hinto)
    split
    · exact ⟨List.length_take_le 63 _, by simp [parsedNew], by simp [parsedNew]⟩
    · rename_i ts₂ hopen
      have h₃ : (parseIdentList ts₂).2 ⊆ ts := List.Subset.trans (parseIdentList_subset ts₂).2
        (List.Subset.trans (matchTok_subset hopen) h₁)
      split
      · exact ⟨List.length_take_le 63 _, by simp [parsedNew], by simp [parsedNew]⟩
      · rename_i ts₄ hvalues
        obtain ⟨ts₅, hkw, hopen'⟩ := Option.bind_eq_some_iff.mp hvalues
        have h₄ : ts₄ ⊆ ts := List.Subset.trans (matchTok_subset hopen')
          (List.Subset.trans (matchTok_subset hkw) h₃)
        exact ⟨List.length_take_le 63 _, List.Subset.trans (parseIdentList_subset ts₄).1 h₄,
          by simp [parsedNew]⟩

theorem parseSelect_from (mem : Uninit) (ts : List CStr) : (parseSelect mem ts parsedNew).From ts := by
  unfold parseSelect
  dsimp only
  split
  · exact ⟨by simp [parsedNew], by simp [parsedNew], by simp [parsedNew]⟩
  · rename_i ts₂ hfrom
    obtain ⟨conds, links, logic, hwhere⟩ := parseOptWhere_fields mem ts₂.tail
      { parsedNew with
        type := .select, columns := (selectColumnsLoop ts.length ts).1,
        table := (ts₂.head?.getD []).take 63 }
    rw [hwhere]
    obtain ⟨order, horder⟩ := parseOrderBy_fields (parseOptWhere mem ts₂.tail
      { parsedNew with
        type := .select, columns := (selectColumnsLoop ts.length ts).1,
        table := (ts₂.head?.getD []).take 63 }).2
      { parsedNew with
        type := .select, columns := (selectColumnsLoop ts.length ts).1,
        table := (ts₂.head?.getD []).take 63, conds := conds, whereLinks := links,
        whereLogic := logic }
    rw [horder]
    obtain ⟨limit, hlimit⟩ := parseLimit_fields _ _
    rw [hlimit]
    exact ⟨List.length_take_le 63 _, by simp [parsedNew], by simp [parsedNew]⟩

theorem parseDelete_from (mem : Uninit) (ts : List CStr) : (parseDelete mem ts parsedNew).From ts := by
  unfold parseDelete
  dsimp only
  split
  · exact ⟨by simp [parsedNew], by simp [parsedNew], by simp [parsedNew]⟩
  · obtain ⟨conds, links, logic, hwhere⟩ := parseOptWhere_fields mem _ _
    rw [hwhere]
    exact ⟨List.length_take_le 63 _, by simp [parsedNew], by simp [parsedNew]⟩

theorem parseUpdate_from (mem : Uninit) (ts : List CStr) : (parseUpdate mem ts parsedNew).From ts := by
  unfold parseUpdate
  dsimp only
  split
  · exact ⟨List.length_take_le 63 _, by simp [parsedNew], by simp [parsedNew]⟩
  · rename_i ts₁ hset
    have hsets := setLoop_values mem 0 ts₁
    rcases hloop : setLoop mem 0 ts₁ with ⟨sets, ts₂⟩
    rw [hloop] at hsets
    obtain ⟨conds, links, logic, hwhere⟩ := parseOptWhere_fields mem ts₂ _
    rw [hwhere]
    refine ⟨List.length_take_le 63 _, by simp [parsedNew], fun set hmem => ?_⟩
    obtain ⟨t, ht, hval⟩ := hsets set hmem
    exact ⟨t, List.mem_of_mem_tail (matchTok_subset hset ht), hval⟩

/-- Where the fields of a parsed statement come from. -/
theorem parseSql_from {mem : Uninit} {input : CStr} {sql : ParsedSQL}
    (h : parseSql mem input = some sql) : sql.From (tokenize input) := by
  have hmore : ∀ {t : CStr} {ts : List CStr} {sql : ParsedSQL}, sql.From ts → sql.From (t :: ts) :=
    fun h => ⟨h.table, List.subset_cons_of_subset _ h.values, fun set hset => by
      obtain ⟨t, ht, hval⟩ := h.sets set hset
      exact ⟨t, List.mem_cons_of_mem _ ht, hval⟩⟩
  unfold parseSql at h
  cases htok : tokenize input with
  | nil => exact absurd (htok ▸ h) (by simp [parseTokens])
  | cons kw ts =>
    rw [htok, parseTokens, Option.some.injEq] at h
    rw [← h]
    split_ifs
    · exact hmore (parseCreate_from ts)
    · exact hmore (parseInsert_from ts)
    · exact hmore (parseSelect_from mem ts)
    · exact hmore (parseDelete_from mem ts)
    · exact hmore (parseUpdate_from mem ts)
    · exact ⟨by simp [parsedNew], by simp [parsedNew], by simp [parsedNew]⟩

/-- The values of a statement are C strings. -/
theorem nulFree_parseSql {mem : Uninit} {input : CStr} {sql : ParsedSQL} (hinput : NulFree input)
    (h : parseSql mem input = some sql) :
    (∀ v ∈ sql.values, NulFree v) ∧ ∀ set ∈ sql.sets, NulFree set.value := by
  have hfrom := parseSql_from h
  have htoken : ∀ t ∈ tokenize input, NulFree t :=
    fun t ht hmem => hinput (subset_of_mem_tokenize ht hmem)
  refine ⟨fun v hv => htoken v (hfrom.values hv), fun set hset => ?_⟩
  obtain ⟨t, ht, last, behind, hval⟩ := hfrom.sets set hset
  rw [hval]
  exact nulFree_cField (htoken t ht)

end MiniSql
