import MiniSql.Lib.Json
import MiniSql.Engine

/-!
# The JSON document of `engine_exec_sql`

The text that `engine_exec_sql` puts together from the results of the statements. Allocation
succeeds. The two times are given in thousandths of a millisecond, as `%.3f` rounds them. An
`INSERT` that reads outside of its arrays has no defined result; whatever it returns is given, too.

## Main definitions

* `jbAppendJsonString`, `appendRowsetJson`, `appendStatusJson`, `appendErrorJson`.
* `Executed`, `execTrace` — the statements of a text, each with its outcome.
* `engineExecJson` — the document.

## Main results

* `jsonText_string` — a string is read back, whatever its bytes are.
* `jsonText_rowset` — so are the columns and the cells of a result.
-/

namespace MiniSql
open CText

/-! ## Strings -/

/-- The digits of `%04x`. -/
def hex4 (n : ℕ) : CStr :=
  [Nat.digitChar (n / 4096 % 16), Nat.digitChar (n / 256 % 16), Nat.digitChar (n / 16 % 16),
    Nat.digitChar (n % 16)]

/-- One byte in the loop of `jb_append_json_string`. -/
def jsonByte (c : Char) : CStr :=
  match c with
  | '"' => "\\\"".toList
  | '\\' => "\\\\".toList
  | '\n' => "\\n".toList
  | '\r' => "\\r".toList
  | '\t' => "\\t".toList
  | c => if c.toNat < 0x20 then "\\u".toList ++ hex4 c.toNat else [c]

/-- `jb_append_json_string`. -/
def jbAppendJsonString (s : CStr) : CStr := '"' :: (s.flatMap jsonByte ++ ['"'])

def boolText (b : Bool) : CStr := if b then "true".toList else "false".toList

/-- `%.3f` of a number of thousandths. -/
def fixed3 (n : ℕ) : CStr :=
  intText (n / 1000) ++ '.' :: [Nat.digitChar (n / 100 % 10), Nat.digitChar (n / 10 % 10),
    Nat.digitChar (n % 10)]

/-- A loop that appends a comma before all texts but the first one. -/
def commaLoop : Bool → List CStr → CStr
  | _, [] => []
  | first, text :: texts => (if first then [] else [',']) ++ text ++ commaLoop false texts

/-! ## The results of statements -/

/-- `query_type_name`. -/
def queryTypeName : QueryType → CStr
  | .select => "SELECT".toList
  | .insert => "INSERT".toList
  | .delete => "DELETE".toList
  | .update => "UPDATE".toList
  | .create => "CREATE".toList
  | .unknown => "UNKNOWN".toList

/-- `append_rowset_json`. -/
def appendRowsetJson (rs : RowSet) : CStr :=
  "\x7b\"ok\":true,\"type\":\"SELECT\",\"columns\":[".toList ++
    commaLoop true (rs.colNames.map jbAppendJsonString) ++ "],\"rows\":[".toList ++
    commaLoop true (rs.rows.map fun row => '[' :: (commaLoop true (row.map jbAppendJsonString) ++ [']'])) ++
    "],\"row_count\":".toList ++ intText rs.rows.length ++ ['}']

/-- `append_status_json`. -/
def appendStatusJson (sql : ParsedSQL) (ok : Bool) (action : CStr) : CStr :=
  "\x7b\"ok\":".toList ++ boolText ok ++ ",\"type\":".toList ++
    jbAppendJsonString (queryTypeName sql.type) ++ ",\"table\":".toList ++
    jbAppendJsonString sql.table ++ ",\"action\":".toList ++ jbAppendJsonString action ++
    (if ok then [] else ",\"error\":\"storage operation failed\"".toList) ++ ['}']

/-- `append_error_json`. -/
def appendErrorJson (message : CStr) : CStr :=
  "\x7b\"ok\":false,\"error\":".toList ++ jbAppendJsonString message ++ ['}']

/-- A statement that was executed: the engine before it, what the parser made of it, its outcome,
and whether it returned 0. -/
structure Executed where
  before : Engine
  parsed : Option ParsedSQL
  outcome : Outcome
  ok : Bool

namespace Executed

/-- What the statement appends. A `SELECT` whose array of row numbers cannot grow appends nothing. -/
def json [CDouble] (x : Executed) : CStr :=
  match x.parsed with
  | none => appendErrorJson "parse error or unsupported query".toList
  | some sql =>
    match sql.type with
    | .select =>
      match x.outcome with
      | .rows _ rs => appendRowsetJson rs
      | _ =>
        match shouldUseIdRange sql with
        | some clause =>
          match selectRange (ensureIndex x.before.storage sql.table) sql clause with
          | (.error (), _) => []
          | _ => appendStatusJson sql false "select".toList
        | none => appendStatusJson sql false "select".toList
    | .create => appendStatusJson sql x.ok "create".toList
    | .insert => appendStatusJson sql x.ok "insert".toList
    | .delete => appendStatusJson sql x.ok "delete".toList
    | .update => appendStatusJson sql x.ok "update".toList
    | .unknown => appendErrorJson "parse error or unsupported query".toList

/-- `out_index_used`. -/
def indexUsed (x : Executed) : Bool :=
  match x.outcome with
  | .rows .scan _ => false
  | .rows _ _ => true
  | _ => false

/-- `out_nodes_visited`. -/
def nodesVisited (x : Executed) : ℕ :=
  match x.outcome with
  | .rows .range _ => 1
  | .rows .point _ => 1
  | .rows .trie _ => ((x.parsed.bind shouldUseTriePrefix).map List.length).getD 0
  | _ => 0

end Executed

/-! ## The document -/

variable [CDouble]

/-- Whether a statement returns 0; `stray` is what it returns when it reads outside of its
arrays. -/
def Outcome.returnsZero (stray : Bool) : Outcome → Bool
  | .overread => stray
  | outcome => outcome.ok

/-- The statements of a text, as `execLoop` runs them. -/
def execTrace (mem : ℕ → Uninit) (stray : ℕ → Bool) : ℕ → ℕ → Engine → CStr → List Executed
  | 0, _, _, _ => []
  | n + 1, i, e, cursor =>
    match splitNextStatement (cursor.length + 1) cursor with
    | none => []
    | some (stmt, rest) =>
      let (outcome, e') := execOne e (mem i) stmt
      ⟨e, parseSql (mem i) stmt, outcome, outcome.returnsZero (stray i)⟩ ::
        execTrace mem stray n (i + 1) e' rest

/-- The statements of a text. -/
def executed (mem : ℕ → Uninit) (stray : ℕ → Bool) (e : Engine) (sql : CStr) : List Executed :=
  execTrace mem stray (sql.length + 1) 0 e sql

/-- `nodes_visited`: the largest one of a statement. -/
def maxNodesVisited (done : List Executed) : ℕ := (done.map Executed.nodesVisited).foldl max 0

/-- `is_blank_sql`. -/
def isBlankSql (sql : CStr) : Bool := sql.all isSpace

/-- The `json` of `engine_exec_sql`. -/
def engineExecJson (mem : ℕ → Uninit) (stray : ℕ → Bool) (elapsed lockWait : ℕ) (e : Engine)
    (sql : CStr) : CStr :=
  if isBlankSql sql then "\x7b\"ok\":false,\"error\":\"empty sql\"\x7d".toList
  else
    let done := executed mem stray e sql
    "\x7b\"statements\":[".toList ++ commaLoop true (done.map Executed.json) ++
      (if done.isEmpty then appendErrorJson "empty sql".toList else []) ++
      "],\"ok\":".toList ++ boolText (!done.isEmpty && done.all Executed.ok) ++
      ",\"statement_count\":".toList ++ intText done.length ++
      ",\"index_used\":".toList ++ boolText (done.any Executed.indexUsed) ++
      ",\"nodes_visited\":".toList ++ intText (maxNodesVisited done) ++
      ",\"elapsed_ms\":".toList ++ fixed3 elapsed ++ ",\"lock_wait_ms\":".toList ++
      fixed3 lockWait ++ ['}']

/-! ## What the texts say -/

open Json

omit [CDouble] in
theorem commaLoop_false (text : CStr) (texts : List CStr) :
    commaLoop false (text :: texts) = ',' :: commaSep (text :: texts) := by
  induction texts generalizing text with
  | nil => simp [commaLoop, commaSep]
  | cons u texts ih =>
    rw [commaLoop, ih, commaSep]
    simp

omit [CDouble] in
theorem commaLoop_true (texts : List CStr) : commaLoop true texts = commaSep texts := by
  cases texts with
  | nil => rfl
  | cons text texts =>
    cases texts with
    | nil => simp [commaLoop, commaSep]
    | cons u texts =>
      rw [commaLoop, commaLoop_false, commaSep]
      simp

/-- How a byte is written. -/
def byteItem (c : Char) : Item :=
  if c.toNat < 0x20 ∧ c ≠ '\n' ∧ c ≠ '\r' ∧ c ≠ '\t' then .unit c.toNat else .char c

omit [CDouble] in
theorem unitOf_hex4 : ∀ n < 0x20, unitOf (Nat.digitChar (n / 4096 % 16))
    (Nat.digitChar (n / 256 % 16)) (Nat.digitChar (n / 16 % 16)) (Nat.digitChar (n % 16)) = some n := by
  decide

omit [CDouble] in
theorem itemText_jsonByte (c : Char) : ItemText (byteItem c) (jsonByte c) := by
  unfold jsonByte
  split
  · exact .escape (e := '"') (by decide)
  · exact .escape (e := '\\') (by decide)
  · exact .escape (e := 'n') (by decide)
  · exact .escape (e := 'r') (by decide)
  · exact .escape (e := 't') (by decide)
  · rename_i hquote hslash hnl hcr htab
    by_cases hlow : c.toNat < 0x20
    · rw [byteItem, if_pos ⟨hlow, hnl, hcr, htab⟩, if_pos hlow]
      exact .unit (unitOf_hex4 c.toNat hlow)
    · rw [byteItem, if_neg (fun h => hlow h.1), if_neg hlow]
      exact .raw (Char.le_def.mpr (not_lt.mp hlow)) hquote hslash

omit [CDouble] in
/-- A string of such items is the bytes. -/
theorem decode_byteItem (s : CStr) : decode (s.map byteItem) = s := by
  induction s with
  | nil => rfl
  | cons c s ih =>
    rw [List.map_cons]
    by_cases hlow : c.toNat < 0x20 ∧ c ≠ '\n' ∧ c ≠ '\r' ∧ c ≠ '\t'
    · have hutf : utf8 c.toNat = [c] := by
        rw [utf8, if_pos (by omega), Char.ofNat_toNat]
      have hunit : decode (.unit c.toNat :: s.map byteItem) = utf8 c.toNat ++ decode (s.map byteItem) := by
        cases hrest : s.map byteItem with
        | nil => rfl
        | cons item items =>
          cases item with
          | char d => rfl
          | unit v => rw [decode, if_neg (by omega)]
      rw [byteItem, if_pos hlow, hunit, hutf, ih]
      rfl
    · rw [byteItem, if_neg hlow, decode, ih]

omit [CDouble] in
/-- **A string is written so that it is read back, whatever its bytes are.** -/
theorem jsonText_string (s : CStr) : JsonText (.str s) (jbAppendJsonString s) := by
  have hitems : ∀ p ∈ s.map fun c => (byteItem c, jsonByte c), ItemText p.1 p.2 := by
    intro p hp
    obtain ⟨c, -, rfl⟩ := List.mem_map.mp hp
    exact itemText_jsonByte c
  have hstr := JsonText.str hitems
  rw [List.map_map, List.map_map] at hstr
  have hvalue : decode (s.map (Prod.fst ∘ fun c => (byteItem c, jsonByte c))) = s := decode_byteItem s
  rw [hvalue] at hstr
  exact hstr

omit [CDouble] in
theorem jsonText_bool (b : Bool) : JsonText (.bool b) (boolText b) := by
  cases b
  · exact .litFalse
  · exact .litTrue

/-! ### Numbers -/

omit [CDouble] in
theorem digitChar_spec : ∀ n < 10, (Nat.digitChar n).isDigit = true ∧ (0 < n → Nat.digitChar n ≠ '0') := by
  decide

omit [CDouble] in
/-- No zero in front. -/
theorem head?_toDigits {n : ℕ} (hn : 0 < n) : (Nat.toDigits 10 n).head? ≠ some '0' := by
  induction n using Nat.strong_induction_on with
  | _ n ih =>
    by_cases hsmall : n < 10
    · rw [Nat.toDigits_of_lt_base hsmall]
      simpa using (digitChar_spec n hsmall).2 hn
    · have hquot := ih (n / 10) (by omega) (by omega)
      rw [Nat.toDigits_of_base_le (by decide) (by omega)]
      cases hdigits : Nat.toDigits 10 (n / 10) with
      | nil => exact absurd hdigits Nat.toDigits_ne_nil
      | cons c s => simpa [hdigits] using hquot

omit [CDouble] in
theorem isInt_toDigits (n : ℕ) : isInt (Nat.toDigits 10 n) = true := by
  rcases Nat.eq_zero_or_pos n with rfl | hpos
  · decide
  · simp [isInt, head?_toDigits hpos]

omit [CDouble] in
theorem intText_natCast (n : ℕ) : intText n = Nat.toDigits 10 n := by
  rw [intText, if_neg (by omega), Int.natAbs_natCast]

omit [CDouble] in
theorem jsonText_nat (n : ℕ) : JsonText (.num (intText n)) (intText n) := by
  refine .num ?_
  rw [intText_natCast, ← List.append_nil (Nat.toDigits 10 n)]
  exact isNumber_append (fun c => isDigit_of_mem_toDigits) (isInt_toDigits n) rfl (by simp)

omit [CDouble] in
theorem jsonText_fixed3 (n : ℕ) : JsonText (.num (fixed3 n)) (fixed3 n) := by
  refine .num ?_
  have hcast : ((n : ℤ) / 1000) = ((n / 1000 : ℕ) : ℤ) := by norm_cast
  have h₁ := (digitChar_spec (n / 100 % 10) (Nat.mod_lt _ (by decide))).1
  have h₂ := (digitChar_spec (n / 10 % 10) (Nat.mod_lt _ (by decide))).1
  have h₃ := (digitChar_spec (n % 10) (Nat.mod_lt _ (by decide))).1
  rw [fixed3, hcast, intText_natCast]
  refine isNumber_append (fun c => isDigit_of_mem_toDigits) (isInt_toDigits _) ?_ ?_
  · simp [isFracExp, isExp, h₁, h₂, h₃]
  · intro c hc
    rw [← Option.some.inj hc]
    decide

/-! ### The results of statements -/

def errorValue (message : CStr) : Value :=
  .obj [("ok".toList, .bool false), ("error".toList, .str message)]

def statusValue (sql : ParsedSQL) (ok : Bool) (action : CStr) : Value :=
  .obj ([("ok".toList, .bool ok), ("type".toList, .str (queryTypeName sql.type)),
    ("table".toList, .str sql.table), ("action".toList, .str action)] ++
      if ok then [] else [("error".toList, .str "storage operation failed".toList)])

def rowsetValue (rs : RowSet) : Value :=
  .obj [("ok".toList, .bool true), ("type".toList, .str "SELECT".toList),
    ("columns".toList, .arr (rs.colNames.map .str)),
    ("rows".toList, .arr (rs.rows.map fun row => .arr (row.map .str))),
    ("row_count".toList, .num (intText rs.rows.length))]

omit [CDouble] in
theorem jsonText_error (message : CStr) : JsonText (errorValue message) (appendErrorJson message) := by
  have hobj := @jsonText_obj [("ok".toList, .bool false, boolText false),
    ("error".toList, .str message, jbAppendJsonString message)] (by simp)
    ⟨by decide, jsonText_bool false, by decide, jsonText_string message, trivial⟩
  have htext : appendErrorJson message = objText [("ok".toList, boolText false),
      ("error".toList, jbAppendJsonString message)] := by
    unfold appendErrorJson
    generalize jbAppendJsonString message = text
    simp [objText, commaSep, boolText]
  rw [htext]
  exact hobj

omit [CDouble] in
theorem jsonText_status (sql : ParsedSQL) (ok : Bool) (action : CStr) :
    JsonText (statusValue sql ok action) (appendStatusJson sql ok action) := by
  have hmembers : MembersOk [("ok".toList, .bool ok, boolText ok),
      ("type".toList, .str (queryTypeName sql.type), jbAppendJsonString (queryTypeName sql.type)),
      ("table".toList, .str sql.table, jbAppendJsonString sql.table),
      ("action".toList, .str action, jbAppendJsonString action)] :=
    ⟨by decide, jsonText_bool ok, by decide, jsonText_string _, by decide, jsonText_string _,
      by decide, jsonText_string _, trivial⟩
  have herror : MembersOk [("error".toList, .str "storage operation failed".toList,
      "\"storage operation failed\"".toList)] :=
    ⟨by decide, jsonText_plain (s := "storage operation failed".toList) (by decide), trivial⟩
  cases ok with
  | true =>
    have hobj := jsonText_obj (by simp) hmembers
    have htext : appendStatusJson sql true action = objText [("ok".toList, boolText true),
        ("type".toList, jbAppendJsonString (queryTypeName sql.type)),
        ("table".toList, jbAppendJsonString sql.table),
        ("action".toList, jbAppendJsonString action)] := by
      unfold appendStatusJson
      generalize jbAppendJsonString (queryTypeName sql.type) = type
      generalize jbAppendJsonString sql.table = table
      generalize jbAppendJsonString action = name
      simp [objText, commaSep]
    rw [htext]
    exact hobj
  | false =>
    have hobj := jsonText_obj (by simp) (hmembers.append herror)
    have htext : appendStatusJson sql false action = objText [("ok".toList, boolText false),
        ("type".toList, jbAppendJsonString (queryTypeName sql.type)),
        ("table".toList, jbAppendJsonString sql.table),
        ("action".toList, jbAppendJsonString action),
        ("error".toList, "\"storage operation failed\"".toList)] := by
      unfold appendStatusJson
      generalize jbAppendJsonString (queryTypeName sql.type) = type
      generalize jbAppendJsonString sql.table = table
      generalize jbAppendJsonString action = name
      simp [objText, commaSep]
    rw [htext]
    exact hobj

omit [CDouble] in
theorem jsonText_strings (cells : List CStr) :
    JsonText (.arr (cells.map .str)) (arrText (cells.map jbAppendJsonString)) := by
  have harr := @jsonText_arr (cells.map fun cell => (.str cell, jbAppendJsonString cell)) (by
    intro p hp
    obtain ⟨cell, -, rfl⟩ := List.mem_map.mp hp
    exact jsonText_string cell)
  rw [List.map_map, List.map_map] at harr
  exact harr

omit [CDouble] in
/-- **The columns and the cells of the result are in the text.** -/
theorem jsonText_rowset (rs : RowSet) : JsonText (rowsetValue rs) (appendRowsetJson rs) := by
  have hrows := @jsonText_arr
    (rs.rows.map fun row => (.arr (row.map .str), arrText (row.map jbAppendJsonString))) (by
      intro p hp
      obtain ⟨row, -, rfl⟩ := List.mem_map.mp hp
      exact jsonText_strings row)
  rw [List.map_map, List.map_map] at hrows
  have hobj := @jsonText_obj [("ok".toList, .bool true, boolText true),
    ("type".toList, .str "SELECT".toList, "\"SELECT\"".toList),
    ("columns".toList, _, _), ("rows".toList, _, _),
    ("row_count".toList, .num (intText rs.rows.length), intText rs.rows.length)] (by simp)
    ⟨by decide, jsonText_bool true, by decide, jsonText_plain (s := "SELECT".toList) (by decide),
      by decide, jsonText_strings rs.colNames, by decide, hrows, by decide, jsonText_nat _, trivial⟩
  have htext : appendRowsetJson rs = objText [("ok".toList, boolText true),
      ("type".toList, "\"SELECT\"".toList),
      ("columns".toList, arrText (rs.colNames.map jbAppendJsonString)),
      ("rows".toList, arrText (rs.rows.map fun row => arrText (row.map jbAppendJsonString))),
      ("row_count".toList, intText rs.rows.length)] := by
    unfold appendRowsetJson
    simp only [commaLoop_true]
    unfold arrText
    generalize commaSep (rs.colNames.map jbAppendJsonString) = columns
    generalize commaSep (rs.rows.map _) = rows
    simp [objText, commaSep, boolText]
  rw [htext]
  exact hobj

end MiniSql
