import Mathlib.Data.List.Sort
import MiniSql.Storage.Create
import MiniSql.Storage.Insert
import MiniSql.Storage.Rewrite
import MiniSql.Storage.Select
import MiniSql.Trie

/-!
# The engine

`engine_exec_sql` splits its input into statements, parses each and executes it. A `SELECT`
on `id` goes through the B+ tree, a prefix search in the dictionary through the trie, and
every other one reads the whole table. Locks, timings and the JSON text of a result are left
out: a result is an `Outcome`.

## Main definitions

* `Engine` — the storage and the trie.
* `executeSelect`, `executeStatement`.
* `splitNextStatement`, `engineExecSql`.
-/

namespace MiniSql
open CText

/-- The state of the process. -/
structure Engine where
  storage : Storage
  trie : Trie
  trieReady : Bool

/-- How the rows of a `SELECT` were found. -/
inductive SelectPath
  | range | point | trie | scan
  deriving DecidableEq, Repr

/-- What a statement returns: a status, rows, or nothing that means anything. -/
inductive Outcome
  | status (ok : Bool)
  | rows (path : SelectPath) (rows : RowSet)
  | overread
  deriving DecidableEq, Repr

def Outcome.ok : Outcome → Bool
  | .status ok => ok
  | .rows _ _ => true
  | .overread => false

def Outcome.ofStatus : Status → Outcome
  | .ok () => .status true
  | .error .failed => .status false
  | .error .overread => .overread

/-! ## Which way to go -/

/-- `parse_int_literal`. -/
def parseIntLiteral (input : CStr) : Option ℤ :=
  let trimmed := trimSpace (stripOptionalQuotes input 256)
  let r := strtol trimmed
  if trimmed = [] ∨ r.erange ∨ r.rest = trimmed ∨ r.rest.dropWhile isSpace ≠ [] ∨
      r.value < intMin ∨ intMax < r.value then none
  else some r.value

/-- `parse_between_bounds`. -/
def parseBetweenBounds (clause : WhereClause) : Option (ℤ × ℤ) :=
  match parseIntLiteral clause.value, parseIntLiteral clause.valueTo with
  | some from', some to' => some (if to' < from' then (to', from') else (from', to'))
  | _, _ => none

/-- `should_use_id_index`: the condition on `id`. -/
def shouldUseIdIndex (sql : ParsedSQL) : Option WhereClause :=
  match sql.conds with
  | [c] => if equalsIgnoreCase c.column "id".toList ∧ c.op = "=".toList then some c else none
  | _ => none

/-- `should_use_id_range`. -/
def shouldUseIdRange (sql : ParsedSQL) : Option WhereClause :=
  match sql.conds with
  | [c] =>
    if equalsIgnoreCase c.column "id".toList ∧ equalsIgnoreCase c.op "BETWEEN".toList then some c
    else none
  | _ => none

/-- `should_use_trie_prefix`: the prefix. -/
def shouldUseTriePrefix (sql : ParsedSQL) : Option CStr :=
  match sql.conds with
  | [c] =>
    let literal := stripOptionalQuotes c.value 256
    let pre := literal.dropLast
    if equalsIgnoreCase sql.table "dictionary".toList ∧ equalsIgnoreCase c.column "english".toList ∧
        c.op = "LIKE".toList ∧ 2 ≤ literal.length ∧ literal.getLast? = some '%' ∧
        pre.length < 256 ∧ '%' ∉ pre ∧ '_' ∉ pre ∧ isAsciiLowercaseWord pre
    then some pre else none
  | _ => none

/-! ## The trie -/

/-- `dictionary_schema_exists`. -/
def dictionarySchemaExists (st : Storage) : Bool :=
  st.pathExists (schemaPath .nested "dictionary".toList) ||
    st.pathExists (schemaPath .legacy "dictionary".toList)

/-- The statement that `dictionary_trie_rebuild_locked` reads the words with. -/
def dictionarySelect : ParsedSQL :=
  { parsedNew with type := .select, table := "dictionary".toList, columns := ["english".toList] }

/-- The statement that `engine_init` creates the dictionary with. -/
def dictionaryCreate : ParsedSQL :=
  { parsedNew with
    type := .create, table := "dictionary".toList,
    colDefs := ["id INT".toList, "english VARCHAR".toList, "korean VARCHAR".toList] }

example : parseSql .zero "SELECT english FROM dictionary;".toList = some dictionarySelect := by
  decide +kernel

example : parseSql .zero
    "CREATE TABLE dictionary (id INT, english VARCHAR, korean VARCHAR);".toList =
      some dictionaryCreate := by
  decide +kernel

variable [CDouble]

/-- `dictionary_trie_rebuild_locked`. -/
def dictionaryTrieRebuild (e : Engine) : Engine :=
  if dictionarySchemaExists e.storage = false then ⟨e.storage, trieCreate, false⟩
  else match storageSelectResult e.storage "dictionary".toList dictionarySelect with
    | (none, st) => ⟨st, trieCreate, false⟩
    | (some rs, st) =>
      match insertWords (rs.rows.map fun row => row.head?.getD []) 0 trieCreate with
      | none => ⟨st, trieCreate, false⟩
      | some trie => ⟨st, trie, true⟩

/-- `dictionary_trie_refresh_after_write`. -/
def refreshAfterWrite (e : Engine) (table : CStr) (status : Status) : Engine :=
  if status = .ok () ∧ equalsIgnoreCase table "dictionary".toList then dictionaryTrieRebuild e else e

/-! ## SELECT -/

/-- `DICTIONARY_TRIE_MAX_ROWS`. -/
def dictionaryTrieMaxRows : ℕ := 4096

/-- The calls of `bptree_range` with a growing array, from 16 rows on. From `INT_MAX / 2` on
the array does not grow any more. -/
def rangeRows (tree : BPTree) (from' to' : ℤ) : ℕ → ℕ → Option (List ℤ)
  | 0, _ => none
  | n + 1, capacity =>
    let rows := bptreeRange tree from' to' capacity
    if rows.length < capacity then some rows
    else if intMax / 2 < capacity then none
    else rangeRows tree from' to' n (capacity * 2)

/-- What a way to find rows returns: rows, `none` for going on, or the end of the statement. -/
abbrev Found := Except Unit (Option RowSet)

/-- The rows of `id BETWEEN`. -/
def selectRange (st : Storage) (sql : ParsedSQL) (clause : WhereClause) : Found × Storage :=
  match indexRegistryGet st sql.table, parseBetweenBounds clause with
  | some tree, some (from', to') =>
    match rangeRows tree from' to' 28 16 with
    | none => (.error (), st)
    | some indices =>
      let (rs, st) := storageSelectResultByRowIndices st sql.table sql indices
      (.ok rs, st)
  | _, _ => (.ok none, st)

/-- The rows of `id =`. -/
def selectPoint (st : Storage) (sql : ParsedSQL) (clause : WhereClause) :
    Option RowSet × Storage :=
  match indexRegistryGet st sql.table, parseIntLiteral clause.value with
  | some tree, some id => storageSelectResultByRowIndex st sql.table sql (bptreeSearch tree id)
  | _, _ => (none, st)

/-- The rows of a prefix. -/
def selectPrefix (e : Engine) (st : Storage) (sql : ParsedSQL) (pre : CStr) :
    Option RowSet × Storage :=
  let indices := trieSearchPrefix e.trie pre dictionaryTrieMaxRows
  if dictionaryTrieMaxRows ≤ indices.length then (none, st)
  else storageSelectResultByRowIndices st sql.table sql (indices.insertionSort (· ≤ ·))

/-- The part of `execute_select` that does not use the B+ tree. -/
def selectUnindexed (e : Engine) (st : Storage) (sql : ParsedSQL) : Outcome × Engine :=
  let (found, st) := match shouldUseTriePrefix sql with
    | some pre => if e.trieReady then selectPrefix e st sql pre else (none, st)
    | none => (none, st)
  match found with
  | some rs => (.rows .trie rs, { e with storage := st })
  | none =>
    match storageSelectResult st sql.table sql with
    | (some rs, st) => (.rows .scan rs, { e with storage := st })
    | (none, st) => (.status false, { e with storage := st })

/-- The answer of a scan. -/
def scanOutcome (e : Engine) (found : Option RowSet × Storage) : Outcome × Engine :=
  match found with
  | (some rs, st) => (.rows .scan rs, { e with storage := st })
  | (none, st) => (.status false, { e with storage := st })

/-- `execute_select`. -/
def executeSelect (e : Engine) (sql : ParsedSQL) : Outcome × Engine :=
  let st := ensureIndex e.storage sql.table
  match shouldUseIdRange sql, shouldUseIdIndex sql with
  | some clause, _ =>
    match selectRange st sql clause with
    | (.error (), st) => (.status false, { e with storage := st })
    | (.ok (some rs), st) => (.rows .range rs, { e with storage := st })
    | (.ok none, st) => selectUnindexed e st sql
  | none, some clause =>
    match selectPoint st sql clause with
    | (some rs, st) => (.rows .point rs, { e with storage := st })
    | (none, st) => selectUnindexed e st sql
  | none, none => selectUnindexed e st sql

/-! ## Statements -/

/-- A statement that writes, and the trie after it. -/
def executeWrite (e : Engine) (table : CStr) (result : Status × Storage) : Outcome × Engine :=
  (.ofStatus result.1, refreshAfterWrite { e with storage := result.2 } table result.1)

/-- `execute_statement`. -/
def executeStatement (e : Engine) (sql : ParsedSQL) : Outcome × Engine :=
  match sql.type with
  | .select => executeSelect e sql
  | .create => executeWrite e sql.table (storageCreate e.storage sql.table sql.colDefs)
  | .insert => executeWrite e sql.table (storageInsert e.storage sql.table sql.columns sql.values)
  | .delete => executeWrite e sql.table (storageDelete e.storage sql.table sql)
  | .update => executeWrite e sql.table (storageUpdate e.storage sql.table sql)
  | .unknown => (.status false, e)

/-! ## The input -/

omit [CDouble] in
/-- The text of a statement up to a `;` outside quotes, and what follows the text. -/
def splitLoop : Option Char → CStr → CStr × CStr
  | _, [] => ([], [])
  | some q, c :: s =>
    let (text, rest) := splitLoop (if c = q then none else some q) s
    (c :: text, rest)
  | none, c :: s =>
    if c = ';' then ([], c :: s)
    else
      let (text, rest) := splitLoop (if c = '\'' ∨ c = '"' then some c else none) s
      (c :: text, rest)

omit [CDouble] in
/-- `split_next_statement`, with the length of the input as fuel: the statement and the text
after it, `none` at the end. -/
def splitNextStatement : ℕ → CStr → Option (CStr × CStr)
  | 0, _ => none
  | n + 1, cursor =>
    match cursor.dropWhile isSpace with
    | [] => none
    | c :: s =>
      let (text, rest) := splitLoop none (c :: s)
      if trimSpace text = [] then splitNextStatement n rest.tail
      else some (trimSpace text, rest.tail)

/-- The result of one statement of the input. -/
def execOne (e : Engine) (mem : Uninit) (stmt : CStr) : Outcome × Engine :=
  match parseSql mem stmt with
  | none => (.status false, e)
  | some sql => executeStatement e sql

/-- The loop of `engine_exec_sql`, with the length of the input as fuel. `mem i` is what heap
memory holds when the `i`-th statement is parsed. -/
def execLoop (mem : ℕ → Uninit) : ℕ → ℕ → Engine → CStr → List Outcome × Engine
  | 0, _, e, _ => ([], e)
  | n + 1, i, e, cursor =>
    match splitNextStatement (cursor.length + 1) cursor with
    | none => ([], e)
    | some (stmt, rest) =>
      let (outcome, e) := execOne e (mem i) stmt
      let (outcomes, e) := execLoop mem n (i + 1) e rest
      (outcome :: outcomes, e)

/-- `engine_exec_sql`: whether all is well, and what each statement returns. An empty input is
an error. -/
def engineExecSql (mem : ℕ → Uninit) (e : Engine) (sql : CStr) : Bool × List Outcome × Engine :=
  let (outcomes, e) := execLoop mem (sql.length + 1) 0 e sql
  (outcomes ≠ [] && outcomes.all Outcome.ok, outcomes, e)

/-- `engine_init` of a process on the given files. A missing dictionary is created. -/
def engineInit (files : Path → Option CStr) : Engine :=
  let e : Engine := ⟨.start files, trieCreate, false⟩
  if dictionarySchemaExists e.storage then dictionaryTrieRebuild e
  else (executeStatement e dictionaryCreate).2

end MiniSql
