import MiniSql.Lib.Simulation
import MiniSql.Engine
import MiniSql.Storage.InsertAtomic
import MiniSql.Storage.Matching

/-!
# What the database is for

A table, to those who use it, is a list of columns and a list of rows. An INSERT puts one row
behind the others, a DELETE takes the rows that meet its conditions away, an UPDATE changes them,
and a SELECT asks for them. There is no file here, no cache, no index and no trie. The one thing a
table does not know itself is the id of a row that comes without one; it is told with the statement.

## Main definitions

* `Table`, `Answer` — the rows of a table, and what a statement returns.
* `Table.insert`, `Table.delete`, `Table.update`, `Table.create`, `Table.select` — the statements.
* `Database.exec` — the machine of all tables, each on its own.

## Main results

* `Table.exec_congr` — a statement that gives its id, or needs none, does not ask for one.
-/

namespace MiniSql
open CText

/-- A table: its columns, where it was declared, and its rows, where it has any place for them. -/
structure Table where
  schema : Option (List ColDef)
  rows : Option (List Row)
  deriving DecidableEq, Repr

/-- What a statement returns to its user. -/
inductive Answer
  | ok | failed | undefined
  | rows (rows : RowSet)
  deriving DecidableEq, Repr

/-- The answer in what the engine returns. How rows were found is left out. -/
def Outcome.answer : Outcome → Answer
  | .status true => .ok
  | .status false => .failed
  | .rows _ rs => .rows rs
  | .overread => .undefined

/-- The columns and rows of a table whose rows are as wide as it has columns. -/
def Table.read (t : Table) : Option (List ColDef × List Row) :=
  t.schema.bind fun schema => t.rows.bind fun rows =>
    if rows.all (·.length = schema.length) then some (schema, rows) else none

/-! ## Inserting -/

/-- The row of an INSERT, and whether its id can be read. `auto` is the id of a row without one. -/
def newRow (schema : List ColDef) (auto : Option ℤ) (columns values : List CStr) :
    Except Fault (Row × Bool) :=
  match findSchemaIndex schema "id".toList with
  | none => (buildRowInSchemaOrder schema columns values).map fun row => (row, true)
  | some idCol =>
    match if columns = [] then .ok true else userHasId values.length columns with
    | .error e => .error e
    | .ok true =>
      (buildRowInSchemaOrder schema columns values).map fun row =>
        (row, (explicitId (row[idCol]?.getD [])).isSome)
    | .ok false =>
      match auto with
      | none => .error .failed
      | some id =>
        (buildRowInSchemaOrder schema ("id".toList :: columns) (intText id :: values)).map fun row =>
          (row, true)

/-- An INSERT puts its row behind the others, also where it then complains about the id. -/
def Table.insert (t : Table) (auto : Option ℤ) (columns values : List CStr) : Answer × Table :=
  if values = [] then (.failed, t)
  else match t.schema with
    | none => (.failed, t)
    | some schema =>
      match newRow schema auto columns values with
      | .error .failed => (.failed, t)
      | .error .overread => (.undefined, t)
      | .ok (row, readable) =>
        (if readable then .ok else .failed, { t with rows := some (t.rows.getD [] ++ [row]) })

/-! ## Creating -/

/-- A CREATE declares the columns and keeps the rows there are; one with a column it cannot read
leaves the table without any. -/
def Table.create (t : Table) (colDefs : List CStr) : Answer × Table :=
  if colDefs = [] then (.failed, t)
  else match schemaText (fun _ => false) colDefs 0 [] with
    | none => (.failed, { t with schema := none })
    | some text => (.ok, ⟨parseSchema text, some (t.rows.getD [])⟩)

variable [CDouble]

/-! ## Conditions -/

/-- Every row has an answer to the conditions. -/
def evaluable (schema : List ColDef) (sql : ParsedSQL) (rows : List Row) : Bool :=
  rows.all fun row => (rowMatchesDelete schema row sql).isSome

/-- The rows that meet the conditions of a SELECT, as a result. -/
def Table.select (t : Table) (sql : ParsedSQL) : Option RowSet :=
  t.read.bind fun (schema, rows) =>
    if (sql.conds.all fun c => (findSchemaIndex schema c.column).isSome) && evaluable schema sql rows
    then buildRowset sql schema (rows.filter (matchesRow schema sql)) else none

/-- The rows that a DELETE leaves: those that do not meet its conditions. -/
def Table.delete (t : Table) (sql : ParsedSQL) : Option (List Row) :=
  if validateDeleteInput sql.table sql then
    t.read.bind fun (schema, rows) =>
      if validateDeleteClause schema sql && evaluable schema sql rows
      then some (rows.filter fun row => !matchesRow schema sql row) else none
  else none

/-- The rows that an UPDATE leaves: all, with its assignments made in those that meet its
conditions. -/
def Table.update (t : Table) (sql : ParsedSQL) : Option (List Row) :=
  if validateUpdateInput sql.table sql then
    t.read.bind fun (schema, rows) =>
      if (validateUpdateSetClause schema sql.sets).isSome && validateDeleteClause schema sql &&
        evaluable schema sql rows
      then some (rows.map fun row =>
        if matchesRow schema sql row then assigned schema sql.sets row else row)
      else none
  else none

/-! ## Statements -/

omit [CDouble] in
/-- The rows that a statement leaves, in the place of those that were there. -/
def Table.replace (t : Table) : Option (List Row) → Answer × Table
  | none => (.failed, t)
  | some rows => (.ok, { t with rows := some rows })

/-- One statement on a table, with the id for a row that comes without one. -/
def Table.exec : Machine Table (Option ℤ × ParsedSQL) Answer := fun t (auto, sql) =>
  if sql.table = [] then (.failed, t)
  else match sql.type with
    | .unknown => (.failed, t)
    | .create => t.create sql.colDefs
    | .insert => t.insert auto sql.columns sql.values
    | .delete => t.replace (t.delete sql)
    | .update => t.replace (t.update sql)
    | .select => (((t.select sql).map .rows).getD .failed, t)

/-- The tables by their names. -/
abbrev Database := CStr → Table

/-- One statement on the table it names. -/
def Database.exec : Machine Database (Option ℤ × ParsedSQL) Answer :=
  Table.exec.keyed (·.2.table)

omit [CDouble] in
/-- The statement that an engine makes of a text; a text that it cannot read is no statement. -/
def statementOf (stmt : Uninit × CStr) : ParsedSQL := (parseSql stmt.1 stmt.2).getD parsedNew

/-- The engine as a machine. -/
def execMachine : Machine Engine (Uninit × CStr) Outcome := fun e stmt => execOne e stmt.1 stmt.2

theorem execOne_eq (e : Engine) (stmt : Uninit × CStr) :
    execOne e stmt.1 stmt.2 = executeStatement e (statementOf stmt) := by
  unfold execOne statementOf
  cases parseSql stmt.1 stmt.2 <;> rfl

/-! ## Ids -/

omit [CDouble] in
/-- The statement is no INSERT that leaves the `id` to the engine. -/
def IdGiven (sql : ParsedSQL) : Prop := sql.type = .insert → GivesId sql.columns sql.values

omit [CDouble] in
theorem newRow_congr {schema : List ColDef} {columns values : List CStr}
    (h : GivesId columns values) (auto auto' : Option ℤ) :
    newRow schema auto columns values = newRow schema auto' columns values := by
  have hgives : (if columns = [] then Except.ok true else userHasId values.length columns) =
      (.ok true : Except Fault Bool) := by
    by_cases hnil : columns = []
    · rw [if_pos hnil]
    · rw [if_neg hnil]
      exact h.resolve_left hnil
  unfold newRow
  rw [hgives]

/-- **A statement that gives its id, or needs none, does not ask for one.** -/
theorem Table.exec_congr {sql : ParsedSQL} (h : IdGiven sql) (t : Table) (auto auto' : Option ℤ) :
    Table.exec t (auto, sql) = Table.exec t (auto', sql) := by
  unfold Table.exec
  dsimp only
  cases htype : sql.type with
  | insert =>
    dsimp only
    unfold Table.insert
    simp only [newRow_congr (h htype) auto auto']
  | _ => rfl

section Exec

variable (db : Database) (auto : Option ℤ) (sql : ParsedSQL)

theorem Database.exec_fst :
    (db.exec (auto, sql)).1 = (Table.exec (db sql.table) (auto, sql)).1 := rfl

theorem Database.exec_self :
    (db.exec (auto, sql)).2 sql.table = (Table.exec (db sql.table) (auto, sql)).2 :=
  Machine.keyed_self ..

variable {sql} in
theorem Database.exec_of_ne {name : CStr} (h : name ≠ sql.table) :
    (db.exec (auto, sql)).2 name = db name :=
  Machine.keyed_of_ne _ _ _ h

end Exec

end MiniSql
