import MiniSql.Lib.CText

/-!
# The data shared by the parser, the storage and the engine

The types of `types.h`. A count field is the length of the list it counts, and a
pointer that is NULL exactly when nothing was collected is the empty list.

`double` values are opaque: the storage parses, compares and prints them through the C
library only, so they are a parameter, `CDouble`.
-/

namespace MiniSql
open CText

/-- The kind of a statement. -/
inductive QueryType
  | select | insert | delete | update | create | unknown
  deriving DecidableEq, Repr

/-- The six column types. -/
inductive ColumnType
  | int | varchar | float | boolean | date | datetime
  deriving DecidableEq, Repr

/-- A column of a schema. -/
structure ColDef where
  name : CStr
  type : ColumnType
  deriving DecidableEq, Repr

/-- One condition `column op value`; `valueTo` is the upper bound of `BETWEEN`. -/
structure WhereClause where
  column : CStr
  op : CStr
  value : CStr
  valueTo : CStr
  deriving DecidableEq, Repr

structure OrderBy where
  column : CStr
  asc : Bool
  deriving DecidableEq, Repr

/-- One assignment `column = value` of an `UPDATE`. -/
structure SetClause where
  column : CStr
  value : CStr
  deriving DecidableEq, Repr

/-- The result of parsing one statement. `whereLinks[i]` joins conditions `i` and
`i + 1`; `limit` is `-1` when there is none. -/
structure ParsedSQL where
  type : QueryType
  table : CStr
  columns : List CStr
  values : List CStr
  conds : List WhereClause
  whereLogic : CStr
  whereLinks : List CStr
  orderBy : Option OrderBy
  limit : ℤ
  sets : List SetClause
  colDefs : List CStr
  deriving DecidableEq, Repr

/-- `parsed_new`. -/
def parsedNew : ParsedSQL :=
  ⟨.unknown, [], [], [], [], [], [], none, -1, [], []⟩

/-- The rows a `SELECT` returns, under their column names. -/
structure RowSet where
  colNames : List CStr
  rows : List (List CStr)
  deriving DecidableEq, Repr

/-- The cells of one stored row. -/
abbrev Row := List CStr

/-- The path of a file. -/
abbrev Path := CStr

/-- The operations on `double` that the storage takes from the C library. -/
class CDouble where
  Double : Type
  /-- `strtod`: the value, the text from `end` on, and whether `errno` was set. -/
  strtod : CStr → Double × CStr × Bool
  lt : Double → Double → Bool
  zero : Double
  add : Double → Double → Double
  div : Double → Double → Double
  ofLong : ℤ → Double
  /-- `"%.2f"`. -/
  fixed2 : Double → CStr
  /-- `"%g"` of the eight bytes of a stored `double`. -/
  general : List Char → CStr

/-- The doubles without a fraction: enough for texts that are whole numbers. -/
@[reducible] def CDouble.whole : CDouble where
  Double := ℤ
  strtod s := ((strtol s).value, (strtol s).rest, (strtol s).erange)
  lt a b := a < b
  zero := 0
  add a b := a + b
  div a b := a.tdiv b
  ofLong n := n
  fixed2 n := intText n ++ ".00".toList
  general _ := []

end MiniSql
