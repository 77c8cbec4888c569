import MiniSql.Schema

/-!
# Conditions on rows

The part of `storage.c` that decides which rows a `WHERE` clause selects. A value is compared
at the type of its column; `AND` binds tighter than `OR`. `none` is a status of `-1`.

## Main definitions

* `compareValueByType`, `likeMatch` — one comparison.
* `evaluateSelectClause`, `rowMatchesDelete` — one condition and a whole clause on one row.
* `validateDeleteClause`, `validateUpdateSetClause` — the checks made before any row is read.
-/

namespace MiniSql
open CText

/-! ## Values -/

/-- `strip_optional_quotes` into `size` bytes. -/
def stripOptionalQuotes (input : CStr) (size : ℕ) : CStr :=
  if 2 ≤ input.length ∧
      ((input.head? = some '\'' ∧ input.getLast? = some '\'') ∨
        (input.head? = some '"' ∧ input.getLast? = some '"')) then
    input.tail.dropLast.take (size - 1)
  else input.take (size - 1)

/-- `parse_long_value`. -/
def parseLongValue (text : CStr) : Option ℤ :=
  let r := strtol text
  if text = [] ∨ r.erange ∨ r.rest ≠ [] then none else some r.value

/-- `parse_double_value`. -/
def parseDoubleValue [CDouble] (text : CStr) : Option CDouble.Double :=
  let (value, rest, err) := CDouble.strtod text
  if text = [] ∨ err ∨ rest ≠ [] then none else some value

/-- `parse_boolean_value`. -/
def parseBooleanValue (text : CStr) : Option ℤ :=
  if equalsIgnoreCase text "true".toList || text == ['1'] then some 1
  else if equalsIgnoreCase text "false".toList || text == ['0'] then some 0
  else none

/-- `validate_date_text`. -/
def validateDateText (text : CStr) : Bool :=
  match text with
  | [a, b, c, d, e, f, g, h, i, j] =>
    [a, b, c, d, f, g, i, j].all Char.isDigit && e == '-' && h == '-' &&
      (let month := (f.toNat - 48) * 10 + (g.toNat - 48)
       let day := (i.toNat - 48) * 10 + (j.toNat - 48)
       1 ≤ month && month ≤ 12 && 1 ≤ day && day ≤ 31)
  | _ => false

/-! ## Comparisons -/

/-- `(left > right) - (left < right)`. -/
def sign3 {α : Type*} (lt : α → α → Bool) (left right : α) : ℤ :=
  (if lt right left then 1 else 0) - if lt left right then 1 else 0

/-- `compare_ordering_result`. -/
def compareOrderingResult (cmp : ℤ) (op : CStr) : Option Bool :=
  if op = "=".toList then some (cmp = 0)
  else if op = "!=".toList then some (cmp ≠ 0)
  else if op = ">".toList then some (0 < cmp)
  else if op = "<".toList then some (cmp < 0)
  else if op = ">=".toList then some (0 ≤ cmp)
  else if op = "<=".toList then some (cmp ≤ 0)
  else none

/-- One pattern character other than `%` against the text. -/
def likeChar (c : Char) (text : CStr) : Bool :=
  match text with
  | [] => false
  | d :: _ => c == '_' || d == c

/-- The loop of `like_match`. The flag says that the pattern is just behind a `%`, where the
rest of it may match anywhere. -/
def likeLoop : Bool → CStr → CStr → Bool
  | false, [], text => text == []
  | true, [], _ => true
  | percent, c :: pattern, text =>
    if c = '%' then likeLoop true pattern text
    else if percent then
      text.tails.any fun t => likeChar c t && likeLoop false pattern t.tail
    else likeChar c text && likeLoop false pattern text.tail

/-- `like_match`. -/
def likeMatch (text pattern : CStr) : Bool := likeLoop false pattern text

/-- `compare_value_by_type`. -/
def compareValueByType [CDouble] (type : ColumnType) (left op right : CStr) : Option Bool :=
  match type with
  | .int =>
    match parseLongValue left, parseLongValue right with
    | some l, some r => compareOrderingResult (sign3 (fun a b : ℤ => a < b) l r) op
    | _, _ => none
  | .float =>
    match parseDoubleValue left, parseDoubleValue right with
    | some l, some r => compareOrderingResult (sign3 CDouble.lt l r) op
    | _, _ => none
  | .boolean =>
    match parseBooleanValue left, parseBooleanValue right with
    | some l, some r => compareOrderingResult (sign3 (fun a b : ℤ => a < b) l r) op
    | _, _ => none
  | .date => compareOrderingResult (strcmp left right) op
  | .varchar =>
    if op = "LIKE".toList then some (likeMatch left right)
    else compareOrderingResult (strcmp left right) op
  | .datetime =>
    if op = "=".toList ∨ op = "!=".toList then compareOrderingResult (strcmp left right) op
    else none

/-- `is_supported_operator`. -/
def isSupportedOperator (op : CStr) : Bool :=
  op == "=".toList || op == "!=".toList || op == ">".toList || op == "<".toList ||
    op == ">=".toList || op == "<=".toList || op == "LIKE".toList

/-- `is_supported_operator_for_type`. -/
def isSupportedOperatorForType (type : ColumnType) (op : CStr) : Bool :=
  match type with
  | .int | .float | .boolean | .date => op != "LIKE".toList
  | .varchar => true
  | .datetime => op == "=".toList || op == "!=".toList

/-- `validate_literal_for_type`. -/
def validateLiteralForType [CDouble] (type : ColumnType) (value : CStr) : Bool :=
  match type with
  | .int => (parseLongValue value).isSome
  | .float => (parseDoubleValue value).isSome
  | .boolean => (parseBooleanValue value).isSome
  | .date | .varchar | .datetime => true

/-- `validate_update_value_for_type`. -/
def validateUpdateValueForType [CDouble] (type : ColumnType) (value : CStr) : Bool :=
  match type with
  | .int => (parseLongValue value).isSome
  | .float => (parseDoubleValue value).isSome
  | .boolean => (parseBooleanValue value).isSome
  | .date => validateDateText value
  | .varchar | .datetime => true

/-! ## Clauses -/

variable [CDouble]

/-- `evaluate_select_clause`. -/
def evaluateSelectClause (schema : List ColDef) (row : Row) (clause : WhereClause) :
    Option Bool :=
  match findSchemaIndex schema clause.column with
  | none => none
  | some i =>
    match schema[i]?, row[i]? with
    | some col, some cell =>
      let literal := stripOptionalQuotes clause.value 256
      if isSupportedOperator clause.op = false then none
      else if isSupportedOperatorForType col.type clause.op = false then none
      else if validateLiteralForType col.type literal = false then none
      else compareValueByType col.type cell clause.op literal
    | _, _ => none

/-- `resolve_where_link`. -/
def resolveWhereLink (sql : ParsedSQL) (index : ℕ) : CStr :=
  match if index + 1 < sql.conds.length then sql.whereLinks[index]? else none with
  | some link => link
  | none => if sql.whereLogic ≠ [] then sql.whereLogic else "AND".toList

/-- The loop of `row_matches_delete` from condition `index` on, with `out_match` and
`group_match`. -/
def matchLoop (schema : List ColDef) (row : Row) (sql : ParsedSQL) :
    ℕ → List WhereClause → Bool → Bool → Option Bool
  | _, [], outMatch, groupMatch => some (outMatch || groupMatch)
  | index, clause :: clauses, outMatch, groupMatch =>
    let link := resolveWhereLink sql (index - 1)
    match evaluateSelectClause schema row clause with
    | none => none
    | some m =>
      if equalsIgnoreCase link "AND".toList then
        matchLoop schema row sql (index + 1) clauses outMatch (groupMatch && m)
      else if equalsIgnoreCase link "OR".toList then
        matchLoop schema row sql (index + 1) clauses (outMatch || groupMatch) m
      else none

/-- `row_matches_delete`. -/
def rowMatchesDelete (schema : List ColDef) (row : Row) (sql : ParsedSQL) : Option Bool :=
  match sql.conds with
  | [] => some true
  | clause :: clauses =>
    (evaluateSelectClause schema row clause).bind fun m =>
      matchLoop schema row sql 1 clauses false m

/-- The check of one condition in `validate_delete_clause`. -/
def validateClause (schema : List ColDef) (clause : WhereClause) : Bool :=
  match (findSchemaIndex schema clause.column).bind (schema[·]?) with
  | none => false
  | some col =>
    isSupportedOperator clause.op && isSupportedOperatorForType col.type clause.op &&
      validateLiteralForType col.type clause.value

/-- The check of the connective behind condition `index`. -/
def validateLink (sql : ParsedSQL) (index : ℕ) : Bool :=
  let link := resolveWhereLink sql index
  sql.conds.length ≤ index + 1 || equalsIgnoreCase link "AND".toList ||
    equalsIgnoreCase link "OR".toList

/-- `validate_delete_clause`. -/
def validateDeleteClause (schema : List ColDef) (sql : ParsedSQL) : Bool :=
  sql.conds.all (validateClause schema) &&
    (List.range sql.conds.length).all (validateLink sql)

/-- The loop of `validate_update_set_clause`, with the indexes found so far. -/
def setIndexLoop (schema : List ColDef) : List SetClause → List ℕ → Option (List ℕ)
  | [], indexes => some indexes
  | set :: sets, indexes =>
    if set.column = [] then none
    else match findSchemaIndex schema set.column with
      | none => none
      | some i =>
        if i ∈ indexes then none
        else match schema[i]? with
          | none => none
          | some col =>
            if validateUpdateValueForType col.type set.value = false then none
            else setIndexLoop schema sets (indexes ++ [i])

/-- `validate_update_set_clause`: the index of the column of each assignment. -/
def validateUpdateSetClause (schema : List ColDef) (sets : List SetClause) : Option (List ℕ) :=
  setIndexLoop schema sets []

/-- `apply_update_to_row`. -/
def applyUpdateToRow (row : Row) : List SetClause → List ℕ → Option Row
  | set :: sets, i :: indexes =>
    if row.length ≤ i then none else applyUpdateToRow (row.set i set.value) sets indexes
  | _, _ => some row

end MiniSql
