import MiniSql.Types

/-!
# Schema files

A schema file has one line `name,type` for each column. `storage_create` writes it from the
column definitions of the statement and `load_schema` reads it back; both go through
`parse_schema_definition`.

## Main definitions

* `parseSchemaDefinition` — name and type of one definition.
* `parseColumnType`, `findSchemaIndex`.
* `parseSchema` — `load_schema` on the content of the file.
-/

namespace MiniSql
open CText

/-- `STORAGE_PATH_MAX`, the size of a path buffer. -/
def storagePathMax : ℕ := 512

/-- `STORAGE_LINE_MAX`, the size of a line buffer. -/
def storageLineMax : ℕ := 512

/-- `COLUMN_NAME_MAX`. -/
def columnNameMax : ℕ := 64

/-- Cut a text at its first character with the property, which belongs to neither part. -/
def cutAt (p : Char → Bool) (s : CStr) : Option (CStr × CStr) :=
  match s.dropWhile (fun c => !p c) with
  | [] => none
  | _ :: rest => some (s.takeWhile (fun c => !p c), rest)

/-- `parse_schema_definition`: name and type, both empty for a blank line or a comment. -/
def parseSchemaDefinition (text : CStr) : Option (CStr × CStr) :=
  let trimmed := trimSpace (text.take (storageLineMax - 1))
  if trimmed = [] ∨ trimmed.head? = some '#' then some ([], [])
  else
    match (cutAt (· == ',') trimmed).or (cutAt (fun c => c == ' ' || c == '\t') trimmed) with
    | none => none
    | some (name, type) =>
      let name := trimSpace name
      let type := trimSpace type
      if name = [] ∨ type = [] then none
      else if columnNameMax < name.length + 1 ∨ 64 < type.length + 1 then none
      else some (name, type)

/-- `parse_column_type`. -/
def parseColumnType (text : CStr) : Option ColumnType :=
  if equalsIgnoreCase text "INT".toList then some .int
  else if equalsIgnoreCase text "VARCHAR".toList then some .varchar
  else if equalsIgnoreCase text "FLOAT".toList then some .float
  else if equalsIgnoreCase text "BOOLEAN".toList then some .boolean
  else if equalsIgnoreCase text "DATE".toList then some .date
  else if equalsIgnoreCase text "DATETIME".toList then some .datetime
  else none

/-- What the calls of `fgets` on a buffer of `STORAGE_LINE_MAX` bytes return, one after the
other: a line with its newline, or as much of it as fits. -/
def fgetsLoop : CStr → CStr → List CStr
  | [], line => if line = [] then [] else [line]
  | c :: s, line =>
    if c = '\n' ∨ line.length + 1 = storageLineMax - 1 then (line ++ [c]) :: fgetsLoop s []
    else fgetsLoop s (line ++ [c])

/-- The loop of `load_schema` over the lines. -/
def loadSchemaLoop : List CStr → Option (List ColDef)
  | [] => some []
  | line :: lines =>
    match parseSchemaDefinition (cstr line) with
    | none => none
    | some (name, type) =>
      if name = [] then loadSchemaLoop lines
      else match parseColumnType type with
        | none => none
        | some t => (loadSchemaLoop lines).map (⟨name, t⟩ :: ·)

/-- `load_schema` on the content of the file. A schema has at least one column. -/
def parseSchema (file : CStr) : Option (List ColDef) :=
  match loadSchemaLoop (fgetsLoop file []) with
  | some (d :: ds) => some (d :: ds)
  | _ => none

/-- `find_schema_index`. -/
def findSchemaIndex (schema : List ColDef) (column : CStr) : Option ℕ :=
  schema.findIdx? fun d => equalsIgnoreCase d.name column

theorem parseSchema_ne_nil {file : CStr} {schema : List ColDef} (h : parseSchema file = some schema) :
    schema ≠ [] := by
  unfold parseSchema at h
  split at h
  · simp only [Option.some.injEq] at h
    simp [← h]
  · simp at h

theorem findSchemaIndex_lt {schema : List ColDef} {column : CStr} {i : ℕ}
    (h : findSchemaIndex schema column = some i) : i < schema.length :=
  (List.findIdx?_eq_some_iff_getElem.mp h).1

theorem findSchemaIndex_eq_none {schema : List ColDef} {column : CStr} :
    findSchemaIndex schema column = none ↔
      ∀ d ∈ schema, equalsIgnoreCase d.name column = false := by
  rw [findSchemaIndex, List.findIdx?_eq_none_iff]

/-- Names of one column are equal. -/
theorem findSchemaIndex_inj {schema : List ColDef} {a b : CStr} {i : ℕ}
    (ha : findSchemaIndex schema a = some i) (hb : findSchemaIndex schema b = some i) :
    equalsIgnoreCase a b = true := by
  obtain ⟨hlt, hname, -⟩ := List.findIdx?_eq_some_iff_getElem.mp ha
  obtain ⟨_, hname', -⟩ := List.findIdx?_eq_some_iff_getElem.mp hb
  rw [equalsIgnoreCase_comm] at hname
  exact equalsIgnoreCase_trans hname hname'

/-- A column is found under each of its spellings. -/
theorem findSchemaIndex_congr {schema : List ColDef} {a b : CStr}
    (h : equalsIgnoreCase a b = true) :
    findSchemaIndex schema a = findSchemaIndex schema b := by
  unfold findSchemaIndex
  congr
  funext d
  rw [Bool.eq_iff_iff]
  constructor
  · exact fun hd => equalsIgnoreCase_trans hd h
  · rw [equalsIgnoreCase_comm] at h
    exact fun hd => equalsIgnoreCase_trans hd h

end MiniSql
