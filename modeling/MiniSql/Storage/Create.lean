import MiniSql.SchemaFile
import MiniSql.Storage.State

/-!
# Creating a table

`storage_create` truncates the schema file, writes a line for every column definition and
then opens the file of the table, which it leaves as it is. On any failure it removes the
schema file.

## Main definitions

* `CreateFaults` — which operations fail.
* `schemaText` — the text of the schema file.
* `storageCreateWith`, `storageCreate`.
-/

namespace MiniSql
open CText

/-- The file operations that fail, and what is left of a schema file that cannot be removed
before its text was written. `print i` is the `i`-th `fprintf`. -/
structure CreateFaults where
  mkdir : Bool
  probe : Path → Bool
  openSchema : Bool
  print : ℕ → Bool
  closeSchema : Bool
  openTable : Bool
  closeTable : Bool
  removeSchema : Bool
  leftover : Option CStr

/-- No operation fails. -/
def CreateFaults.none : CreateFaults where
  mkdir := false
  probe := fun _ => false
  openSchema := false
  print := fun _ => false
  closeSchema := false
  openTable := false
  closeTable := false
  removeSchema := false
  leftover := Option.none

/-- The loop over the column definitions, with the number of lines and the text written so
far. -/
def schemaText (printFails : ℕ → Bool) : List CStr → ℕ → CStr → Option CStr
  | [], _, text => some text
  | colDef :: colDefs, n, text =>
    match parseSchemaDefinition colDef with
    | none => none
    | some d =>
      if printFails n then none else schemaText printFails colDefs (n + 1) (text ++ schemaLine d)

/-- The paths of the schema and of the table. -/
def createPaths (faults : CreateFaults) (st : Storage) (table : CStr) :
    Option (Path × Path) × Storage :=
  let probe := fun path => st.pathExists path && !faults.probe path
  match buildSchemaPathWith probe st table with
  | (none, st) => (none, st)
  | (some schemaPath, st) =>
    match buildTablePathWith probe st table with
    | (none, st) => (none, st)
    | (some path, st) => (some (schemaPath, path), st)

/-- What the caches know about a table of that name goes. -/
def createInvalidate (st : Storage) (table : CStr) (schemaPath path : Path) : Storage :=
  { appendFpInvalidate st path with
    schemaCache := st.schemaCache.remove schemaPath,
    pathCache := st.pathCache.remove table }

/-- The `cleanup` of a call that failed, where the schema file holds `left`. -/
def createCleanup (faults : CreateFaults) (st : Storage) (schemaPath : Path)
    (left : Option CStr) : Status × Storage :=
  (.error .failed, st.setFile schemaPath (if faults.removeSchema then left else none))

/-- The part of `storage_create` that works on the two files. -/
def writeSchema (faults : CreateFaults) (st : Storage) (schemaPath path : Path)
    (colDefs : List CStr) : Status × Storage :=
  if faults.openSchema then createCleanup faults st schemaPath (st.files schemaPath)
  else match schemaText faults.print colDefs 0 [] with
    | none => createCleanup faults st schemaPath faults.leftover
    | some text =>
      if faults.closeSchema then createCleanup faults st schemaPath faults.leftover
      else
        let st := st.setFile schemaPath (some text)
        if faults.openTable then createCleanup faults st schemaPath (some text)
        else
          let st := st.setFile path (some ((st.files path).getD []))
          if faults.closeTable then createCleanup faults st schemaPath (some text)
          else (.ok (), st)

/-- `storage_create`. -/
def storageCreateWith (faults : CreateFaults) (st : Storage) (table : CStr)
    (colDefs : List CStr) : Status × Storage :=
  if table = [] ∨ colDefs = [] ∨ faults.mkdir then (.error .failed, st)
  else match createPaths faults st table with
    | (none, st) => (.error .failed, st)
    | (some (schemaPath, path), st) =>
      writeSchema faults (createInvalidate st table schemaPath path) schemaPath path colDefs

def storageCreate (st : Storage) (table : CStr) (colDefs : List CStr) : Status × Storage :=
  storageCreateWith .none st table colDefs

/-! ## The parts of a call -/

theorem schemaText_spec {printFails : ℕ → Bool} {colDefs : List CStr} {n : ℕ} {acc text : CStr}
    (h : schemaText printFails colDefs n acc = some text) :
    ∃ ps, List.Forall₂ (fun colDef p => parseSchemaDefinition colDef = some p) colDefs ps ∧
      text = acc ++ ps.flatMap schemaLine := by
  induction colDefs generalizing n acc with
  | nil => exact ⟨[], .nil, by simpa using (Option.some.inj h).symm⟩
  | cons colDef colDefs ih =>
    rw [schemaText] at h
    split at h
    · exact absurd h (by simp)
    · rename_i d hd
      split_ifs at h
      obtain ⟨ps, hps, rfl⟩ := ih h
      exact ⟨d :: ps, .cons hd hps, by simp⟩

theorem createPaths_spec (faults : CreateFaults) (st : Storage) (table : CStr) :
    (∃ cache, (createPaths faults st table).2 = { st with pathCache := cache }) ∧
      ∀ {sp path}, (createPaths faults st table).1 = some (sp, path) →
        (∃ place name, sp = schemaPath place name) ∧ ∃ place name, path = tablePath place name := by
  unfold createPaths
  set probe : Path → Bool := fun path => st.pathExists path && !faults.probe path
  obtain ⟨c₁, h₁⟩ := buildSchemaPathWith_snd probe st table
  dsimp only
  rcases hs : buildSchemaPathWith probe st table with ⟨_ | sp, st₁⟩ <;> rw [hs] at h₁ <;> subst h₁
  · exact ⟨⟨_, rfl⟩, fun h => absurd h (by simp)⟩
  dsimp only
  obtain ⟨c₂, h₂⟩ := buildTablePathWith_snd probe { st with pathCache := c₁ } table
  rcases ht : buildTablePathWith probe { st with pathCache := c₁ } table with ⟨_ | path, st₂⟩ <;>
    rw [ht] at h₂ <;> subst h₂
  · exact ⟨⟨_, rfl⟩, fun h => absurd h (by simp)⟩
  · refine ⟨⟨_, rfl⟩, fun h => ?_⟩
    obtain ⟨rfl, rfl⟩ : sp = _ ∧ path = _ := by simpa using h
    exact ⟨buildSchemaPathWith_fst (congrArg Prod.fst hs),
      buildTablePathWith_fst (congrArg Prod.fst ht)⟩

/-- The result of `CREATE TABLE t (id INT, name VARCHAR)`. -/
def createStatement : ParsedSQL :=
  { parsedNew with
    type := .create, table := "t".toList, colDefs := ["id INT".toList, "name VARCHAR".toList] }

end MiniSql
