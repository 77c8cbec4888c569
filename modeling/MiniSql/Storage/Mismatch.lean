import MiniSql.Storage.InsertAtomic
import MiniSql.Storage.Listing
import MiniSql.Parser

/-!
# An INSERT with more columns than values, or fewer

`storage_insert` is told how many values there are, and takes this for the number of columns. With
more columns the ones behind are never looked at; with fewer the loops run past the last one.

## Main definitions

* `RespectsCounts` — different numbers are refused, and no column behind the last one is read.
* `MakesRow` — the first columns make up a row with the values.
* `RunsOver` — no check comes before the read behind the last column.

## Main results

* `respectsCounts_iff` — the exact condition.
-/

namespace MiniSql
open CText

/-- Different numbers of columns and values are refused, nothing is stored then, and no column
behind the last one is read. -/
structure RespectsCounts (st : Storage) (columns values : List CStr) (result : Status × Storage) :
    Prop where
  rejected : columns.length ≠ values.length →
    result.1 = .error .failed ∧ result.2.files = st.files
  bounded : result.1 ≠ .error .overread

/-- One of the columns is the `id`. -/
def givesId (columns : List CStr) : Bool := columns.any fun c => equalsIgnoreCase c "id".toList

/-- No id can be read from the value for the `id` column. -/
def UnreadableId (columns values : List CStr) : Prop :=
  ∀ p ∈ columns.zip values, equalsIgnoreCase p.1 "id".toList = true → explicitId p.2 = none

/-- There is an entry with the counters of the table, or room for one. -/
def HasCounters (st : Storage) (table : CStr) : Prop :=
  st.metaCache.find table ≠ none ∨ st.metaCache.length < metaCacheMax

/-- As many columns as there are values make up a row: each column of the schema has one value, but
for an `id` that is given automatically. A row with an `id` that cannot be read is refused, but
stored unless what is written is lost. -/
def MakesRow (st : Storage) (table : CStr) (path : Path) (schema : List ColDef)
    (columns values : List CStr) : Prop :=
  if findSchemaIndex schema "id".toList = none then
    values.length = schema.length ∧ Assigns schema (columns.take values.length)
  else if givesId (columns.take values.length) then
    values.length = schema.length ∧ Assigns schema (columns.take values.length) ∧
      ¬ (UnreadableId columns values ∧ st.Lost path)
  else
    values.length + 1 = schema.length ∧
      Assigns schema ("id".toList :: columns.take values.length) ∧ HasCounters st table

/-- No check comes before the read behind the last column: the search for the `id` does not end
before, or each column is one of the schema and there are as many values as this has columns. -/
def RunsOver (schema : List ColDef) (columns values : List CStr) : Prop :=
  (findSchemaIndex schema "id".toList ≠ none ∧ givesId columns = false) ∨
    (values.length = schema.length ∧ Assigns schema columns)

/-- The table can be opened, and the numbers of columns and values are different without being
noticed. -/
def CountsMissed (st : Storage) (table : CStr) (columns values : List CStr) : Prop :=
  table ≠ [] ∧ values ≠ [] ∧ ∃ path schema, (openTable st table).1 = some (path, schema) ∧
    ((values.length < columns.length ∧ MakesRow st table path schema columns values) ∨
      (columns.length < values.length ∧ RunsOver schema columns values))

/-! ## The search for the id -/

theorem userHasId_eq (n : ℕ) (columns : List CStr) :
    userHasId n columns =
      if givesId (columns.take n) then .ok true
      else if columns.length < n then .error .overread
      else .ok false := by
  induction n generalizing columns with
  | zero => rfl
  | succ n ih =>
    cases columns with
    | nil =>
      have hlt : ([] : List CStr).length < n + 1 := Nat.succ_pos n
      rw [userHasId, if_neg (by simp [givesId]), if_pos hlt]
    | cons c columns =>
      rw [userHasId, List.take_succ_cons, givesId, List.any_cons]
      by_cases hc : equalsIgnoreCase c "id".toList = true
      · rw [if_pos hc, hc, Bool.true_or, if_pos rfl]
      · rw [if_neg hc, ih, Bool.eq_false_of_not_eq_true hc, Bool.false_or, List.length_cons]
        by_cases hlt : columns.length < n
        · rw [if_pos hlt, if_pos (Nat.succ_lt_succ hlt)]
          rfl
        · rw [if_neg hlt, if_neg (fun h : columns.length + 1 < n + 1 => hlt (Nat.lt_of_succ_lt_succ h))]
          rfl

theorem userHasId_of_le {n : ℕ} {columns : List CStr} (h : n ≤ columns.length) :
    userHasId n columns = .ok (givesId (columns.take n)) := by
  rw [userHasId_eq, if_neg (show ¬ columns.length < n by omega)]
  cases givesId (columns.take n) <;> rfl

theorem userHasId_of_lt {n : ℕ} {columns : List CStr} (h : columns.length < n) :
    userHasId n columns = if givesId columns then .ok true else .error .overread := by
  rw [userHasId_eq, if_pos h, List.take_of_length_le h.le]

/-- The value for the `id` column of a built row. -/
theorem unreadableId_iff {schema : List ColDef} {columns values : List CStr} {row : Row} {idCol : ℕ}
    (hid : findSchemaIndex schema "id".toList = some idCol) (hne : columns ≠ [])
    (hrow : buildRowInSchemaOrder schema columns values = .ok row) :
    UnreadableId columns values ↔ explicitId (row[idCol]?.getD []) = none := by
  have hfind : ∀ c, equalsIgnoreCase c "id".toList = true ↔ findSchemaIndex schema c = some idCol := by
    intro c
    constructor
    · intro hc
      rw [← hid, findSchemaIndex, findSchemaIndex]
      congr 1
      funext d
      rw [Bool.eq_iff_iff, equalsIgnoreCase_iff, equalsIgnoreCase_iff, equalsIgnoreCase_iff.mp hc]
    · intro hc
      exact findSchemaIndex_inj hc hid
  have hlt : idCol < row.length := by
    rw [length_buildRow hrow]
    exact findSchemaIndex_lt hid
  have hcell : row[idCol]? = some row[idCol] := List.getElem?_eq_getElem hlt
  obtain ⟨c, hmem, hc⟩ := (buildRow_mem_zip hne hrow).mp hcell
  rw [hcell, Option.getD_some]
  constructor
  · intro h
    exact h (c, row[idCol]) hmem ((hfind c).mpr hc)
  · intro h p hp hpid
    have hvalue : row[idCol]? = some p.2 :=
      (buildRow_mem_zip hne hrow).mpr ⟨p.1, hp, (hfind p.1).mp hpid⟩
    rw [hcell, Option.some.injEq] at hvalue
    rw [← hvalue]
    exact h

/-! ## The counters -/

theorem nextAutoId_none_iff {st : Storage} {table : CStr} (hshort : table.length ≤ nameMax)
    (path : Path) (idCol : ℕ) :
    (nextAutoId (ensureMeta st table path idCol) table path idCol).1 = none ↔
      ¬ HasCounters st table := by
  have hsome : ∀ {st' : Storage} {m : Meta}, st'.metaCache.find table = some m →
      (nextAutoId st' table path idCol).1 ≠ none := by
    intro st' m hm
    obtain ⟨cache, -, hfind⟩ := nextAutoId_snd st' table path idCol
    exact (hfind m hm).1
  unfold HasCounters
  cases hm : st.metaCache.find table with
  | some m =>
    have hens : ensureMeta st table path idCol = st := by
      unfold ensureMeta
      rw [hm]
    rw [hens]
    simp [hsome hm]
  | none =>
    by_cases hroom : st.metaCache.length < metaCacheMax
    · have hfind : (ensureMeta st table path idCol).metaCache.find table =
          some (scannedMeta idCol (st.records path)) := by
        unfold ensureMeta
        rw [hm]
        dsimp only
        rw [List.take_of_length_le hshort]
        exact Slots.find_add_self _ hroom hm
      simp [hsome hfind, hroom]
    · have hens : ensureMeta st table path idCol = st := by
        unfold ensureMeta
        rw [hm]
        dsimp only
        rw [Slots.add_of_full hroom]
      have hrefresh : refreshMeta st table path = st := by
        unfold refreshMeta
        rw [hm]
      rw [hens, nextAutoId, hrefresh]
      simp [hm, hroom]

/-! ## The parts of the function -/

/-- On a table with an `id` column, with no fewer columns than values: no column behind the last is
read, and the statement is refused without a trace unless the first columns make up a row. -/
theorem insertWithId_within {st : Storage} {table : CStr} {path : Path} {schema : List ColDef}
    {idCol : ℕ} {columns values : List CStr} (hshort : table.length ≤ nameMax)
    (hid : findSchemaIndex schema "id".toList = some idCol) (hne : columns ≠ [])
    (hle : values.length ≤ columns.length) :
    (insertWithId st table path schema idCol columns values).1 ≠ .error .overread ∧
      ((insertWithId st table path schema idCol columns values).1 = .error .failed ∧
          (insertWithId st table path schema idCol columns values).2.files = st.files ↔
        ¬ MakesRow st table path schema columns values) := by
  obtain ⟨cache, hens, -⟩ := ensureMeta_snd st table path idCol
  unfold insertWithId MakesRow
  have hsome : findSchemaIndex schema "id".toList ≠ none := by
    rw [hid]
    exact Option.some_ne_none idCol
  rw [if_neg hne, userHasId_of_le hle, if_neg hsome]
  dsimp only
  cases hgives : givesId (columns.take values.length) with
  | true =>
    rw [if_pos rfl]
    dsimp only
    rcases @buildRow_cases schema columns values hne with
      ⟨hlen, -, hassigns, row, hrow⟩ | ⟨-, hlt, -⟩ | ⟨hbad, hfail⟩
    · rw [hrow, unreadableId_iff hid hne hrow]
      dsimp only
      have hspec := finishInsert_spec (ensureMeta st table path idCol) table path idCol row none
      rw [Option.none_or] at hspec
      cases hcell : explicitId (row[idCol]?.getD []) with
      | none =>
        rw [hcell] at hspec
        dsimp only at hspec
        have hlost : (appendCsvRow (ensureMeta st table path idCol) path row).files = st.files ↔
            st.Lost path := by
          rw [hens]
          exact appendCsvRow_files_eq_iff
        rw [hspec, hlost]
        refine ⟨by simp, ?_, ?_⟩
        · intro hfail hmakes
          exact hmakes.2.2 ⟨rfl, hfail.2⟩
        · intro hno
          refine ⟨rfl, not_not.mp fun hkept => hno ⟨hlen, hassigns, fun h => hkept h.2⟩⟩
      | some id =>
        rw [hcell] at hspec
        obtain ⟨registry, cache', hfin⟩ := hspec
        rw [hfin]
        refine ⟨by simp, fun hfail => absurd hfail.1 (by simp), fun hno => ?_⟩
        exact absurd ⟨hlen, hassigns, fun h => absurd h.1 (by simp)⟩ hno
    · omega
    · rw [hfail, hens]
      refine ⟨by simp, fun _ hmakes => ?_, fun _ => ⟨rfl, rfl⟩⟩
      rcases hbad with hbad | hbad
      · exact hbad hmakes.1
      · exact hbad hmakes.2.1
  | false =>
    rw [if_neg (by simp)]
    dsimp only
    have hnone := @nextAutoId_none_iff st table hshort path idCol
    obtain ⟨cache', hnext, -⟩ := nextAutoId_snd (ensureMeta st table path idCol) table path idCol
    rcases hauto : nextAutoId (ensureMeta st table path idCol) table path idCol with ⟨_ | id, st₂⟩ <;>
      rw [hauto] at hnext hnone <;> subst hnext
    · rw [hens]
      have hno := hnone.mp rfl
      exact ⟨by simp, fun _ hmakes => hno hmakes.2.2, fun _ => ⟨rfl, rfl⟩⟩
    · have hcounters : HasCounters st table := by
        by_contra hno
        exact absurd (hnone.mpr hno) (by simp)
      dsimp only
      have hcons : ("id".toList :: columns) ≠ [] := List.cons_ne_nil _ _
      have htake : ("id".toList :: columns).take (intText id :: values).length =
          "id".toList :: columns.take values.length := rfl
      have hcases := @buildRow_cases schema ("id".toList :: columns) (intText id :: values) hcons
      rw [htake, List.length_cons, List.length_cons] at hcases
      rcases hcases with ⟨hlen, -, hassigns, row, hrow⟩ | ⟨-, hlt, -⟩ | ⟨hbad, hfail⟩
      · rw [hrow]
        dsimp only
        obtain ⟨registry, cache'', hfin⟩ := finishInsert_spec
          { ensureMeta st table path idCol with metaCache := cache' } table path idCol row (some id)
        rw [hfin]
        refine ⟨by simp, fun hfail => absurd hfail.1 (by simp), fun hno => ?_⟩
        exact absurd ⟨hlen, hassigns, hcounters⟩ hno
      · omega
      · rw [hfail, hens]
        refine ⟨by simp, fun _ hmakes => ?_, fun _ => ⟨rfl, rfl⟩⟩
        rcases hbad with hbad | hbad
        · exact hbad hmakes.1
        · exact hbad hmakes.2.1

/-- On a table with an `id` column, with fewer columns than values: a column behind the last is read,
or the statement is refused without a trace. -/
theorem insertWithId_beyond {st : Storage} {table : CStr} {path : Path} {schema : List ColDef}
    {idCol : ℕ} {columns values : List CStr}
    (hid : findSchemaIndex schema "id".toList = some idCol) (hne : columns ≠ [])
    (hlt : columns.length < values.length) :
    (RunsOver schema columns values ∧
        (insertWithId st table path schema idCol columns values).1 = .error .overread) ∨
      (¬ RunsOver schema columns values ∧
        (insertWithId st table path schema idCol columns values).1 = .error .failed ∧
          (insertWithId st table path schema idCol columns values).2.files = st.files) := by
  obtain ⟨cache, hens, -⟩ := ensureMeta_snd st table path idCol
  unfold insertWithId RunsOver
  rw [if_neg hne, userHasId_of_lt hlt]
  cases hgives : givesId columns with
  | false =>
    rw [if_neg (by simp)]
    have hsome : findSchemaIndex schema "id".toList ≠ none := by
      rw [hid]
      exact Option.some_ne_none idCol
    exact Or.inl ⟨Or.inl ⟨hsome, rfl⟩, rfl⟩
  | true =>
    rw [if_pos rfl]
    dsimp only
    rcases @buildRow_cases schema columns values hne with
      ⟨-, hle, -⟩ | ⟨hlen, -, hassigns, hover⟩ | ⟨hbad, hfail⟩
    · omega
    · rw [hover]
      exact Or.inl ⟨Or.inr ⟨hlen, hassigns⟩, rfl⟩
    · rw [hfail, hens]
      rw [List.take_of_length_le hlt.le] at hbad
      refine Or.inr ⟨?_, rfl, rfl⟩
      intro hruns
      rcases hruns with hruns | hruns
      · exact absurd hruns.2 (by simp)
      · rcases hbad with hbad | hbad
        · exact hbad hruns.1
        · exact hbad hruns.2

/-- On a table without an `id` column. -/
theorem buildRow_within {st : Storage} {table : CStr} {path : Path} {schema : List ColDef}
    {columns values : List CStr} (hid : findSchemaIndex schema "id".toList = none)
    (hne : columns ≠ []) (hle : values.length ≤ columns.length) :
    (MakesRow st table path schema columns values ∧
        ∃ row, buildRowInSchemaOrder schema columns values = .ok row) ∨
      (¬ MakesRow st table path schema columns values ∧
        buildRowInSchemaOrder schema columns values = .error .failed) := by
  unfold MakesRow
  rw [if_pos hid]
  rcases @buildRow_cases schema columns values hne with
    ⟨hlen, -, hassigns, hrow⟩ | ⟨-, hlt, -⟩ | ⟨hbad, hfail⟩
  · exact Or.inl ⟨⟨hlen, hassigns⟩, hrow⟩
  · omega
  · refine Or.inr ⟨?_, hfail⟩
    intro hmakes
    rcases hbad with hbad | hbad
    · exact hbad hmakes.1
    · exact hbad hmakes.2

@[inherit_doc buildRow_within]
theorem buildRow_beyond {schema : List ColDef} {columns values : List CStr}
    (hid : findSchemaIndex schema "id".toList = none) (hne : columns ≠ [])
    (hlt : columns.length < values.length) :
    (RunsOver schema columns values ∧
        buildRowInSchemaOrder schema columns values = .error .overread) ∨
      (¬ RunsOver schema columns values ∧
        buildRowInSchemaOrder schema columns values = .error .failed) := by
  unfold RunsOver
  rcases @buildRow_cases schema columns values hne with
    ⟨-, hle, -⟩ | ⟨hlen, -, hassigns, hover⟩ | ⟨hbad, hfail⟩
  · omega
  · exact Or.inl ⟨Or.inr ⟨hlen, hassigns⟩, hover⟩
  · rw [List.take_of_length_le hlt.le] at hbad
    refine Or.inr ⟨?_, hfail⟩
    intro hruns
    rcases hruns with hruns | hruns
    · exact hruns.1 hid
    · rcases hbad with hbad | hbad
      · exact hbad hruns.1
      · exact hbad hruns.2

/-! ## The whole function -/

/-- What the numbers of columns and values do to a result: a column behind the last is read only if
there are fewer columns, and otherwise a result is a refusal without a trace or it is not. -/
structure CountsCase (st : Storage) (columns values : List CStr) (within beyond : Prop)
    (result : Status × Storage) : Prop where
  within_bounded : values.length ≤ columns.length → result.1 ≠ .error .overread
  within_iff : values.length ≤ columns.length →
    (result.1 = .error .failed ∧ result.2.files = st.files ↔ ¬ within)
  beyond_over : columns.length < values.length → beyond → result.1 = .error .overread
  beyond_refused : columns.length < values.length → ¬ beyond →
    result.1 = .error .failed ∧ result.2.files = st.files

theorem CountsCase.respects_iff {st : Storage} {columns values : List CStr} {within beyond : Prop}
    {result : Status × Storage} (h : CountsCase st columns values within beyond result) :
    RespectsCounts st columns values result ↔
      ¬ ((values.length < columns.length ∧ within) ∨ (columns.length < values.length ∧ beyond)) := by
  rcases Nat.lt_trichotomy columns.length values.length with hlt | heq | hgt
  · have hiff : ¬ ((values.length < columns.length ∧ within) ∨
        (columns.length < values.length ∧ beyond)) ↔ ¬ beyond := by
      constructor
      · intro hno hbeyond
        exact hno (Or.inr ⟨hlt, hbeyond⟩)
      · intro hno hor
        rcases hor with hor | hor
        · omega
        · exact hno hor.2
    rw [hiff]
    constructor
    · intro hrespects hbeyond
      exact hrespects.bounded (h.beyond_over hlt hbeyond)
    · intro hno
      have hrefused := h.beyond_refused hlt hno
      refine ⟨fun _ => hrefused, ?_⟩
      rw [hrefused.1]
      simp
  · constructor
    · intro _ hor
      omega
    · intro _
      exact ⟨fun hne => absurd heq hne, h.within_bounded heq.ge⟩
  · have hiff : ¬ ((values.length < columns.length ∧ within) ∨
        (columns.length < values.length ∧ beyond)) ↔ ¬ within := by
      constructor
      · intro hno hwithin
        exact hno (Or.inl ⟨hgt, hwithin⟩)
      · intro hno hor
        rcases hor with hor | hor
        · exact hno hor.2
        · omega
    rw [hiff, ← h.within_iff hgt.le]
    constructor
    · intro hrespects
      exact hrespects.rejected (by omega)
    · intro hrefused
      exact ⟨fun _ => hrefused, h.within_bounded hgt.le⟩

/-- A refusal before the numbers matter. -/
theorem respectsCounts_failed {st st' : Storage} (hfiles : st'.files = st.files)
    (columns values : List CStr) : RespectsCounts st columns values (.error .failed, st') :=
  ⟨fun _ => ⟨rfl, hfiles⟩, by simp⟩

theorem countsCase_storageInsert {st : Storage} {table : CStr} {path : Path} {schema : List ColDef}
    {columns values : List CStr} (hshort : table.length ≤ nameMax) (hne : columns ≠ [])
    (hopen : (openTable st table).1 = some (path, schema)) (htable : table ≠ [])
    (hvalues : values ≠ []) :
    CountsCase st columns values (MakesRow st table path schema columns values)
      (RunsOver schema columns values) (storageInsert st table columns values) := by
  obtain ⟨paths, schemas, hsnd⟩ := openTable_snd st table
  unfold storageInsert
  rw [if_neg (by simp [htable, hvalues])]
  rcases hres : openTable st table with ⟨found, st₁⟩
  rw [hres] at hopen hsnd
  obtain rfl : found = some (path, schema) := hopen
  obtain rfl : st₁ = { st with pathCache := paths, schemaCache := schemas } := hsnd
  dsimp only
  cases hid : findSchemaIndex schema "id".toList with
  | some idCol =>
    dsimp only
    refine ⟨?_, ?_, ?_, ?_⟩
    · intro hle
      exact (insertWithId_within hshort hid hne hle).1
    · intro hle
      exact (insertWithId_within hshort hid hne hle).2
    · intro hlt hbeyond
      rcases insertWithId_beyond hid hne hlt with hover | hrefused
      · exact hover.2
      · exact absurd hbeyond hrefused.1
    · intro hlt hno
      rcases insertWithId_beyond hid hne hlt with hover | hrefused
      · exact absurd hover.1 hno
      · exact hrefused.2
  | none =>
    dsimp only
    refine ⟨?_, ?_, ?_, ?_⟩
    · intro hle
      rcases @buildRow_within st table path schema columns values hid hne hle with
        ⟨-, row, hrow⟩ | ⟨-, hfail⟩
      · rw [hrow]
        simp
      · rw [hfail]
        simp
    · intro hle
      rcases @buildRow_within st table path schema columns values hid hne hle with
        ⟨hmakes, row, hrow⟩ | ⟨hno, hfail⟩
      · rw [hrow]
        exact ⟨fun hrefused => absurd hrefused.1 (by simp), fun hno => absurd hmakes hno⟩
      · rw [hfail]
        exact ⟨fun _ => hno, fun _ => ⟨rfl, rfl⟩⟩
    · intro hlt hbeyond
      rcases buildRow_beyond hid hne hlt with ⟨-, hover⟩ | ⟨hno, -⟩
      · rw [hover]
      · exact absurd hbeyond hno
    · intro hlt hno
      rcases buildRow_beyond hid hne hlt with ⟨hbeyond, -⟩ | ⟨-, hfail⟩
      · exact absurd hbeyond hno
      · rw [hfail]
        exact ⟨rfl, rfl⟩

theorem respectsCounts_storageInsert {st : Storage} {table : CStr} {columns values : List CStr}
    (hshort : table.length ≤ nameMax) (hne : columns ≠ []) :
    RespectsCounts st columns values (storageInsert st table columns values) ↔
      ¬ CountsMissed st table columns values := by
  by_cases hempty : table = [] ∨ values = []
  · unfold storageInsert
    rw [if_pos hempty]
    refine ⟨fun _ hmissed => ?_, fun _ => respectsCounts_failed rfl columns values⟩
    rcases hempty with htable | hvalues
    · exact hmissed.1 htable
    · exact hmissed.2.1 hvalues
  have htable : table ≠ [] := fun heq => hempty (Or.inl heq)
  have hvalues : values ≠ [] := fun heq => hempty (Or.inr heq)
  obtain ⟨paths, schemas, hsnd⟩ := openTable_snd st table
  cases hopen : (openTable st table).1 with
  | none =>
    have hresult : storageInsert st table columns values =
        (.error .failed, (openTable st table).2) := by
      unfold storageInsert
      rw [if_neg hempty]
      rcases hres : openTable st table with ⟨found, st₁⟩
      rw [hres] at hopen
      obtain rfl : found = none := hopen
      rfl
    rw [hresult, hsnd]
    refine ⟨fun _ hmissed => ?_, fun _ => @respectsCounts_failed st
      { st with pathCache := paths, schemaCache := schemas } rfl columns values⟩
    obtain ⟨-, -, path, schema, hsome, -⟩ := hmissed
    rw [hopen] at hsome
    exact absurd hsome (by simp)
  | some found =>
    obtain ⟨path, schema⟩ := found
    rw [(countsCase_storageInsert hshort hne hopen htable hvalues).respects_iff]
    apply not_congr
    constructor
    · intro hor
      exact ⟨htable, hvalues, path, schema, hopen, hor⟩
    · intro hmissed
      obtain ⟨-, -, path', schema', hsome, hor⟩ := hmissed
      rw [hopen] at hsome
      obtain ⟨rfl, rfl⟩ := Prod.mk.inj (Option.some.inj hsome)
      exact hor

/-- **A parsed INSERT with a list of columns is refused for a different number of values, and reads no
column behind the last, exactly when the numbers are equal or a check that is made for something else
comes before.** -/
theorem respectsCounts_iff {mem : Uninit} {input : CStr} {sql : ParsedSQL}
    (h : parseSql mem input = some sql) (hne : sql.columns ≠ []) (st : Storage) :
    RespectsCounts st sql.columns sql.values
        (storageInsert st sql.table sql.columns sql.values) ↔
      ¬ CountsMissed st sql.table sql.columns sql.values :=
  respectsCounts_storageInsert (parseSql_from h).table hne

/-- Three columns and two values, on a table `t (id INT, name VARCHAR)`. -/
def threeColumns : CStr := "INSERT INTO t (id, name, age) VALUES (1, 'kim');".toList

theorem respectsCounts_three :
    ∃ sql, parseSql .zero threeColumns = some sql ∧
      (RespectsCounts freshTable sql.columns sql.values
          (storageInsert freshTable sql.table sql.columns sql.values) ↔
        ¬ CountsMissed freshTable sql.table sql.columns sql.values) :=
  ⟨(parseSql .zero threeColumns).getD parsedNew, by decide +kernel,
    @respectsCounts_iff .zero threeColumns _ (by decide +kernel) (by decide +kernel) freshTable⟩

/-- The row with two of three columns is stored, and with one column for two values the search for
the `id` reads behind it. -/
theorem storageInsert_counts :
    (storageInsert freshTable "t".toList ["id".toList, "name".toList, "age".toList]
        ["1".toList, "kim".toList]).1 = .ok () ∧
      (storageInsert freshTable "t".toList ["name".toList]
        ["1".toList, "kim".toList]).1 = .error .overread := by
  decide +kernel

end MiniSql
