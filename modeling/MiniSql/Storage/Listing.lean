import Mathlib.Data.List.Perm.Subperm
import Mathlib.Data.List.Nodup
import MiniSql.Storage.Rows

/-!
# The columns of an INSERT

`build_row_in_schema_order` looks every column up in the schema and refuses a column that it does
not find, that has no name, or of which the cell is filled already. So the columns it takes are a
listing of the schema's, as long as no two of these have the same name.

## Main definitions

* `Names` — the numbers of the columns that a list of columns names.
* `Assigns` — the columns name different columns of the schema.
* `Lists` — the columns are those of the schema in some order, ignoring case.

## Main results

* `fillRow_cases`, `buildRow_cases` — how the loop over the values ends.
* `buildRow_spec` — what the function accepts, and the row that it builds.
-/

namespace MiniSql
open CText

/-! ## The columns that are named -/

/-- The columns name those of the schema with these numbers. -/
def Names (schema : List ColDef) (columns : List CStr) (idx : List ℕ) : Prop :=
  List.Forall₂ (fun c i => c ≠ [] ∧ findSchemaIndex schema c = some i) columns idx

/-- The columns name different columns of the schema. -/
def Assigns (schema : List ColDef) (columns : List CStr) : Prop :=
  ∃ idx, Names schema columns idx ∧ idx.Nodup

theorem Names.lt {schema : List ColDef} {columns : List CStr} {idx : List ℕ}
    (h : Names schema columns idx) : ∀ i ∈ idx, i < schema.length := by
  induction h with
  | nil => simp
  | cons hc _ ih =>
    intro i hi
    rcases List.mem_cons.mp hi with rfl | hi
    · exact findSchemaIndex_lt hc.2
    · exact ih i hi

/-- The columns can be filled: they name different columns, and the cells of these are empty. -/
def Fillable (schema : List ColDef) (columns : List CStr) (cells : List (Option CStr)) : Prop :=
  ∃ idx, Names schema columns idx ∧ idx.Nodup ∧ ∀ i ∈ idx, cells[i]? = some none

theorem fillable_nil (schema : List ColDef) (cells : List (Option CStr)) :
    Fillable schema [] cells := ⟨[], List.Forall₂.nil, List.nodup_nil, by simp⟩

/-- A first column that can be filled, and then the others. -/
theorem fillable_cons {schema : List ColDef} {c : CStr} {columns : List CStr}
    {cells : List (Option CStr)} {i : ℕ} (hc : c ≠ []) (hi : findSchemaIndex schema c = some i)
    (hfree : cells[i]? = some none) (v : CStr) :
    Fillable schema (c :: columns) cells ↔ Fillable schema columns (cells.set i (some v)) := by
  have hlt : i < cells.length := (List.getElem?_eq_some_iff.mp hfree).1
  constructor
  · intro h
    obtain ⟨idx, hnames, hnodup, hcells⟩ := h
    cases hnames with
    | cons hhead hrest =>
      rename_i j idx
      obtain rfl : i = j := Option.some.inj (hi.symm.trans hhead.2)
      refine ⟨idx, hrest, (List.nodup_cons.mp hnodup).2, ?_⟩
      intro j hj
      have hne : i ≠ j := by
        intro heq
        exact (List.nodup_cons.mp hnodup).1 (heq ▸ hj)
      rw [List.getElem?_set_ne hne]
      exact hcells j (List.mem_cons_of_mem _ hj)
  · intro h
    obtain ⟨idx, hnames, hnodup, hcells⟩ := h
    have hnot : i ∉ idx := by
      intro hmem
      have := hcells i hmem
      rw [List.getElem?_set_self hlt] at this
      exact absurd this (by simp)
    refine ⟨i :: idx, List.Forall₂.cons ⟨hc, hi⟩ hnames, List.nodup_cons.mpr ⟨hnot, hnodup⟩, ?_⟩
    intro j hj
    rcases List.mem_cons.mp hj with rfl | hj
    · exact hfree
    · have hne : i ≠ j := by
        intro heq
        exact hnot (heq ▸ hj)
      rw [← hcells j hj, List.getElem?_set_ne hne]

/-- A column that cannot be filled. -/
theorem not_fillable_cons {schema : List ColDef} {c : CStr} {columns : List CStr}
    {cells : List (Option CStr)}
    (h : ∀ i, c ≠ [] → findSchemaIndex schema c = some i → cells[i]? ≠ some none) :
    ¬ Fillable schema (c :: columns) cells := by
  intro hfill
  obtain ⟨idx, hnames, -, hcells⟩ := hfill
  cases hnames with
  | cons hhead hrest => exact h _ hhead.1 hhead.2 (hcells _ List.mem_cons_self)

/-- How the loop over the values ends: with the cells filled, behind the last column, or with a
column that is refused. -/
theorem fillRow_cases (schema : List ColDef) (values columns : List CStr)
    (cells : List (Option CStr)) :
    (values.length ≤ columns.length ∧ Fillable schema (columns.take values.length) cells ∧
        ∃ cells', fillRow schema values columns cells = .ok cells') ∨
      (columns.length < values.length ∧ Fillable schema columns cells ∧
        fillRow schema values columns cells = .error .overread) ∨
      (¬ Fillable schema (columns.take values.length) cells ∧
        fillRow schema values columns cells = .error .failed) := by
  induction values generalizing columns cells with
  | nil => exact Or.inl ⟨Nat.zero_le _, fillable_nil schema cells, cells, rfl⟩
  | cons v values ih =>
    cases columns with
    | nil => exact Or.inr (Or.inl ⟨Nat.succ_pos _, fillable_nil schema cells, rfl⟩)
    | cons c columns =>
      rw [fillRow, List.length_cons, List.length_cons, List.take_succ_cons]
      by_cases hc : c = []
      · rw [if_pos hc]
        exact Or.inr (Or.inr ⟨not_fillable_cons fun i hne => absurd hc hne, rfl⟩)
      rw [if_neg hc]
      cases hi : findSchemaIndex schema c with
      | none =>
        refine Or.inr (Or.inr ⟨not_fillable_cons fun i _ hsome => ?_, rfl⟩)
        rw [hi] at hsome
        exact absurd hsome (by simp)
      | some i =>
        dsimp only
        by_cases hfree : cells[i]? = some none
        · rw [if_pos hfree, fillable_cons hc hi hfree v, fillable_cons hc hi hfree v]
          rcases ih columns (cells.set i (some v)) with h | h | h
          · exact Or.inl ⟨Nat.succ_le_succ h.1, h.2⟩
          · exact Or.inr (Or.inl ⟨Nat.succ_lt_succ h.1, h.2⟩)
          · exact Or.inr (Or.inr h)
        · rw [if_neg hfree]
          refine Or.inr (Or.inr ⟨not_fillable_cons fun j _ hsome => ?_, rfl⟩)
          rw [hi] at hsome
          obtain rfl := Option.some.inj hsome
          exact hfree

/-- In empty cells every column of the schema can be filled. -/
theorem fillable_replicate {schema : List ColDef} {columns : List CStr} :
    Fillable schema columns (List.replicate schema.length none) ↔ Assigns schema columns := by
  constructor
  · intro h
    obtain ⟨idx, hnames, hnodup, -⟩ := h
    exact ⟨idx, hnames, hnodup⟩
  · intro h
    obtain ⟨idx, hnames, hnodup⟩ := h
    refine ⟨idx, hnames, hnodup, ?_⟩
    intro i hi
    rw [List.getElem?_replicate, if_pos (hnames.lt i hi)]

/-! ## The row -/

/-- Different numbers below a bound, as many as that, are all the numbers below it. -/
theorem mem_of_nodup_of_length {idx : List ℕ} {n : ℕ} (hlt : ∀ i ∈ idx, i < n) (hnodup : idx.Nodup)
    (hlen : idx.length = n) : idx.Perm (List.range n) := by
  have hsub : idx ⊆ List.range n := by
    intro i hi
    exact List.mem_range.mpr (hlt i hi)
  apply (List.subperm_of_subset hnodup hsub).perm_of_length_le
  rw [List.length_range, hlen]

/-- As many different columns as the schema has are all of them. -/
theorem exists_named {schema : List ColDef} {columns : List CStr}
    (h : Assigns schema columns) (hlen : columns.length = schema.length) {j : ℕ}
    (hj : j < schema.length) :
    ∃ (k : ℕ) (c : CStr), columns[k]? = some c ∧ findSchemaIndex schema c = some j := by
  obtain ⟨idx, hnames, hnodup⟩ := h
  have hall := mem_of_nodup_of_length hnames.lt hnodup (hnames.length_eq.symm.trans hlen)
  have hmem : j ∈ idx := hall.mem_iff.mpr (List.mem_range.mpr hj)
  obtain ⟨k, hk⟩ := List.mem_iff_getElem?.mp hmem
  have hk' : k < idx.length := (List.getElem?_eq_some_iff.mp hk).1
  have hk'' : k < columns.length := by
    rw [hnames.length_eq]
    exact hk'
  have hboth := (List.forall₂_iff_get.mp hnames).2 k hk'' hk'
  refine ⟨k, columns.get ⟨k, hk''⟩, by simp, ?_⟩
  rw [hboth.2, List.get_eq_getElem, (List.getElem?_eq_some_iff.mp hk).2]

/-- No cell is left empty when as many values are placed as there are columns. -/
theorem none_not_mem_fillRow {schema : List ColDef} {values columns : List CStr}
    {cells : List (Option CStr)}
    (h : fillRow schema values columns (List.replicate schema.length none) = .ok cells)
    (hassigns : Assigns schema (columns.take values.length)) (hle : values.length ≤ columns.length)
    (hlen : values.length = schema.length) : none ∉ cells := by
  intro hmem
  obtain ⟨j, hj⟩ := List.mem_iff_getElem?.mp hmem
  have hlt : j < schema.length := by
    have := (List.getElem?_eq_some_iff.mp hj).1
    rwa [length_fillRow h, List.length_replicate] at this
  have htake : (columns.take values.length).length = schema.length := by
    rw [List.length_take, Nat.min_eq_left hle, hlen]
  obtain ⟨k, c, hc, hfind⟩ := exists_named hassigns htake hlt
  have hk : k < values.length := by
    have := (List.getElem?_eq_some_iff.mp hc).1
    rwa [htake, ← hlen] at this
  rw [List.getElem?_take_of_lt hk] at hc
  have hcell := fillRow_getElem? h (List.getElem?_eq_getElem hk) hc hfind
  rw [hj] at hcell
  exact absurd hcell (by simp)

/-- How `build_row_in_schema_order` ends when there is a list of columns. -/
theorem buildRow_cases {schema : List ColDef} {columns values : List CStr} (hne : columns ≠ []) :
    (values.length = schema.length ∧ values.length ≤ columns.length ∧
        Assigns schema (columns.take values.length) ∧
        ∃ row, buildRowInSchemaOrder schema columns values = .ok row) ∨
      (values.length = schema.length ∧ columns.length < values.length ∧ Assigns schema columns ∧
        buildRowInSchemaOrder schema columns values = .error .overread) ∨
      ((values.length ≠ schema.length ∨ ¬ Assigns schema (columns.take values.length)) ∧
        buildRowInSchemaOrder schema columns values = .error .failed) := by
  unfold buildRowInSchemaOrder
  by_cases hlen : values.length = schema.length
  · rw [if_neg (not_not.mpr hlen), if_neg hne]
    have hcases := fillRow_cases schema values columns (List.replicate schema.length none)
    rw [fillable_replicate, fillable_replicate] at hcases
    rcases hcases with ⟨hle, hassigns, cells, hfill⟩ | ⟨hlt, hassigns, hfill⟩ | ⟨hnot, hfill⟩
    · rw [hfill]
      dsimp only
      rw [if_neg (none_not_mem_fillRow hfill hassigns hle hlen)]
      exact Or.inl ⟨hlen, hle, hassigns, _, rfl⟩
    · rw [hfill]
      exact Or.inr (Or.inl ⟨hlen, hlt, hassigns, rfl⟩)
    · rw [hfill]
      exact Or.inr (Or.inr ⟨Or.inr hnot, rfl⟩)
  · rw [if_pos hlen]
    exact Or.inr (Or.inr ⟨Or.inl hlen, rfl⟩)

/-! ## Listings -/

/-- A name as `equals_ignore_case` sees it. -/
def lowerName (s : CStr) : CStr := s.map Char.toLower

/-- The columns are those of the schema in some order, ignoring case. -/
def Lists (schema : List ColDef) (columns : List CStr) : Prop :=
  (columns.map lowerName).Perm (schema.map fun d => lowerName d.name)

/-- No two columns of the schema have names that differ only in case. -/
def Distinct (schema : List ColDef) : Prop := (schema.map fun d => lowerName d.name).Nodup

instance (schema : List ColDef) : Decidable (Distinct schema) :=
  inferInstanceAs (Decidable (List.Nodup _))

instance (schema : List ColDef) (columns : List CStr) : Decidable (Lists schema columns) :=
  inferInstanceAs (Decidable (List.Perm _ _))

theorem lowerName_of_find {schema : List ColDef} {c : CStr} {i : ℕ}
    (h : findSchemaIndex schema c = some i) :
    (schema.map fun d => lowerName d.name)[i]? = some (lowerName c) := by
  obtain ⟨hlt, hname, -⟩ := List.findIdx?_eq_some_iff_getElem.mp h
  rw [List.getElem?_map, List.getElem?_eq_getElem hlt, Option.map_some, Option.some.injEq]
  exact equalsIgnoreCase_iff.mp hname

/-- A column with a name of the schema is found. -/
theorem exists_find {schema : List ColDef} {c : CStr}
    (h : lowerName c ∈ schema.map fun d => lowerName d.name) :
    ∃ i, findSchemaIndex schema c = some i := by
  obtain ⟨d, hd, hname⟩ := List.mem_map.mp h
  apply Option.ne_none_iff_exists'.mp
  intro hnone
  have hne := findSchemaIndex_eq_none.mp hnone d hd
  rw [equalsIgnoreCase_iff.mpr hname] at hne
  exact absurd hne (by simp)

/-- Of columns with names that differ only in case the first is found. -/
theorem find_unique {schema : List ColDef} {c : CStr} {i j : ℕ} {d : ColDef} (hij : i < j)
    (hd : schema[i]? = some d) (h : findSchemaIndex schema c = some j) :
    lowerName d.name ≠ lowerName c := by
  intro hname
  obtain ⟨hlt, -, hfirst⟩ := List.findIdx?_eq_some_iff_getElem.mp h
  have hno := hfirst i hij
  have hget : schema[i] = d := (List.getElem?_eq_some_iff.mp hd).2
  rw [hget, equalsIgnoreCase_iff.mpr hname] at hno
  exact hno rfl

theorem Names.map_lower {schema : List ColDef} {columns : List CStr} {idx : List ℕ}
    (h : Names schema columns idx) :
    (columns.map lowerName).map some = idx.map fun i => (schema.map fun d => lowerName d.name)[i]? := by
  induction h with
  | nil => rfl
  | cons hc _ ih =>
    rw [List.map_cons, List.map_cons, List.map_cons, ih, lowerName_of_find hc.2]

/-- **The columns name different columns of the schema, as many as it has, exactly when they list
these and no two of these have the same name.** -/
theorem assigns_iff {schema : List ColDef} {columns : List CStr}
    (hlen : columns.length = schema.length) :
    Assigns schema columns ↔ Lists schema columns ∧ Distinct schema ∧ [] ∉ columns := by
  constructor
  · intro h
    have hnamed : ∀ j, j < schema.length → ∃ c, findSchemaIndex schema c = some j := by
      intro j hj
      obtain ⟨k, c, -, hfind⟩ := exists_named h hlen hj
      exact ⟨c, hfind⟩
    obtain ⟨idx, hnames, hnodup⟩ := h
    refine ⟨?_, ?_, ?_⟩
    · have hall := mem_of_nodup_of_length hnames.lt hnodup (hnames.length_eq.symm.trans hlen)
      have hperm := hall.map fun i => (schema.map fun d => lowerName d.name)[i]?
      have hrange : (List.range schema.length).map
          (fun i => (schema.map fun d => lowerName d.name)[i]?) =
            (schema.map fun d => lowerName d.name).map some := by
        apply List.ext_getElem?
        intro i
        rw [List.getElem?_map, List.getElem?_map]
        by_cases hi : i < schema.length
        · rw [List.getElem?_range hi, List.getElem?_map, Option.map_some, List.getElem?_map,
            List.getElem?_eq_getElem hi]
          rfl
        · rw [List.getElem?_eq_none (by simpa using hi), List.getElem?_eq_none (by simpa using hi)]
          rfl
      rw [hrange, ← hnames.map_lower] at hperm
      exact (List.map_perm_map_iff (Option.some_injective _)).mp hperm
    · apply List.nodup_iff_getElem?_ne_getElem?.mpr
      intro i j hij hj heq
      rw [List.length_map] at hj
      obtain ⟨c, hc⟩ := hnamed j hj
      have hi : i < schema.length := by omega
      apply find_unique hij (List.getElem?_eq_getElem hi) hc
      have hname := lowerName_of_find hc
      rw [← heq, List.getElem?_map, List.getElem?_eq_getElem hi, Option.map_some,
        Option.some.injEq] at hname
      exact hname
    · intro hnil
      obtain ⟨k, hk⟩ := List.mem_iff_getElem?.mp hnil
      have hk' := (List.getElem?_eq_some_iff.mp hk).1
      have hboth := (List.forall₂_iff_get.mp hnames).2 k hk' (by rw [← hnames.length_eq]; exact hk')
      apply hboth.1
      rw [List.get_eq_getElem]
      exact (List.getElem?_eq_some_iff.mp hk).2
  · intro h
    obtain ⟨hlists, hdistinct, hnil⟩ := h
    have hfind : ∀ c ∈ columns, ∃ i, c ≠ [] ∧ findSchemaIndex schema c = some i := by
      intro c hc
      obtain ⟨i, hi⟩ := exists_find (hlists.mem_iff.mp (List.mem_map_of_mem hc))
      exact ⟨i, fun heq => hnil (heq ▸ hc), hi⟩
    have hidx : ∃ idx, Names schema columns idx := by
      clear hlen hlists hnil
      induction columns with
      | nil => exact ⟨[], List.Forall₂.nil⟩
      | cons c columns ih =>
        obtain ⟨i, hi⟩ := hfind c List.mem_cons_self
        obtain ⟨idx, hrest⟩ := ih fun d hd => hfind d (List.mem_cons_of_mem _ hd)
        exact ⟨i :: idx, List.Forall₂.cons hi hrest⟩
    obtain ⟨idx, hnames⟩ := hidx
    refine ⟨idx, hnames, ?_⟩
    have hnodup : ((columns.map lowerName).map some).Nodup :=
      (hlists.nodup_iff.mpr hdistinct).map (Option.some_injective _)
    rw [hnames.map_lower] at hnodup
    exact hnodup.of_map

/-! ## The order of the columns -/

/-- The same columns, each with the same value, in another order. -/
structure Reordered (columns values columns' values' : List CStr) : Prop where
  length : columns'.length = values'.length
  perm : (columns.zip values).Perm (columns'.zip values')

theorem mem_zip_iff {columns values : List CStr} {c v : CStr} :
    (c, v) ∈ columns.zip values ↔ ∃ i : ℕ, columns[i]? = some c ∧ values[i]? = some v := by
  rw [List.mem_iff_getElem?]
  constructor
  · intro h
    obtain ⟨i, hi⟩ := h
    exact ⟨i, List.getElem?_zip_eq_some.mp hi⟩
  · intro h
    obtain ⟨i, hi⟩ := h
    exact ⟨i, List.getElem?_zip_eq_some.mpr hi⟩

/-- A cell of a built row is the value of its column. -/
theorem buildRow_mem_zip {schema : List ColDef} {columns values : List CStr} {row : Row}
    (hne : columns ≠ []) (h : buildRowInSchemaOrder schema columns values = .ok row) {j : ℕ}
    {v : CStr} : row[j]? = some v ↔
      ∃ c, (c, v) ∈ columns.zip values ∧ findSchemaIndex schema c = some j := by
  constructor
  · intro hj
    rcases buildRow_cell h hj with ⟨hnil, -⟩ | ⟨i, c, hv, hc, hfind⟩
    · exact absurd hnil hne
    · exact ⟨c, mem_zip_iff.mpr ⟨i, hc, hv⟩, hfind⟩
  · intro hgives
    obtain ⟨c, hmem, hfind⟩ := hgives
    obtain ⟨i, hc, hv⟩ := mem_zip_iff.mp hmem
    exact buildRow_getElem? h hv hc hfind

theorem buildRow_reordered {schema : List ColDef} {columns values columns' values' : List CStr}
    (hlen : columns.length = values.length) (h : Reordered columns values columns' values') :
    buildRowInSchemaOrder schema columns' values' = buildRowInSchemaOrder schema columns values := by
  have hcolumns : columns.Perm columns' := by
    have := h.perm.map Prod.fst
    rwa [List.map_fst_zip hlen.le, List.map_fst_zip h.length.le] at this
  have hlength := hcolumns.length_eq
  have hvalues : values'.length = values.length := by rw [← h.length, ← hlength, hlen]
  by_cases hnil : columns = []
  · subst hnil
    obtain rfl : columns' = [] := hcolumns.symm.eq_nil
    obtain rfl : values = [] := List.length_eq_zero_iff.mp hlen.symm
    obtain rfl : values' = [] := List.length_eq_zero_iff.mp hvalues
    rfl
  have hnil' : columns' ≠ [] := by
    intro heq
    subst heq
    exact hnil hcolumns.eq_nil
  have htake : columns.take values.length = columns := List.take_of_length_le hlen.le
  have htake' : columns'.take values'.length = columns' := List.take_of_length_le h.length.le
  have hassigns : values.length = schema.length → (Assigns schema columns ↔ Assigns schema columns') := by
    intro hschema
    rw [assigns_iff (hlen.trans hschema), assigns_iff (hlength ▸ hlen.trans hschema),
      hcolumns.mem_iff]
    exact and_congr_left' ⟨fun hl => (hcolumns.map lowerName).symm.trans hl,
      fun hl => (hcolumns.map lowerName).trans hl⟩
  have hcases := @buildRow_cases schema columns values hnil
  have hcases' := @buildRow_cases schema columns' values' hnil'
  rw [htake] at hcases
  rw [htake', hvalues, ← hlength] at hcases'
  rcases hcases with ⟨hschema, -, hok, row, hrow⟩ | ⟨-, hlt, -⟩ | ⟨hbad, hfail⟩
  · rcases hcases' with ⟨-, -, -, row', hrow'⟩ | ⟨-, hlt, -⟩ | ⟨hbad, -⟩
    · rw [hrow, hrow', Except.ok.injEq]
      apply List.ext_getElem?
      intro j
      apply Option.ext
      intro v
      rw [buildRow_mem_zip hnil' hrow', buildRow_mem_zip hnil hrow]
      constructor
      · intro hgives
        obtain ⟨c, hmem, hfind⟩ := hgives
        exact ⟨c, h.perm.mem_iff.mpr hmem, hfind⟩
      · intro hgives
        obtain ⟨c, hmem, hfind⟩ := hgives
        exact ⟨c, h.perm.mem_iff.mp hmem, hfind⟩
    · omega
    · rcases hbad with hbad | hbad
      · exact absurd hschema hbad
      · exact absurd ((hassigns hschema).mp hok) hbad
  · omega
  · rcases hcases' with ⟨hschema, -, hok, -⟩ | ⟨-, hlt, -⟩ | ⟨-, hfail'⟩
    · rcases hbad with hbad | hbad
      · exact absurd hschema hbad
      · exact absurd ((hassigns hschema).mpr hok) hbad
    · omega
    · rw [hfail, hfail']

/-! ## What the function accepts -/

/-- What `build_row_in_schema_order` makes of columns and as many values: when it succeeds, where the
values go, and that their order does not matter. -/
structure RowSpec (schema : List ColDef) (columns values : List CStr) : Prop where
  accepts : (∃ row, buildRowInSchemaOrder schema columns values = .ok row) ↔
    Lists schema columns ∧ Distinct schema ∧ [] ∉ columns
  cells : ∀ row, buildRowInSchemaOrder schema columns values = .ok row →
    row.length = schema.length ∧ ∀ (k : ℕ) (d : ColDef), schema[k]? = some d →
      ∃ (i : ℕ) (c v : CStr), columns[i]? = some c ∧ values[i]? = some v ∧
        equalsIgnoreCase c d.name = true ∧ row[k]? = some v
  order : ∀ columns' values', Reordered columns values columns' values' →
    buildRowInSchemaOrder schema columns' values' = buildRowInSchemaOrder schema columns values

theorem buildRow_nil_iff {schema : List ColDef} :
    (∃ row, buildRowInSchemaOrder schema [] [] = .ok row) ↔
      Lists schema [] ∧ Distinct schema ∧ [] ∉ ([] : List CStr) := by
  cases schema with
  | nil => exact ⟨fun _ => ⟨List.Perm.nil, List.nodup_nil, by simp⟩, fun _ => ⟨[], rfl⟩⟩
  | cons d schema =>
    constructor
    · intro h
      obtain ⟨row, hrow⟩ := h
      have := length_buildRow hrow
      exact absurd hrow (by simp [buildRowInSchemaOrder])
    · intro h
      exact absurd h.1.length_eq (by simp)

/-- **Given as many values as columns, `build_row_in_schema_order` succeeds exactly when the columns
list those of the schema, which have different names; every cell is the value of its column.** -/
theorem buildRow_spec {schema : List ColDef} {columns values : List CStr}
    (hlen : columns.length = values.length) : RowSpec schema columns values := by
  have haccepts : (∃ row, buildRowInSchemaOrder schema columns values = .ok row) ↔
      Lists schema columns ∧ Distinct schema ∧ [] ∉ columns := by
    by_cases hnil : columns = []
    · subst hnil
      obtain rfl : values = [] := List.length_eq_zero_iff.mp hlen.symm
      exact buildRow_nil_iff
    have htake : columns.take values.length = columns := List.take_of_length_le hlen.le
    have hcases := @buildRow_cases schema columns values hnil
    rw [htake] at hcases
    rcases hcases with ⟨hschema, -, hok, hrow⟩ | ⟨-, hlt, -⟩ | ⟨hbad, hfail⟩
    · rw [assigns_iff (hlen.trans hschema)] at hok
      exact ⟨fun _ => hok, fun _ => hrow⟩
    · omega
    · constructor
      · intro h
        obtain ⟨row, hrow⟩ := h
        rw [hfail] at hrow
        exact absurd hrow (by simp)
      · intro h
        have hschema : columns.length = schema.length := by
          have := h.1.length_eq
          rwa [List.length_map, List.length_map] at this
        rcases hbad with hbad | hbad
        · exact absurd (hlen.symm.trans hschema) hbad
        · exact absurd ((assigns_iff hschema).mpr h) hbad
  refine ⟨haccepts, ?_, fun columns' values' h => buildRow_reordered hlen h⟩
  intro row hrow
  refine ⟨length_buildRow hrow, ?_⟩
  intro k d hd
  obtain ⟨hlists, hdistinct, hempty⟩ := haccepts.mp ⟨row, hrow⟩
  have hschema : columns.length = schema.length := by
    have := hlists.length_eq
    rwa [List.length_map, List.length_map] at this
  have hk : k < schema.length := (List.getElem?_eq_some_iff.mp hd).1
  obtain ⟨i, c, hc, hfind⟩ :=
    exists_named ((assigns_iff hschema).mpr ⟨hlists, hdistinct, hempty⟩) hschema hk
  have hi : i < values.length := by
    rw [← hlen]
    exact (List.getElem?_eq_some_iff.mp hc).1
  refine ⟨i, c, values[i], hc, List.getElem?_eq_getElem hi, ?_, ?_⟩
  · have hname := lowerName_of_find hfind
    rw [List.getElem?_map, hd, Option.map_some, Option.some.injEq] at hname
    exact equalsIgnoreCase_iff.mpr hname.symm
  · exact buildRow_getElem? hrow (List.getElem?_eq_getElem hi) hc hfind

/-- The schema and the columns of `test_insert_named_columns_success`. -/
def namedSchema : List ColDef :=
  [⟨"id".toList, .int⟩, ⟨"name".toList, .varchar⟩, ⟨"age".toList, .int⟩]

theorem buildRow_spec_named :
    RowSpec namedSchema ["name".toList, "age".toList, "id".toList]
      ["kim".toList, "20".toList, "1".toList] :=
  buildRow_spec rfl

/-- Where two columns of the schema have names that differ only in case, a list of both is
refused. -/
theorem buildRow_same_name :
    Lists [⟨"id".toList, .int⟩, ⟨"ID".toList, .int⟩] ["id".toList, "ID".toList] ∧
      buildRowInSchemaOrder [⟨"id".toList, .int⟩, ⟨"ID".toList, .int⟩]
        ["id".toList, "ID".toList] ["1".toList, "2".toList] = .error .failed := by
  decide +kernel

end MiniSql
