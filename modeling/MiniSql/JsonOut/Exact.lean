import MiniSql.JsonOut

/-!
# What the JSON text says of a statement

A reader of the objects of `printJson`, for which a field without a member is empty. It finds what
was written, but the links of two or more conditions are written twice under the same name, and the
upper bound of a `BETWEEN` is not written at all.

## Main definitions

* `ofJson` — the statement that an object describes.
* `JsonExact`, `JsonPrintable` — what is claimed of the text, and when it holds.

## Main results

* `ofJson_jsonValue` — what is read back.
* `nodup_names_iff` — when the names of the members differ.
* `jsonExact_iff` — when the text is as claimed.
* `printJson_bounds` — no reader can find the upper bounds.
-/

namespace MiniSql
open CText Json

/-! ## What the object describes -/

def textOf : Option Value → CStr
  | some (.str s) => s
  | _ => []

def itemsOf : Option Value → List Value
  | some (.arr values) => values
  | _ => []

def textsOf (v : Option Value) : List CStr := (itemsOf v).map fun item => textOf (some item)

def flagOf : Option Value → Bool
  | some (.bool b) => b
  | _ => false

/-- A number without a sign; `-1` stands for none. -/
def countOf : Option Value → ℤ
  | some (.num t) => digitsValue t
  | _ => -1

/-- The kind with a name. -/
def typeOf (name : CStr) : QueryType :=
  if name = "SELECT".toList then .select
  else if name = "INSERT".toList then .insert
  else if name = "DELETE".toList then .delete
  else if name = "UPDATE".toList then .update
  else if name = "CREATE".toList then .create
  else .unknown

/-- The statement that an object describes: a field without a member is empty. No member of a
condition holds its upper bound. -/
def ofJson (v : Value) : ParsedSQL where
  type := typeOf (textOf (v.field "type".toList))
  table := textOf (v.field "table".toList)
  columns := textsOf (v.field "columns".toList)
  values := textsOf (v.field "values".toList)
  conds := (itemsOf (v.field "where".toList)).map fun w =>
    ⟨textOf (w.field "column".toList), textOf (w.field "op".toList),
      textOf (w.field "value".toList), []⟩
  whereLogic := textOf (v.field "where_logic".toList)
  whereLinks := textsOf (v.field "where_links".toList)
  orderBy := (v.field "order_by".toList).map fun o =>
    ⟨textOf (o.field "column".toList), flagOf (o.field "asc".toList)⟩
  limit := countOf (v.field "limit".toList)
  sets := (itemsOf (v.field "set".toList)).map fun s =>
    ⟨textOf (s.field "column".toList), textOf (s.field "value".toList)⟩
  colDefs := textsOf (v.field "col_defs".toList)

section Members

variable {sql : ParsedSQL}

theorem lookup_cons_or (key : CStr) (m : CStr × Value) (ms : List (CStr × Value)) :
    (m :: ms).lookup key = (if key = m.1 then some m.2 else none).or (ms.lookup key) := by
  rw [List.lookup_cons]
  by_cases hkey : key = m.1
  · rw [if_pos hkey, beq_iff_eq.mpr hkey]
    rfl
  · rw [if_neg hkey, beq_eq_false_iff_ne.mpr hkey, Option.none_or]

/-- The member of a name, in a part of the list of members. -/
theorem lookup_optional {p : Prop} [Decidable p] (key name : CStr) (v : Value) (text : CStr) :
    ((if p then [(name, v, text)] else []).map fun m => (m.1, m.2.1)).lookup key =
      if p ∧ key = name then some v else none := by
  by_cases hp : p
  · simp only [hp, if_true, true_and, List.map_cons, List.map_nil, lookup_cons_or, List.lookup_nil,
      Option.or_none]
  · simp only [hp, if_false, false_and, List.map_nil, List.lookup_nil]

/-- The members of a statement with at most one condition. -/
theorem field_jsonValue (hfew : sql.conds.length ≤ 1) (hlogic : sql.whereLogic = []) (key : CStr) :
    (jsonValue sql).field key =
      (if key = "type".toList then some (.str (qtypeStr sql.type)) else none).or
      ((if key = "table".toList then some (.str sql.table) else none).or
      ((if 0 < sql.columns.length ∧ key = "columns".toList then
          some (stringsValue sql.columns) else none).or
      ((if 0 < sql.values.length ∧ key = "values".toList then
          some (stringsValue sql.values) else none).or
      ((if 0 < sql.colDefs.length ∧ key = "col_defs".toList then
          some (stringsValue sql.colDefs) else none).or
      ((if 0 < sql.conds.length ∧ key = "where".toList then
          some (.arr (sql.conds.map conditionObject)) else none).or
      ((if 0 < sql.sets.length ∧ key = "set".toList then
          some (.arr (sql.sets.map assignmentObject)) else none).or
      ((if key = "order_by".toList then sql.orderBy.map orderByObject else none).or
      (if 0 ≤ sql.limit ∧ key = "limit".toList then
          some (.num (intText sql.limit)) else none)))))))) := by
  have hmany : ¬ 1 < sql.conds.length := not_lt.mpr hfew
  have horder : (((sql.orderBy.map fun o =>
      [("order_by".toList, orderByObject o, emitOrderBy o)]).getD []).map
        fun m => (m.1, m.2.1)).lookup key =
        if key = "order_by".toList then sql.orderBy.map orderByObject else none := by
    cases sql.orderBy with
    | none => exact (ite_self none).symm
    | some o => exact (lookup_cons_or key _ []).trans (Option.or_none)
  have hwhere : ∀ (w : CStr × Value × CStr), (if 0 < sql.conds.length then [w] ++
      (if 1 < sql.conds.length then
        [("where_links".toList, stringsValue (writtenLinks sql), emitLinks sql)] else []) ++
      (if 1 < sql.conds.length ∧ sql.whereLinks ≠ [] then
        [("where_links".toList, stringsValue (sql.whereLinks.take (sql.conds.length - 1)),
          emitStrArray (sql.whereLinks.take (sql.conds.length - 1)))]
      else if sql.whereLogic ≠ [] then
        [("where_logic".toList, .str sql.whereLogic, emitStr sql.whereLogic)]
      else []) else []) = if 0 < sql.conds.length then [w] else [] := by
    intro w
    simp only [hmany, hlogic, if_false, false_and, ne_eq, not_true_eq_false, List.append_nil]
  rw [jsonValue, Value.field, jsonMembers, hwhere]
  simp only [List.map_append, List.lookup_append, lookup_optional, horder, Option.or_assoc,
    List.map_cons, List.map_nil, lookup_cons_or, List.lookup_nil, Option.or_none]

/-- An optional list of strings. -/
theorem textsOf_strings (xs : List CStr) :
    textsOf (if 0 < xs.length then some (stringsValue xs) else none) = xs := by
  have htexts : textsOf (some (stringsValue xs)) = xs := by
    have hmap : textsOf (some (stringsValue xs)) =
        (xs.map Value.str).map fun item => textOf (some item) := rfl
    rw [hmap, List.map_map]
    exact List.map_id xs
  cases xs with
  | nil => rfl
  | cons x xs => exact htexts

/-- An optional list of objects. -/
theorem map_itemsOf {α β : Type} (xs : List α) (object : α → Value) (read : Value → β) :
    (itemsOf (if 0 < xs.length then some (.arr (xs.map object)) else none)).map read =
      xs.map fun x => read (object x) := by
  cases xs with
  | nil => rfl
  | cons x xs => exact List.map_map

theorem typeOf_qtypeStr (type : QueryType) : typeOf (qtypeStr type) = type := by
  cases type <;> decide

/-- A number that is written is read back. -/
theorem countOf_limit (limit : ℤ) :
    countOf (if 0 ≤ limit then some (.num (intText limit)) else none) =
      if 0 ≤ limit then limit else -1 := by
  by_cases hpos : 0 ≤ limit
  · obtain ⟨n, rfl⟩ := Int.eq_ofNat_of_zero_le hpos
    rw [if_pos hpos, if_pos hpos]
    exact congrArg Int.ofNat (digitsValue_toDigits n)
  · rw [if_neg hpos, if_neg hpos]
    rfl

/-- The statement without upper bounds, and with no other negative `LIMIT` than -1. -/
def ParsedSQL.described (sql : ParsedSQL) : ParsedSQL :=
  { sql with
    conds := sql.conds.map fun w => { w with valueTo := [] }
    limit := if 0 ≤ sql.limit then sql.limit else -1 }

theorem described_eq_iff :
    sql.described = sql ↔ (∀ w ∈ sql.conds, w.valueTo = []) ∧ -1 ≤ sql.limit := by
  have hlimit : (if 0 ≤ sql.limit then sql.limit else -1) = sql.limit ↔ -1 ≤ sql.limit := by
    split_ifs <;> omega
  have hconds : (sql.conds.map fun w => { w with valueTo := [] }) = sql.conds ↔
      ∀ w ∈ sql.conds, w.valueTo = [] := by
    constructor
    · intro h w hw
      have hsame := List.map_inj_left.mp (h.trans (List.map_id _).symm) w hw
      exact (congrArg WhereClause.valueTo hsame).symm
    · intro h
      refine (List.map_congr_left fun w hw => ?_).trans (List.map_id sql.conds)
      rw [id_eq, ← h w hw]
  constructor
  · intro h
    exact ⟨hconds.mp (congrArg ParsedSQL.conds h), hlimit.mp (congrArg ParsedSQL.limit h)⟩
  · intro h
    rw [ParsedSQL.described, hconds.mpr h.1, hlimit.mpr h.2]

/-- **A statement with at most one condition is read back without upper bounds.** -/
theorem ofJson_jsonValue (hfew : sql.conds.length ≤ 1) (hlinks : sql.whereLinks = [])
    (hlogic : sql.whereLogic = []) : ofJson (jsonValue sql) = sql.described := by
  have hfield := field_jsonValue hfew hlogic
  have htype : (jsonValue sql).field "type".toList = some (.str (qtypeStr sql.type)) := by
    rw [hfield]
    rfl
  have htable : (jsonValue sql).field "table".toList = some (.str sql.table) := by
    rw [hfield]
    rfl
  have hcolumns : (jsonValue sql).field "columns".toList =
      if 0 < sql.columns.length then some (stringsValue sql.columns) else none := by
    rw [hfield]
    simp
  have hvalues : (jsonValue sql).field "values".toList =
      if 0 < sql.values.length then some (stringsValue sql.values) else none := by
    rw [hfield]
    simp
  have hcolDefs : (jsonValue sql).field "col_defs".toList =
      if 0 < sql.colDefs.length then some (stringsValue sql.colDefs) else none := by
    rw [hfield]
    simp
  have hwhere : (jsonValue sql).field "where".toList =
      if 0 < sql.conds.length then some (.arr (sql.conds.map conditionObject)) else none := by
    rw [hfield]
    simp
  have hset : (jsonValue sql).field "set".toList =
      if 0 < sql.sets.length then some (.arr (sql.sets.map assignmentObject)) else none := by
    rw [hfield]
    simp
  have horder : (jsonValue sql).field "order_by".toList = sql.orderBy.map orderByObject := by
    rw [hfield]
    simp
  have hlimit : (jsonValue sql).field "limit".toList =
      if 0 ≤ sql.limit then some (.num (intText sql.limit)) else none := by
    rw [hfield]
    simp
  have hlinksField : (jsonValue sql).field "where_links".toList = none := by
    rw [hfield]
    simp
  have hlogicField : (jsonValue sql).field "where_logic".toList = none := by
    rw [hfield]
    simp
  have hread : (sql.orderBy.map orderByObject).map (fun o =>
      (⟨textOf (o.field "column".toList), flagOf (o.field "asc".toList)⟩ : OrderBy)) =
        sql.orderBy := by
    rw [Option.map_map]
    exact Option.map_id_apply
  have hsets : sql.sets.map (fun s => (⟨textOf ((assignmentObject s).field "column".toList),
      textOf ((assignmentObject s).field "value".toList)⟩ : SetClause)) = sql.sets :=
    List.map_id sql.sets
  rw [ofJson, htype, htable, hcolumns, hvalues, hcolDefs, hwhere, hset, horder, hlimit, hlinksField,
    hlogicField, textsOf_strings, textsOf_strings, textsOf_strings, map_itemsOf, map_itemsOf, hread,
    countOf_limit, hsets, textOf, textOf, typeOf_qtypeStr, ParsedSQL.described]
  rw [hlinks, hlogic]
  rfl

/-- **The names of the members differ exactly if there is at most one condition.** -/
theorem nodup_names_iff (hlinks : 1 < sql.conds.length → sql.whereLinks ≠ []) :
    ((jsonMembers sql).map Prod.fst).Nodup ↔ sql.conds.length ≤ 1 := by
  have hoptional : ∀ {p : Prop} [Decidable p] {name : CStr} {v : Value} {text : CStr},
      ((if p then [(name, v, text)] else []).map Prod.fst).Sublist [name] := by
    intro p _ name v text
    split
    · exact List.Sublist.refl _
    · exact List.nil_sublist _
  have horder : ((sql.orderBy.map fun o =>
      [("order_by".toList, orderByObject o, emitOrderBy o)]).getD []).map Prod.fst |>.Sublist
        ["order_by".toList] := by
    cases sql.orderBy with
    | none => exact List.nil_sublist _
    | some o => exact List.Sublist.refl _
  constructor
  · intro hnodup
    by_contra hmany
    rw [not_le] at hmany
    have hpos : 0 < sql.conds.length := by omega
    have htwice : ["where_links".toList, "where_links".toList].Sublist
        ((jsonMembers sql).map Prod.fst) := by
      rw [jsonMembers, if_pos hpos, if_pos hmany, if_pos (And.intro hmany (hlinks hmany))]
      simp only [List.map_append]
      apply List.sublist_append_of_sublist_left
      apply List.sublist_append_of_sublist_left
      apply List.sublist_append_of_sublist_left
      apply List.sublist_append_of_sublist_right
      exact List.sublist_cons_self _ _
    exact absurd (hnodup.sublist htwice) (by decide)
  · intro hfew
    have hmany : ¬ 1 < sql.conds.length := not_lt.mpr hfew
    have hall : (["type".toList, "table".toList] ++ ["columns".toList] ++ ["values".toList] ++
        ["col_defs".toList] ++ ["where".toList, "where_logic".toList] ++ ["set".toList] ++
        ["order_by".toList] ++ ["limit".toList]).Nodup := by decide
    have hlogic : ((if sql.whereLogic ≠ [] then
        [("where_logic".toList, Value.str sql.whereLogic, emitStr sql.whereLogic)]
      else []).map Prod.fst).Sublist ["where_logic".toList] := hoptional
    have hwhere : ∀ w : Value × CStr, ((if 0 < sql.conds.length then
        [("where".toList, w)] ++
        (if 1 < sql.conds.length then
          [("where_links".toList, stringsValue (writtenLinks sql), emitLinks sql)] else []) ++
        (if 1 < sql.conds.length ∧ sql.whereLinks ≠ [] then
          [("where_links".toList, stringsValue (sql.whereLinks.take (sql.conds.length - 1)),
            emitStrArray (sql.whereLinks.take (sql.conds.length - 1)))]
        else if sql.whereLogic ≠ [] then
          [("where_logic".toList, .str sql.whereLogic, emitStr sql.whereLogic)]
        else [])
      else []).map Prod.fst).Sublist ["where".toList, "where_logic".toList] := by
      intro w
      simp only [hmany, if_false, false_and, List.append_nil]
      split
      · rw [List.map_append]
        exact (List.Sublist.refl ["where".toList]).append hlogic
      · exact List.nil_sublist _
    apply List.Nodup.sublist _ hall
    rw [jsonMembers]
    simp only [List.map_append]
    repeat' apply List.Sublist.append
    · exact List.Sublist.refl _
    · exact hoptional
    · exact hoptional
    · exact hoptional
    · exact hwhere _
    · exact hoptional
    · exact horder
    · exact hoptional

theorem distinct_strings (arr : List CStr) : (stringsValue arr).Distinct := by
  apply Value.Distinct.arr
  intro v hv
  obtain ⟨s, -, rfl⟩ := List.mem_map.mp hv
  exact .str s

/-- The objects within the object have no two members of one name. -/
theorem distinct_members : ∀ m ∈ jsonMembers sql, m.2.1.Distinct := by
  have hcondition : ∀ w, (conditionObject w).Distinct := by
    intro w
    apply Value.Distinct.obj
    · simp
    · simp [Value.Distinct.str]
  have hassignment : ∀ s, (assignmentObject s).Distinct := by
    intro s
    apply Value.Distinct.obj
    · simp
    · simp [Value.Distinct.str]
  have horderBy : ∀ o, (orderByObject o).Distinct := by
    intro o
    apply Value.Distinct.obj
    · simp
    · simp [Value.Distinct.str, Value.Distinct.bool]
  have harr : ∀ {α : Type} {object : α → Value} (xs : List α), (∀ x, (object x).Distinct) →
      (Value.arr (xs.map object)).Distinct := by
    intro α object xs hobject
    apply Value.Distinct.arr
    intro v hv
    obtain ⟨x, -, rfl⟩ := List.mem_map.mp hv
    exact hobject x
  have hone : ∀ {name text : CStr} {v : Value}, v.Distinct →
      ∀ m ∈ [(name, v, text)], m.2.1.Distinct := by
    intro name text v hv m hm
    rw [List.mem_singleton.mp hm]
    exact hv
  have horder : ∀ m ∈ (sql.orderBy.map fun o =>
      [("order_by".toList, orderByObject o, emitOrderBy o)]).getD [], m.2.1.Distinct := by
    cases sql.orderBy with
    | none => simp
    | some o => exact hone (horderBy o)
  have hlogic : ∀ m ∈ (if 1 < sql.conds.length ∧ sql.whereLinks ≠ [] then
      [("where_links".toList, stringsValue (sql.whereLinks.take (sql.conds.length - 1)),
        emitStrArray (sql.whereLinks.take (sql.conds.length - 1)))]
    else if sql.whereLogic ≠ [] then
      [("where_logic".toList, .str sql.whereLogic, emitStr sql.whereLogic)]
    else []), m.2.1.Distinct := by
    split
    · exact hone (distinct_strings _)
    · exact forall_mem_optional.mpr fun _ => hone (.str _)
  unfold jsonMembers
  simp only [List.forall_mem_append, forall_mem_optional, List.forall_mem_cons, List.not_mem_nil,
    IsEmpty.forall_iff, implies_true, and_true, distinct_strings, harr _ hcondition,
    harr _ hassignment, Value.Distinct.str, Value.Distinct.num, true_and]
  exact ⟨fun _ => hlogic, horder⟩

/-- The links of a parsed statement are `AND` and `OR`. -/
theorem noControl_links {mem : Uninit} {tokens : List CStr} (h : LinksOk mem tokens sql) :
    (∀ s ∈ sql.whereLinks, NoControl s) ∧ NoControl sql.whereLogic := by
  have hlinks : ∀ s ∈ sql.whereLinks, NoControl s := by
    intro s hs
    rcases h.values s hs with rfl | rfl
    · exact noControl_of_isPlain (by decide)
    · exact noControl_of_isPlain (by decide)
  refine ⟨hlinks, ?_⟩
  by_cases hsame : ∃ link ∈ sql.whereLinks, ∀ other ∈ sql.whereLinks, other = link
  · obtain ⟨link, hlink, hall⟩ := hsame
    rw [h.common link hlink hall]
    exact hlinks link hlink
  · push Not at hsame
    rw [h.mixed hsame]
    exact noControl_of_isPlain (by decide)

end Members

/-! ## What is claimed -/

/-- The text is one JSON object without a repeated name, and the statement can be read back
from it. -/
structure JsonExact (sql : ParsedSQL) : Prop where
  object : ∃ members, JsonText (.obj members) (printJson (some sql)) ∧
    (Value.obj members).Distinct
  recovered : (readJson (printJson (some sql))).map ofJson = some sql

/-- The statements that are printed as they have to be. -/
structure JsonPrintable (sql : ParsedSQL) : Prop where
  few : sql.conds.length ≤ 1
  bounds : ∀ w ∈ sql.conds, w.valueTo = []
  limit : -1 ≤ sql.limit
  noControls : sql.NoControls

/-- **The text of a parsed statement is as claimed exactly if there is at most one condition, no
upper bound, no `LIMIT` below -1 and no control character in a string.** -/
theorem jsonExact_iff {mem : Uninit} {text : CStr} {sql : ParsedSQL}
    (h : parseSql mem text = some sql) : JsonExact sql ↔ JsonPrintable sql := by
  have hlinks := parseSql_links h
  have hnoControl := noControl_links hlinks
  have hmany : 1 < sql.conds.length → sql.whereLinks ≠ [] := by
    intro hmany hnil
    have hcount := hlinks.count hmany
    rw [hnil, List.length_nil] at hcount
    omega
  have hnames := nodup_names_iff hmany
  have hclean := clean_printJson_iff hnoControl.2 hnoControl.1
  -- the only value that the text can be of, and what is read from it
  have hvalue : Clean (printJson (some sql)) → JsonText (jsonValue sql) (printJson (some sql)) :=
    (emits_printJson sql).text
  have hread : sql.conds.length ≤ 1 → ofJson (jsonValue sql) = sql.described := by
    intro hfew
    have hnone := hlinks.none_of_few hfew
    exact ofJson_jsonValue hfew hnone (hlinks.mixed (by simp [hnone]))
  constructor
  · intro hexact
    obtain ⟨members, htext, hdistinct⟩ := hexact.object
    have htext' := hvalue htext.clean
    have hfew : sql.conds.length ≤ 1 := by
      rw [htext.unique htext', jsonValue] at hdistinct
      cases hdistinct with
      | obj hnodup _ =>
        rw [List.map_map] at hnodup
        exact hnames.mp hnodup
    have hrecovered := hexact.recovered
    rw [readJson_eq_some_iff.mpr htext', Option.map_some, Option.some.injEq, hread hfew,
      described_eq_iff] at hrecovered
    exact ⟨hfew, hrecovered.1, hrecovered.2, hclean.mp htext.clean⟩
  · intro hprint
    have htext := hvalue (hclean.mpr hprint.noControls)
    refine ⟨⟨_, htext, ?_⟩, ?_⟩
    · apply Value.Distinct.obj
      · rw [List.map_map]
        exact hnames.mpr hprint.few
      · intro p hp
        obtain ⟨m, hm, rfl⟩ := List.mem_map.mp hp
        exact distinct_members m hm
    · rw [readJson_eq_some_iff.mpr htext, Option.map_some, hread hprint.few,
        described_eq_iff.mpr ⟨hprint.bounds, hprint.limit⟩]

/-- A statement with a quote in a literal. -/
def printedText : CStr :=
  "SELECT id FROM users WHERE name = 'say \"hi\"' ORDER BY id DESC LIMIT 5".toList

def printedSql : ParsedSQL :=
  { parsedNew with
    type := .select
    table := "users".toList
    columns := ["id".toList]
    conds := [⟨"name".toList, "=".toList, "say \"hi\"".toList, []⟩]
    orderBy := some ⟨"id".toList, false⟩
    limit := 5 }

theorem jsonExact_printedText :
    parseSql .zero printedText = some printedSql ∧ JsonExact printedSql := by
  have hparse : parseSql .zero printedText = some printedSql := by decide +kernel
  have hlogic : NoControl printedSql.whereLogic := noControl_of_isPlain (by decide)
  have hclean : Clean (printJson (some printedSql)) := by decide +kernel
  refine ⟨hparse, (jsonExact_iff hparse).mpr ⟨by decide, ?_, by decide, ?_⟩⟩
  · simp [printedSql]
  · exact (clean_printJson_iff hlogic (by simp [printedSql, parsedNew])).mp hclean

/-- The text does not depend on the upper bounds, so that no reader can find them. -/
theorem printJson_bounds (sql : ParsedSQL) (bound : WhereClause → CStr) :
    printJson (some { sql with conds := sql.conds.map fun w => { w with valueTo := bound w } }) =
      printJson (some sql) := by
  have hlinks :
      emitLinks { sql with conds := sql.conds.map fun w => { w with valueTo := bound w } } =
        emitLinks sql := by
    unfold emitLinks
    rw [List.length_map]
    rfl
  unfold printJson
  dsimp only
  rw [hlinks, List.length_map, List.map_map]
  rfl

/-- The upper bound is not written, the links of two conditions are written twice, and the text
of a literal with a line break is not JSON. -/
theorem printJson_inexact :
    (∃ sql sql', parseSql .zero "SELECT * FROM t WHERE id BETWEEN 1 AND 5".toList = some sql ∧
      parseSql .zero "SELECT * FROM t WHERE id BETWEEN 1 AND 6".toList = some sql' ∧
      sql.conds ≠ sql'.conds ∧ printJson (some sql) = printJson (some sql')) ∧
    (∃ sql, parseSql .zero "SELECT * FROM t WHERE a = 1 AND b = 2".toList = some sql ∧
      ∀ members, JsonText (.obj members) (printJson (some sql)) →
        ¬ (members.map Prod.fst).Nodup) ∧
    (∃ sql, parseSql .zero "INSERT INTO t (c) VALUES ('a\nb')".toList = some sql ∧
      ¬ IsJson (printJson (some sql))) := by
  refine ⟨?_, ?_, ?_⟩
  · refine ⟨(parseSql .zero "SELECT * FROM t WHERE id BETWEEN 1 AND 5".toList).getD parsedNew, _,
      by decide +kernel, ?_, ?_, (printJson_bounds _ fun _ => "6".toList).symm⟩
    · decide +kernel
    · decide +kernel
  · refine ⟨(parseSql .zero "SELECT * FROM t WHERE a = 1 AND b = 2".toList).getD parsedNew,
      by decide +kernel, fun members htext hnodup => ?_⟩
    have heq := htext.unique ((emits_printJson _).text htext.clean)
    rw [jsonValue, Value.obj.injEq] at heq
    rw [heq, List.map_map] at hnodup
    have hfew := (nodup_names_iff fun _ => by decide +kernel).mp hnodup
    exact absurd hfew (by decide +kernel)
  · refine ⟨(parseSql .zero "INSERT INTO t (c) VALUES ('a\nb')".toList).getD parsedNew,
      by decide +kernel, fun hjson => ?_⟩
    obtain ⟨v, htext⟩ := hjson
    exact absurd htext.clean (by decide +kernel)

end MiniSql
