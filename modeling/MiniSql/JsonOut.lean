import MiniSql.EngineJson
import MiniSql.Lib.JsonEmit
import MiniSql.Parser.Conditions

/-!
# The JSON text of a statement

`json_out.c`: a `ParsedSQL` as a JSON object, in which empty fields have no member. Of the control
characters in a string none is escaped, so that the text is JSON only without them.

## Main definitions

* `printJson` — the text.
* `jsonMembers` — the members of the object: the name, the value and the text of each.

## Main results

* `printJson_eq` — the text is that of an object with these members.
* `emits_printJson`, `clean_printJson_iff` — when it is JSON.
-/

namespace MiniSql
open CText Json

/-! ## The text -/

/-- `qtype_str`. -/
def qtypeStr : QueryType → CStr
  | .select => "SELECT".toList
  | .insert => "INSERT".toList
  | .delete => "DELETE".toList
  | .update => "UPDATE".toList
  | .create => "CREATE".toList
  | .unknown => "UNKNOWN".toList

/-- One byte in the loop of `emit_str`. -/
def emitByte (c : Char) : CStr := if c = '"' ∨ c = '\\' then ['\\', c] else [c]

/-- `emit_str`. -/
def emitStr (s : CStr) : CStr := '"' :: (s.flatMap emitByte ++ ['"'])

/-- `emit_str_array`. -/
def emitStrArray (arr : List CStr) : CStr := '[' :: (commaLoop true (arr.map emitStr) ++ [']'])

/-- `where_link_at`, `none` for NULL. -/
def JsonOut.whereLinkAt (sql : ParsedSQL) (index : ℕ) : Option CStr :=
  if index = 0 then none
  else
    match sql.whereLinks[index - 1]? with
    | some link => some link
    | none => if sql.whereLogic ≠ [] then some sql.whereLogic else none

/-- The object of a condition. -/
def emitCondition (w : WhereClause) : CStr :=
  "\x7b\"column\":".toList ++ emitStr w.column ++ ",\"op\":".toList ++ emitStr w.op ++
    ",\"value\":".toList ++ emitStr w.value ++ ['}']

/-- The object of an assignment. -/
def emitAssignment (s : SetClause) : CStr :=
  "\x7b\"column\":".toList ++ emitStr s.column ++ ",\"value\":".toList ++ emitStr s.value ++ ['}']

/-- The object of an `ORDER BY`. -/
def emitOrderBy (o : OrderBy) : CStr :=
  "\x7b\"column\":".toList ++ emitStr o.column ++ ",\"asc\":".toList ++ boolText o.asc ++ ['}']

/-- The links from the first on, as `print_json` asks for them. -/
def emitLinks (sql : ParsedSQL) : CStr :=
  '[' :: (commaLoop true ((List.range (sql.conds.length - 1)).map fun i =>
    emitStr ((JsonOut.whereLinkAt sql (i + 1)).getD [])) ++ [']'])

/-- `print_json`. A NULL statement writes nothing. -/
def printJson : Option ParsedSQL → CStr
  | none => []
  | some sql =>
    "\x7b\"type\":".toList ++ emitStr (qtypeStr sql.type) ++
      ",\"table\":".toList ++ emitStr sql.table ++
      (if 0 < sql.columns.length then ",\"columns\":".toList ++ emitStrArray sql.columns else []) ++
      (if 0 < sql.values.length then ",\"values\":".toList ++ emitStrArray sql.values else []) ++
      (if 0 < sql.colDefs.length then
        ",\"col_defs\":".toList ++ emitStrArray sql.colDefs else []) ++
      (if 0 < sql.conds.length then
        ",\"where\":[".toList ++ commaLoop true (sql.conds.map emitCondition) ++ [']'] ++
          (if 1 < sql.conds.length then ",\"where_links\":".toList ++ emitLinks sql else []) ++
          (if 1 < sql.conds.length ∧ sql.whereLinks ≠ [] then
            ",\"where_links\":".toList ++ emitStrArray (sql.whereLinks.take (sql.conds.length - 1))
          else if sql.whereLogic ≠ [] then ",\"where_logic\":".toList ++ emitStr sql.whereLogic
          else [])
      else []) ++
      (if 0 < sql.sets.length then
        ",\"set\":[".toList ++ commaLoop true (sql.sets.map emitAssignment) ++ [']']
      else []) ++
      ((sql.orderBy.map fun o => ",\"order_by\":".toList ++ emitOrderBy o).getD []) ++
      (if 0 ≤ sql.limit then ",\"limit\":".toList ++ intText sql.limit else []) ++ "\x7d\n".toList

example : printJson (parseSql .zero "DELETE FROM t WHERE a BETWEEN 1 AND 5".toList) =
    "\x7b\"type\":\"DELETE\",\"table\":\"t\",\"where\":".toList ++
      "[\x7b\"column\":\"a\",\"op\":\"BETWEEN\",\"value\":\"1\"\x7d]\x7d\n".toList := by
  decide +kernel

/-! ## Strings -/

/-- A string without control characters. -/
def NoControl (s : CStr) : Prop := ∀ c ∈ s, ' ' ≤ c

theorem run_flatMap_emitByte (s : CStr) :
    Lexer.run .str (s.flatMap emitByte) = some .str ∧ NoControl s ∨
      Lexer.run .str (s.flatMap emitByte) = none ∧ ¬ NoControl s := by
  induction s with
  | nil => exact .inl ⟨rfl, by simp [NoControl]⟩
  | cons c s ih =>
    have hcons : NoControl (c :: s) ↔ ' ' ≤ c ∧ NoControl s := by simp [NoControl]
    rw [List.flatMap_cons, Lexer.run_append, hcons]
    by_cases hspecial : c = '"' ∨ c = '\\'
    · have hstep : Lexer.run .str (emitByte c) = some .str := by
        rw [emitByte, if_pos hspecial]
        rfl
      have hle : ' ' ≤ c := by rcases hspecial with rfl | rfl <;> decide
      rw [hstep, Option.bind_some, and_iff_right hle]
      exact ih
    · obtain ⟨hquote, hslash⟩ := not_or.mp hspecial
      have hstep : Lexer.run .str (emitByte c) = if ' ' ≤ c then some .str else none := by
        rw [emitByte, if_neg hspecial, Lexer.run, Lexer.step, if_neg hquote, if_neg hslash]
        split <;> rfl
      rw [hstep]
      by_cases hle : ' ' ≤ c
      · rw [if_pos hle, Option.bind_some, and_iff_right hle]
        exact ih
      · rw [if_neg hle]
        exact .inr ⟨rfl, fun h => hle h.1⟩

/-- **A string is written so that it is read back if it has no control characters, and only then is
what is written JSON.** -/
theorem emits_str (s : CStr) : Emits (.str s) (emitStr s) ∧ (Clean (emitStr s) ↔ NoControl s) := by
  have hrun : Lexer.run .out (emitStr s) =
      (Lexer.run .str (s.flatMap emitByte)).bind fun l => l.run ['"'] := by
    rw [emitStr, Lexer.run, Lexer.step, if_pos rfl, Option.bind_some, Lexer.run_append]
  have htext : NoControl s → JsonText (.str s) (emitStr s) := by
    intro hs
    have hitems : ∀ p ∈ s.map fun c => (Item.char c, emitByte c), ItemText p.1 p.2 := by
      intro p hp
      obtain ⟨c, hc, rfl⟩ := List.mem_map.mp hp
      dsimp only
      rw [emitByte]
      split
      · rename_i hspecial
        rcases hspecial with rfl | rfl
        · exact .escape (by decide)
        · exact .escape (by decide)
      · rename_i hplain
        obtain ⟨hquote, hslash⟩ := not_or.mp hplain
        exact .raw (hs c hc) hquote hslash
    have hstr := JsonText.str hitems
    rw [List.map_map, List.map_map] at hstr
    have hvalue : decode (s.map (Prod.fst ∘ fun c => (Item.char c, emitByte c))) = s :=
      decode_char s
    rw [hvalue] at hstr
    exact hstr
  rcases run_flatMap_emitByte s with ⟨hsome, hs⟩ | ⟨hnone, hs⟩
  · have hclean : Clean (emitStr s) := by
      rw [Clean, hrun, hsome]
      rfl
    exact ⟨(htext hs).emits, iff_of_true hclean hs⟩
  · rw [hnone] at hrun
    refine ⟨⟨fun l hl => absurd (hrun.symm.trans hl) (by simp), fun hclean => ?_⟩,
      iff_of_false (fun hclean => absurd (hrun.symm.trans hclean) (by simp)) hs⟩
    exact absurd (hrun.symm.trans hclean) (by simp)

/-! ## The members -/

/-- The value of an array of strings. -/
def stringsValue (arr : List CStr) : Value := .arr (arr.map .str)

def conditionObject (w : WhereClause) : Value :=
  .obj [("column".toList, .str w.column), ("op".toList, .str w.op), ("value".toList, .str w.value)]

def assignmentObject (s : SetClause) : Value :=
  .obj [("column".toList, .str s.column), ("value".toList, .str s.value)]

def orderByObject (o : OrderBy) : Value :=
  .obj [("column".toList, .str o.column), ("asc".toList, .bool o.asc)]

/-- The links that `emitLinks` writes. -/
def writtenLinks (sql : ParsedSQL) : List CStr :=
  (List.range (sql.conds.length - 1)).map fun i => (JsonOut.whereLinkAt sql (i + 1)).getD []

/-- The members of the object: the name, the value and the text of each. -/
def jsonMembers (sql : ParsedSQL) : List (CStr × Value × CStr) :=
  [("type".toList, .str (qtypeStr sql.type), emitStr (qtypeStr sql.type)),
    ("table".toList, .str sql.table, emitStr sql.table)] ++
  (if 0 < sql.columns.length then
    [("columns".toList, stringsValue sql.columns, emitStrArray sql.columns)] else []) ++
  (if 0 < sql.values.length then
    [("values".toList, stringsValue sql.values, emitStrArray sql.values)] else []) ++
  (if 0 < sql.colDefs.length then
    [("col_defs".toList, stringsValue sql.colDefs, emitStrArray sql.colDefs)] else []) ++
  (if 0 < sql.conds.length then
    [("where".toList, .arr (sql.conds.map conditionObject),
      arrText (sql.conds.map emitCondition))] ++
    (if 1 < sql.conds.length then
      [("where_links".toList, stringsValue (writtenLinks sql), emitLinks sql)] else []) ++
    (if 1 < sql.conds.length ∧ sql.whereLinks ≠ [] then
      [("where_links".toList, stringsValue (sql.whereLinks.take (sql.conds.length - 1)),
        emitStrArray (sql.whereLinks.take (sql.conds.length - 1)))]
    else if sql.whereLogic ≠ [] then
      [("where_logic".toList, .str sql.whereLogic, emitStr sql.whereLogic)]
    else [])
  else []) ++
  (if 0 < sql.sets.length then
    [("set".toList, .arr (sql.sets.map assignmentObject), arrText (sql.sets.map emitAssignment))]
  else []) ++
  ((sql.orderBy.map fun o => [("order_by".toList, orderByObject o, emitOrderBy o)]).getD []) ++
  (if 0 ≤ sql.limit then [("limit".toList, .num (intText sql.limit), intText sql.limit)] else [])

/-- A member behind another one. -/
def behindComma (m : CStr × Value × CStr) : CStr := ',' :: memberText (m.1, m.2.2)

theorem objText_cons (m : CStr × Value × CStr) (ms : List (CStr × Value × CStr)) :
    objText ((m :: ms).map fun m => (m.1, m.2.2)) =
      '{' :: (memberText (m.1, m.2.2) ++ ms.flatMap behindComma ++ ['}']) := by
  have htail : ∀ (t : CStr) (ms : List (CStr × Value × CStr)),
      commaSep (t :: ms.map fun m => memberText (m.1, m.2.2)) = t ++ ms.flatMap behindComma := by
    intro t ms
    induction ms generalizing t with
    | nil => simp [commaSep]
    | cons m ms ih =>
      rw [List.map_cons, commaSep, ih, List.flatMap_cons, behindComma, List.cons_append]
  rw [objText_eq, List.map_map, List.map_cons]
  exact congrArg (fun t => '{' :: (t ++ ['}'])) (htail _ ms)

/-- **The text is that of an object with these members.** -/
theorem printJson_eq (sql : ParsedSQL) :
    printJson (some sql) = objText ((jsonMembers sql).map fun m => (m.1, m.2.2)) ++ ['\n'] := by
  have hoptional : ∀ (p : Prop) [Decidable p] (ms ms' : List (CStr × Value × CStr)),
      (if p then ms else ms').flatMap behindComma =
        if p then ms.flatMap behindComma else ms'.flatMap behindComma := by
    intro p _ ms ms'
    split <;> rfl
  -- the names, with what stands around them
  have htype : ∀ t rest : CStr, '{' :: (memberText ("type".toList, t) ++ rest) =
      "\x7b\"type\":".toList ++ (t ++ rest) := fun _ _ => rfl
  have htable : ∀ v t, behindComma ("table".toList, v, t) = ",\"table\":".toList ++ t :=
    fun _ _ => rfl
  have hcolumns : ∀ v t, behindComma ("columns".toList, v, t) = ",\"columns\":".toList ++ t :=
    fun _ _ => rfl
  have hvalues : ∀ v t, behindComma ("values".toList, v, t) = ",\"values\":".toList ++ t :=
    fun _ _ => rfl
  have hcolDefs : ∀ v t, behindComma ("col_defs".toList, v, t) = ",\"col_defs\":".toList ++ t :=
    fun _ _ => rfl
  have hlinks : ∀ v t, behindComma ("where_links".toList, v, t) = ",\"where_links\":".toList ++ t :=
    fun _ _ => rfl
  have hlogic : ∀ v t, behindComma ("where_logic".toList, v, t) = ",\"where_logic\":".toList ++ t :=
    fun _ _ => rfl
  have horder : ((sql.orderBy.map fun o =>
      [("order_by".toList, orderByObject o, emitOrderBy o)]).getD []).flatMap behindComma =
        (sql.orderBy.map fun o => ",\"order_by\":".toList ++ emitOrderBy o).getD [] := by
    cases sql.orderBy with
    | none => rfl
    | some o => exact List.append_nil _
  have hlimit : ∀ v t, behindComma ("limit".toList, v, t) = ",\"limit\":".toList ++ t :=
    fun _ _ => rfl
  have hwhere : ∀ v texts, behindComma ("where".toList, v, arrText texts) =
      ",\"where\":[".toList ++ (commaLoop true texts ++ [']']) := by
    intro v texts
    rw [commaLoop_true]
    rfl
  have hset : ∀ v texts, behindComma ("set".toList, v, arrText texts) =
      ",\"set\":[".toList ++ (commaLoop true texts ++ [']']) := by
    intro v texts
    rw [commaLoop_true]
    rfl
  rw [jsonMembers]
  simp only [List.append_assoc, List.cons_append, List.nil_append]
  rw [objText_cons]
  simp only [List.flatMap_cons, List.flatMap_append, List.flatMap_nil, hoptional, List.append_nil,
    htable, hcolumns, hvalues, hcolDefs, hlinks, hlogic, horder, hlimit, hwhere, hset]
  have hend : ['}', '\n'] = "\x7d\n".toList := rfl
  unfold printJson
  simp only [List.append_assoc, List.cons_append, List.nil_append, hend, htype]

/-! ## When the text is JSON -/

theorem noControl_of_isPlain {s : CStr} (h : IsPlain s) : NoControl s := fun c hc => (h c hc).1

theorem emitStrArray_eq (arr : List CStr) : emitStrArray arr = arrText (arr.map emitStr) := by
  rw [emitStrArray, commaLoop_true]
  rfl

theorem emitLinks_eq (sql : ParsedSQL) : emitLinks sql = emitStrArray (writtenLinks sql) := by
  rw [emitLinks, emitStrArray, writtenLinks, List.map_map]
  rfl

/-- The texts of an array of values, each of which is JSON on a condition. -/
theorem emits_list {α : Type*} {xs : List α} {value : α → Value} {text : α → CStr} {P : α → Prop}
    (h : ∀ x ∈ xs, Emits (value x) (text x) ∧ (Clean (text x) ↔ P x)) :
    Emits (.arr (xs.map value)) (arrText (xs.map text)) ∧
      (Clean (arrText (xs.map text)) ↔ ∀ x ∈ xs, P x) := by
  constructor
  · have harr := @emits_arr (xs.map fun x => (value x, text x)) (by
      intro p hp
      obtain ⟨x, hx, rfl⟩ := List.mem_map.mp hp
      exact (h x hx).1)
    rw [List.map_map, List.map_map] at harr
    exact harr
  · rw [clean_arrText, List.forall_mem_map]
    · exact forall₂_congr fun x hx => (h x hx).2
    · intro t ht
      obtain ⟨x, hx, rfl⟩ := List.mem_map.mp ht
      exact (h x hx).1.closed

theorem emits_strings (arr : List CStr) :
    Emits (stringsValue arr) (emitStrArray arr) ∧
      (Clean (emitStrArray arr) ↔ ∀ s ∈ arr, NoControl s) := by
  rw [emitStrArray_eq]
  exact emits_list fun s _ => emits_str s

/-- An object whose members are strings. -/
theorem emits_fields {fields : List (CStr × CStr)} (hne : fields ≠ [])
    (hplain : ∀ f ∈ fields, IsPlain f.1) :
    Emits (.obj (fields.map fun f => (f.1, .str f.2)))
        (objText (fields.map fun f => (f.1, emitStr f.2))) ∧
      (Clean (objText (fields.map fun f => (f.1, emitStr f.2))) ↔ ∀ f ∈ fields, NoControl f.2) := by
  constructor
  · have hne' : (fields.map fun f => (f.1, Value.str f.2, emitStr f.2)) ≠ [] := by simpa using hne
    have hobj := emits_obj hne' (by
      intro m hm
      obtain ⟨f, hf, rfl⟩ := List.mem_map.mp hm
      exact ⟨hplain f hf, (emits_str f.2).1⟩)
    rw [List.map_map, List.map_map] at hobj
    exact hobj
  · rw [clean_objText, List.forall_mem_map]
    · exact forall₂_congr fun f _ => (emits_str f.2).2
    · intro m hm
      obtain ⟨f, hf, rfl⟩ := List.mem_map.mp hm
      exact ⟨hplain f hf, (emits_str f.2).1.closed⟩

theorem emits_condition (w : WhereClause) :
    Emits (conditionObject w) (emitCondition w) ∧
      (Clean (emitCondition w) ↔ NoControl w.column ∧ NoControl w.op ∧ NoControl w.value) := by
  have hfields := @emits_fields
    [("column".toList, w.column), ("op".toList, w.op), ("value".toList, w.value)] (by simp)
    (by simp only [List.forall_mem_cons]; decide)
  have htext : emitCondition w = objText [("column".toList, emitStr w.column),
      ("op".toList, emitStr w.op), ("value".toList, emitStr w.value)] := by
    unfold emitCondition
    generalize emitStr w.column = column, emitStr w.op = op, emitStr w.value = value
    simp [objText, commaSep]
  simp only [List.map_cons, List.map_nil, List.forall_mem_cons, List.not_mem_nil,
    IsEmpty.forall_iff, implies_true, and_true] at hfields
  rw [htext]
  exact hfields

theorem emits_assignment (s : SetClause) :
    Emits (assignmentObject s) (emitAssignment s) ∧
      (Clean (emitAssignment s) ↔ NoControl s.column ∧ NoControl s.value) := by
  have hfields := @emits_fields
    [("column".toList, s.column), ("value".toList, s.value)] (by simp)
    (by simp only [List.forall_mem_cons]; decide)
  have htext : emitAssignment s = objText [("column".toList, emitStr s.column),
      ("value".toList, emitStr s.value)] := by
    unfold emitAssignment
    generalize emitStr s.column = column, emitStr s.value = value
    simp [objText, commaSep]
  simp only [List.map_cons, List.map_nil, List.forall_mem_cons, List.not_mem_nil,
    IsEmpty.forall_iff, implies_true, and_true] at hfields
  rw [htext]
  exact hfields

theorem emits_orderBy (o : OrderBy) :
    Emits (orderByObject o) (emitOrderBy o) ∧ (Clean (emitOrderBy o) ↔ NoControl o.column) := by
  have hasc := jsonText_bool o.asc
  have htext : emitOrderBy o = objText [("column".toList, emitStr o.column),
      ("asc".toList, boolText o.asc)] := by
    unfold emitOrderBy
    generalize emitStr o.column = column, boolText o.asc = asc
    simp [objText, commaSep]
  rw [htext]
  constructor
  · have hobj := @emits_obj [("column".toList, .str o.column, emitStr o.column),
      ("asc".toList, .bool o.asc, boolText o.asc)] (by simp)
    simp only [List.forall_mem_cons, List.map_cons, List.map_nil] at hobj
    exact hobj ⟨⟨by decide, (emits_str o.column).1⟩, ⟨by decide, hasc.emits⟩, by simp⟩
  · rw [clean_objText]
    · simp only [List.forall_mem_cons, (emits_str o.column).2, hasc.clean, List.not_mem_nil,
        IsEmpty.forall_iff, implies_true, and_true]
    · simp only [List.forall_mem_cons]
      exact ⟨⟨by decide, (emits_str o.column).1.closed⟩, ⟨by decide, hasc.emits.closed⟩, by simp⟩

theorem noControl_qtypeStr (type : QueryType) : NoControl (qtypeStr type) := by
  cases type <;> exact noControl_of_isPlain (by decide)

theorem jsonText_limit {limit : ℤ} (h : 0 ≤ limit) :
    JsonText (.num (intText limit)) (intText limit) := by
  obtain ⟨n, rfl⟩ := Int.eq_ofNat_of_zero_le h
  exact jsonText_nat n

/-- What holds for the members of an object that are there. -/
theorem forall_mem_optional {α : Type*} {p : Prop} [Decidable p] {xs : List α} {Q : α → Prop} :
    (∀ x ∈ (if p then xs else []), Q x) ↔ (p → ∀ x ∈ xs, Q x) := by
  by_cases hp : p <;> simp [hp]

/-- The names are plain, and the texts are texts of the values. -/
theorem emits_members (sql : ParsedSQL) :
    ∀ m ∈ jsonMembers sql, IsPlain m.1 ∧ Emits m.2.1 m.2.2 := by
  have hone : ∀ {name text : CStr} {v : Value}, IsPlain name → Emits v text →
      ∀ m ∈ [(name, v, text)], IsPlain m.1 ∧ Emits m.2.1 m.2.2 := by
    intro name text v hname htext m hm
    rw [List.mem_singleton.mp hm]
    exact ⟨hname, htext⟩
  unfold jsonMembers
  simp only [List.forall_mem_append, forall_mem_optional]
  refine ⟨⟨⟨⟨⟨⟨⟨?_, ?_⟩, ?_⟩, ?_⟩, ?_⟩, ?_⟩, ?_⟩, ?_⟩
  · simp only [List.forall_mem_cons]
    exact ⟨⟨by decide, (emits_str _).1⟩, ⟨by decide, (emits_str _).1⟩, by simp⟩
  · exact fun _ => hone (by decide) (emits_strings _).1
  · exact fun _ => hone (by decide) (emits_strings _).1
  · exact fun _ => hone (by decide) (emits_strings _).1
  · intro _
    refine ⟨⟨hone (by decide) (emits_list fun w _ => emits_condition w).1, fun _ => ?_⟩, ?_⟩
    · rw [emitLinks_eq]
      exact hone (by decide) (emits_strings _).1
    · split
      · exact hone (by decide) (emits_strings _).1
      · split
        · exact hone (by decide) (emits_str _).1
        · simp
  · exact fun _ => hone (by decide) (emits_list fun s _ => emits_assignment s).1
  · cases sql.orderBy with
    | none => simp
    | some o => exact hone (by decide) (emits_orderBy o).1
  · exact fun hlimit => hone (by decide) (jsonText_limit hlimit).emits

/-- The object that a statement is written as. -/
def jsonValue (sql : ParsedSQL) : Value := .obj ((jsonMembers sql).map fun m => (m.1, m.2.1))

/-- **The text is one of the object if the scanner passes it.** -/
theorem emits_printJson (sql : ParsedSQL) : Emits (jsonValue sql) (printJson (some sql)) := by
  have hne : jsonMembers sql ≠ [] := by
    simp only [jsonMembers, List.append_assoc, List.cons_append]
    exact List.cons_ne_nil _ _
  have hobj := emits_obj hne (emits_members sql)
  have hend : Clean ['\n'] := clean_of_no_quote (by decide)
  rw [printJson_eq]
  refine ⟨hobj.closed.append hend.closed, fun hclean => ?_⟩
  rw [clean_append hobj.closed] at hclean
  have hpad := @JsonText.pad _ [] _ ['\n'] (by simp) (by simp [isWs]) (hobj.text hclean.1)
  exact hpad

/-- No string of the statement holds a control character. -/
structure ParsedSQL.NoControls (sql : ParsedSQL) : Prop where
  table : NoControl sql.table
  columns : ∀ s ∈ sql.columns, NoControl s
  values : ∀ s ∈ sql.values, NoControl s
  colDefs : ∀ s ∈ sql.colDefs, NoControl s
  conds : ∀ w ∈ sql.conds, NoControl w.column ∧ NoControl w.op ∧ NoControl w.value
  sets : ∀ s ∈ sql.sets, NoControl s.column ∧ NoControl s.value
  orderBy : ∀ o ∈ sql.orderBy, NoControl o.column

theorem mem_writtenLinks {sql : ParsedSQL} {link : CStr} (h : link ∈ writtenLinks sql) :
    link = [] ∨ link = sql.whereLogic ∨ link ∈ sql.whereLinks := by
  obtain ⟨i, -, rfl⟩ := List.mem_map.mp h
  rw [JsonOut.whereLinkAt, if_neg (Nat.succ_ne_zero i)]
  cases hlink : sql.whereLinks[i + 1 - 1]? with
  | some link => exact .inr (.inr (List.mem_of_getElem? hlink))
  | none =>
    dsimp only
    split
    · exact .inr (.inl rfl)
    · exact .inl rfl

/-- **The text is JSON exactly if no string of the statement holds a control character**, where the
links hold none. -/
theorem clean_printJson_iff {sql : ParsedSQL} (hlogic : NoControl sql.whereLogic)
    (hlinks : ∀ s ∈ sql.whereLinks, NoControl s) :
    Clean (printJson (some sql)) ↔ sql.NoControls := by
  have hclosed : ∀ m ∈ (jsonMembers sql).map fun m => (m.1, m.2.2), IsPlain m.1 ∧ Closed m.2 := by
    intro p hp
    obtain ⟨m, hm, rfl⟩ := List.mem_map.mp hp
    exact ⟨(emits_members sql m hm).1, (emits_members sql m hm).2.closed⟩
  have hend : Clean ['\n'] := clean_of_no_quote (by decide)
  rw [printJson_eq, clean_append (closed_objText hclosed), and_iff_left hend, clean_objText hclosed,
    List.forall_mem_map]
  -- an empty list is not written
  have hlist : ∀ {α : Type} {xs : List α} {P : α → Prop},
      (0 < xs.length → ∀ x ∈ xs, P x) ↔ ∀ x ∈ xs, P x := by
    intro α xs P
    exact ⟨fun h x hx => h (List.length_pos_of_mem hx) x hx, fun h _ => h⟩
  have hconds := (@emits_list _ sql.conds _ _ _ fun w _ => emits_condition w).2
  have hsets := (@emits_list _ sql.sets _ _ _ fun s _ => emits_assignment s).2
  have horder : (∀ m ∈ (sql.orderBy.map fun o =>
      [("order_by".toList, orderByObject o, emitOrderBy o)]).getD [], Clean m.2.2) ↔
        ∀ o ∈ sql.orderBy, NoControl o.column := by
    cases sql.orderBy with
    | none => simp
    | some o => simp [(emits_orderBy o).2]
  -- the links hold no control character
  have hwritten : Clean (emitLinks sql) := by
    rw [emitLinks_eq, (emits_strings _).2]
    intro link hlink
    rcases mem_writtenLinks hlink with rfl | rfl | hlink
    · exact noControl_of_isPlain (by decide)
    · exact hlogic
    · exact hlinks link hlink
  have htaken : Clean (emitStrArray (sql.whereLinks.take (sql.conds.length - 1))) :=
    (emits_strings _).2.mpr fun link hlink => hlinks link (List.mem_of_mem_take hlink)
  have hshared : Clean (emitStr sql.whereLogic) := (emits_str _).2.mpr hlogic
  have hlimit : 0 ≤ sql.limit → Clean (intText sql.limit) := fun h => (jsonText_limit h).clean
  unfold jsonMembers
  simp only [List.forall_mem_append, forall_mem_optional, List.forall_mem_cons, List.not_mem_nil,
    IsEmpty.forall_iff, implies_true, and_true, emits_strings, emits_str, hlist, hconds, hsets,
    horder]
  constructor
  · rintro ⟨⟨⟨⟨⟨⟨⟨⟨-, htable⟩, hcolumns⟩, hvalues⟩, hcolDefs⟩, hwhere⟩, hset⟩, horder⟩, -⟩
    exact ⟨htable, hcolumns, hvalues, hcolDefs,
      fun w hw => (hwhere (List.length_pos_of_mem hw)).1.1 w hw, hset, horder⟩
  · intro h
    refine ⟨⟨⟨⟨⟨⟨⟨⟨noControl_qtypeStr _, h.table⟩, h.columns⟩, h.values⟩, h.colDefs⟩, ?_⟩, h.sets⟩,
      h.orderBy⟩, hlimit⟩
    refine fun _ => ⟨⟨h.conds, fun _ => hwritten⟩, ?_⟩
    split
    · simpa using htaken
    · split
      · simpa using hshared
      · simp

end MiniSql
