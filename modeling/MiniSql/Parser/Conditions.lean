import MiniSql.Parser

/-!
# The conditions and assignments of a statement

`parse_where` and `parse_update` copy tokens into arrays of a fixed size. Here their loops are run
on the tokens alone, without arrays.

## Main definitions

* `Operands` — the tokens of one condition.
* `whereLoop`, `setPairs` — the tokens that the two loops copy.
* `conditionsOf`, `assignmentsOf` — those of a statement.
* `LinksOk` — how the links of the conditions have to be.

## Main results

* `whereFields_parseSql`, `sets_parseSql` — the fields of a statement come from these tokens.
* `parseSql_links` — the connectives of a `WHERE` lie between its conditions.
-/

namespace MiniSql
open CText

/-! ## The tokens of a condition -/

/-- The tokens of a condition: `column op value`, or a complete `BETWEEN`. -/
inductive Operands
  | compare (column op value : CStr)
  | between (column op low andTok high : CStr)
  deriving DecidableEq, Repr

namespace Operands

def tokens : Operands → List CStr
  | compare column op value => [column, op, value]
  | between column op low andTok high => [column, op, low, andTok, high]

/-- The `i`-th condition that `parse_where` makes of them. -/
def clause (mem : Uninit) (i : ℕ) : Operands → WhereClause
  | compare column op value => whereClause mem i column op value
  | between column _ low _ high => betweenClause mem i column low high

/-- The tokens of the next condition, whether the loop may go on, and the tokens left. -/
def read : List CStr → Option (Operands × Bool × List CStr)
  | col :: op :: val :: ts =>
    if ieq op "BETWEEN".toList then
      match ts with
      | andTok :: high :: ts' =>
        if ieq andTok "AND".toList then some (between col op val andTok high, true, ts')
        else some (compare col op val, false, ts')
      | _ => some (compare col op val, false, [])
    else some (compare col op val, true, ts)
  | _ => none

theorem readCondition_eq (mem : Uninit) (i : ℕ) (ts : List CStr) :
    readCondition mem i ts = (read ts).map fun r => (r.1.clause mem i, r.2) := by
  rcases ts with _ | ⟨col, _ | ⟨op, _ | ⟨val, ts⟩⟩⟩
  · rfl
  · rfl
  · rfl
  · unfold readCondition read
    dsimp only
    by_cases hbetween : ieq op "BETWEEN".toList = true
    · rw [if_pos hbetween, if_pos hbetween]
      rcases ts with _ | ⟨andTok, _ | ⟨high, ts⟩⟩
      · rfl
      · rfl
      · dsimp only
        by_cases hand : ieq andTok "AND".toList = true
        · rw [if_pos hand, if_pos hand]
          rfl
        · rw [if_neg hand, if_neg hand]
          rfl
    · rw [if_neg hbetween, if_neg hbetween]
      rfl

/-- The tokens of a condition are the first that are left. -/
theorem tokens_of_read {ts rest : List CStr} {o : Operands} {more : Bool}
    (h : read ts = some (o, more, rest)) : o.tokens <+: ts ∧ (more = true → ts = o.tokens ++ rest) := by
  unfold read at h
  split at h
  · rename_i col op val ts
    split_ifs at h
    · split at h
      · split_ifs at h
        · simp only [Option.some.injEq, Prod.mk.injEq] at h
          rw [← h.1, ← h.2.2]
          exact ⟨List.prefix_append [col, op, val, _, _] _, fun _ => rfl⟩
        · simp only [Option.some.injEq, Prod.mk.injEq] at h
          rw [← h.1, ← h.2.1]
          exact ⟨List.prefix_append [col, op, val] _, fun hmore => absurd hmore (by simp)⟩
      · simp only [Option.some.injEq, Prod.mk.injEq] at h
        rw [← h.1, ← h.2.1]
        exact ⟨List.prefix_append [col, op, val] _, fun hmore => absurd hmore (by simp)⟩
    · simp only [Option.some.injEq, Prod.mk.injEq] at h
      rw [← h.1, ← h.2.2]
      exact ⟨List.prefix_append [col, op, val] _, fun _ => rfl⟩
  · exact absurd h (by simp)

end Operands

/-! ## The loop of `parse_where` -/

/-- The tokens between two conditions. -/
def isConnective (t : CStr) : Bool := ieq t "AND".toList || ieq t "OR".toList

/-- The link that `parse_where` stores for a connective. -/
def linkOf (t : CStr) : CStr := if ieq t "OR".toList then "OR".toList else "AND".toList

/-- The conditions and the connectives that the loop of `parse_where` reads. -/
def whereLoop : ℕ → List CStr → List Operands × List CStr
  | 0, _ => ([], [])
  | n + 1, ts =>
    match Operands.read ts with
    | none => ([], [])
    | some (o, false, _) => ([o], [])
    | some (o, true, []) => ([o], [])
    | some (o, true, l :: ts') =>
      if isConnective l then (o :: (whereLoop n ts').1, l :: (whereLoop n ts').2) else ([o], [])

/-- The conditions from the `k`-th on. -/
def clausesFrom (mem : Uninit) : ℕ → List Operands → List WhereClause
  | _, [] => []
  | k, o :: os => o.clause mem k :: clausesFrom mem (k + 1) os

theorem parseWhereLoop_eq (mem : Uninit) (n : ℕ) (ts : List CStr) (ws : List WhereClause)
    (links : List CStr) :
    (parseWhereLoop mem n ts ws links).1 = ws ++ clausesFrom mem ws.length (whereLoop n ts).1 ∧
      (parseWhereLoop mem n ts ws links).2.1 = links ++ (whereLoop n ts).2.map linkOf := by
  induction n generalizing ts ws links with
  | zero => simp [parseWhereLoop, whereLoop, clausesFrom]
  | succ n ih =>
    rw [parseWhereLoop, whereLoop, Operands.readCondition_eq]
    rcases Operands.read ts with _ | ⟨o, more, rest⟩
    · simp [clausesFrom]
    · cases more with
      | false => simp [clausesFrom]
      | true =>
        cases rest with
        | nil => simp [clausesFrom]
        | cons l ts' =>
          by_cases hl : isConnective l = true
          · have hl' : (ieq l "AND".toList || ieq l "OR".toList) = true := hl
            have hrest := ih ts' (ws ++ [o.clause mem ws.length]) (links ++ [linkOf l])
            rw [List.length_append, List.length_singleton] at hrest
            simp only [Option.map_some, hl, hl', if_true]
            constructor
            · apply hrest.1.trans
              rw [List.append_assoc]
              rfl
            · apply hrest.2.trans
              rw [List.append_assoc]
              rfl
          · have hl' : ¬ (ieq l "AND".toList || ieq l "OR".toList) = true := hl
            simp only [Option.map_some, if_neg hl, if_neg hl']
            simp [clausesFrom]

/-- The tokens of conditions with connectives between them. -/
def joined : List Operands → List CStr → List CStr
  | [], _ => []
  | o :: os, [] => o.tokens ++ joined os []
  | o :: os, l :: ls => o.tokens ++ l :: joined os ls

/-- What the loop has read: the connectives lie between the conditions, and one may be left at the
end, with no condition behind it. -/
structure Reads (ts : List CStr) (os : List Operands) (ls : List CStr) : Prop where
  connective : ∀ l ∈ ls, isConnective l = true
  trailing : ls.length = os.length ∨ ls.length + 1 = os.length
  tokens : joined os (ls.take (os.length - 1)) <+: ts

theorem whereLoop_reads (n : ℕ) (ts : List CStr) :
    Reads ts (whereLoop n ts).1 (whereLoop n ts).2 := by
  have hnone : ∀ ts : List CStr, Reads ts [] [] := fun ts =>
    ⟨by simp, by simp, List.nil_prefix⟩
  induction n generalizing ts with
  | zero => exact hnone ts
  | succ n ih =>
    rw [whereLoop]
    cases hread : Operands.read ts with
    | none => exact hnone ts
    | some r =>
      obtain ⟨o, more, rest⟩ := r
      have htokens := Operands.tokens_of_read hread
      have hone : Reads ts [o] [] := by
        refine ⟨by simp, by simp, ?_⟩
        simpa [joined] using htokens.1
      cases more with
      | false => exact hone
      | true =>
        cases rest with
        | nil => exact hone
        | cons l ts' =>
          by_cases hl : isConnective l = true
          · have hrest := ih ts'
            simp only [hl, if_true]
            refine ⟨?_, ?_, ?_⟩
            · intro m hm
              rcases List.mem_cons.mp hm with rfl | hm
              · exact hl
              · exact hrest.connective m hm
            · have := hrest.trailing
              simp only [List.length_cons]
              omega
            · rw [htokens.2 rfl, List.length_cons, Nat.add_sub_cancel]
              cases hos : (whereLoop n ts').1 with
              | nil => simp [joined]
              | cons o' os' =>
                have hmore := hrest.tokens
                rw [hos, List.length_cons, Nat.add_sub_cancel] at hmore
                rw [List.length_cons, List.take_succ_cons, joined]
                exact (List.prefix_append_right_inj _).mpr (List.prefix_cons_inj l |>.mpr hmore)
          · simp only [hl, if_false, Bool.false_eq_true]
            exact hone

/-! ## The tokens of a statement -/

/-- The loop of `parse_update` over the assignments: the tokens of each, and the tokens left. -/
def setPairs : List CStr → List (CStr × CStr) × List CStr
  | [] => ([], [])
  | col :: ts =>
    if ieq col "WHERE".toList || col == [';'] then ([], col :: ts)
    else
      match ts with
      | _ :: val :: ts' =>
        match ts' with
        | s :: ts'' =>
          if ieq s [','] then ((col, val) :: (setPairs ts'').1, (setPairs ts'').2)
          else ([(col, val)], s :: ts'')
        | [] => ([(col, val)], [])
      | _ => ([], [])

/-- The assignments from the `i`-th on. -/
def setsFrom (mem : Uninit) : ℕ → List (CStr × CStr) → List SetClause
  | _, [] => []
  | i, p :: ps => setClause mem i p.1 p.2 :: setsFrom mem (i + 1) ps

theorem setLoop_eq (mem : Uninit) (i : ℕ) (ts : List CStr) :
    setLoop mem i ts = (setsFrom mem i (setPairs ts).1, (setPairs ts).2) := by
  fun_induction setLoop mem i ts with
  | case1 => rfl
  | case2 i col ts hend =>
    rw [setPairs.eq_def]
    dsimp only
    rw [if_pos hend]
    rfl
  | case3 i col hend op val s ts'' hs ih =>
    rw [setPairs.eq_def]
    dsimp only
    rw [if_neg hend, if_pos hs, ih]
    rfl
  | case4 i col hend op val s ts'' hs =>
    rw [setPairs.eq_def]
    dsimp only
    rw [if_neg hend, if_neg hs]
    rfl
  | case5 i col hend op val =>
    rw [setPairs.eq_def]
    dsimp only
    rw [if_neg hend]
    rfl
  | case6 i col ts hend hnot =>
    rw [setPairs.eq_def]
    dsimp only
    rw [if_neg hend]
    rcases ts with _ | ⟨op, _ | ⟨val, ts⟩⟩
    · rfl
    · rfl
    · exact absurd rfl (hnot op val ts)

theorem setPairs_suffix (ts : List CStr) : (setPairs ts).2 <:+ ts := by
  fun_induction setPairs ts with
  | case1 => exact List.suffix_rfl
  | case2 => exact List.suffix_rfl
  | case3 col hend op val s ts'' hs ih =>
    exact ih.trans (List.suffix_append [col, op, val, s] ts'')
  | case4 col hend op val s ts'' => exact List.suffix_append [col, op, val] (s :: ts'')
  | case5 => exact List.nil_suffix
  | case6 => exact List.nil_suffix

theorem matchTok_suffix {kw : CStr} {ts ts' : List CStr} (h : matchTok kw ts = some ts') :
    ts' <:+ ts := by
  cases ts with
  | nil => exact absurd h (by simp [matchTok])
  | cons t ts =>
    rw [matchTok] at h
    split_ifs at h
    rw [← Option.some.inj h]
    exact List.suffix_cons t ts

theorem callArgs_suffix (ts : List CStr) (buf : CStr) : (callArgs ts buf).2 <:+ ts := by
  induction ts generalizing buf with
  | nil => exact List.suffix_rfl
  | cons t ts ih =>
    rw [callArgs]
    split_ifs
    · exact List.suffix_cons t ts
    · exact List.suffix_rfl
    · exact (ih _).trans (List.suffix_cons t ts)

theorem selectColumn_suffix (first : CStr) (ts : List CStr) : (selectColumn first ts).2 <:+ ts := by
  cases ts with
  | nil => exact List.suffix_rfl
  | cons t ts =>
    rw [selectColumn]
    split_ifs
    · exact (callArgs_suffix _ _).trans (List.suffix_cons t ts)
    · exact List.suffix_rfl

theorem selectColumnsLoop_suffix (n : ℕ) (ts : List CStr) :
    (selectColumnsLoop n ts).2 <:+ ts := by
  induction n generalizing ts with
  | zero => exact List.suffix_rfl
  | succ n ih =>
    cases ts with
    | nil => exact List.suffix_rfl
    | cons first ts =>
      rw [selectColumnsLoop]
      split_ifs
      · exact List.suffix_rfl
      · have hcol := selectColumn_suffix first ts
        cases hcomma : matchTok [','] (selectColumn first ts).2 with
        | none =>
          simp only [hcomma]
          exact hcol.trans (List.suffix_cons first ts)
        | some ts₂ =>
          simp only [hcomma]
          have hrest := (ih ts₂).trans (matchTok_suffix hcomma)
          exact (hrest.trans hcol).trans (List.suffix_cons first ts)

/-- The tokens behind the `WHERE` of a statement. -/
def behindWhere : List CStr → Option (List CStr)
  | [] => none
  | kw :: ts =>
    if ieq kw "SELECT".toList then
      (matchTok "FROM".toList (selectColumnsLoop ts.length ts).2).bind fun ts =>
        matchTok "WHERE".toList ts.tail
    else if ieq kw "DELETE".toList then
      (matchTok "FROM".toList ts).bind fun ts => matchTok "WHERE".toList ts.tail
    else if ieq kw "UPDATE".toList then
      (matchTok "SET".toList ts.tail).bind fun ts => matchTok "WHERE".toList (setPairs ts).2
    else none

/-- The conditions and the connectives behind a `WHERE`, if there is one. -/
def conditionsIn : Option (List CStr) → List Operands × List CStr
  | some ts => whereLoop ts.length ts
  | none => ([], [])

/-- The tokens of the conditions and the connectives of a text. -/
def conditionsOf (input : CStr) : List Operands × List CStr :=
  conditionsIn (behindWhere (tokenize input))

/-- The tokens of the assignments of a text. -/
def assignmentsOf (input : CStr) : List (CStr × CStr) :=
  match tokenize input with
  | [] => []
  | kw :: ts =>
    if ieq kw "UPDATE".toList then
      ((matchTok "SET".toList ts.tail).map fun ts => (setPairs ts).1).getD []
    else []

theorem behindWhere_suffix {tokens ts : List CStr} (h : behindWhere tokens = some ts) :
    ts <:+ tokens := by
  cases tokens with
  | nil => exact absurd h (by simp [behindWhere])
  | cons kw tokens =>
    rw [behindWhere] at h
    apply List.IsSuffix.trans _ (List.suffix_cons kw tokens)
    split_ifs at h
    · obtain ⟨ts₁, hfrom, hwhere⟩ := Option.bind_eq_some_iff.mp h
      exact ((matchTok_suffix hwhere).trans (List.tail_suffix ts₁)).trans
        ((matchTok_suffix hfrom).trans (selectColumnsLoop_suffix _ _))
    · obtain ⟨ts₁, hfrom, hwhere⟩ := Option.bind_eq_some_iff.mp h
      exact ((matchTok_suffix hwhere).trans (List.tail_suffix ts₁)).trans (matchTok_suffix hfrom)
    · obtain ⟨ts₁, hset, hwhere⟩ := Option.bind_eq_some_iff.mp h
      exact ((matchTok_suffix hwhere).trans (setPairs_suffix ts₁)).trans
        ((matchTok_suffix hset).trans (List.tail_suffix tokens))

/-! ## The conditions and assignments of a statement -/

/-- The fields of a parsed statement that its `WHERE` fills. -/
structure WhereFields (mem : Uninit) (found : List Operands × List CStr) (sql : ParsedSQL) :
    Prop where
  conds : sql.conds = clausesFrom mem 0 found.1
  links : sql.whereLinks = trimLinks (clausesFrom mem 0 found.1) (found.2.map linkOf)
  logic : sql.whereLogic = commonLogic sql.whereLinks

theorem whereFields_parseOptWhere (mem : Uninit) (ts : List CStr) {sql : ParsedSQL}
    (hconds : sql.conds = []) (hlinks : sql.whereLinks = []) (hlogic : sql.whereLogic = []) :
    WhereFields mem (conditionsIn (matchTok "WHERE".toList ts)) (parseOptWhere mem ts sql).1 := by
  unfold parseOptWhere
  cases matchTok "WHERE".toList ts with
  | none => exact ⟨hconds, hlinks, by rw [hlogic, hlinks]; rfl⟩
  | some ts' =>
    have hloop := parseWhereLoop_eq mem ts'.length ts' [] []
    rw [List.nil_append, List.nil_append] at hloop
    refine ⟨hloop.1, ?_, rfl⟩
    change trimLinks _ _ = _
    rw [hloop.1, hloop.2]
    rfl

theorem whereFields_create (mem : Uninit) (ts : List CStr) :
    WhereFields mem (conditionsIn none) (parseCreate ts parsedNew) := by
  unfold parseCreate
  dsimp only
  split <;> exact ⟨rfl, rfl, rfl⟩

theorem whereFields_insert (mem : Uninit) (ts : List CStr) :
    WhereFields mem (conditionsIn none) (parseInsert ts parsedNew) := by
  unfold parseInsert
  dsimp only
  split
  · exact ⟨rfl, rfl, rfl⟩
  · exact ⟨rfl, rfl, rfl⟩
  · split
    · exact ⟨rfl, rfl, rfl⟩
    · split <;> exact ⟨rfl, rfl, rfl⟩

/-- The clauses behind a `WHERE` leave its fields alone. -/
theorem WhereFields.order {mem : Uninit} {found : List Operands × List CStr} {sql : ParsedSQL}
    (h : WhereFields mem found sql) (ts : List CStr) :
    WhereFields mem found (parseLimit (parseOrderBy ts sql).2 (parseOrderBy ts sql).1) := by
  obtain ⟨order, horder⟩ := parseOrderBy_fields ts sql
  obtain ⟨limit, hlimit⟩ := parseLimit_fields (parseOrderBy ts sql).2 (parseOrderBy ts sql).1
  rw [hlimit, horder]
  exact ⟨h.conds, h.links, h.logic⟩

theorem whereFields_select (mem : Uninit) (ts : List CStr) :
    WhereFields mem
      (conditionsIn ((matchTok "FROM".toList (selectColumnsLoop ts.length ts).2).bind fun ts =>
        matchTok "WHERE".toList ts.tail))
      (parseSelect mem ts parsedNew) := by
  unfold parseSelect
  dsimp only
  cases matchTok "FROM".toList (selectColumnsLoop ts.length ts).2 with
  | none => exact ⟨rfl, rfl, rfl⟩
  | some ts₂ => exact (whereFields_parseOptWhere mem ts₂.tail rfl rfl rfl).order _

theorem whereFields_delete (mem : Uninit) (ts : List CStr) :
    WhereFields mem
      (conditionsIn ((matchTok "FROM".toList ts).bind fun ts => matchTok "WHERE".toList ts.tail))
      (parseDelete mem ts parsedNew) := by
  unfold parseDelete
  dsimp only
  cases matchTok "FROM".toList ts with
  | none => exact ⟨rfl, rfl, rfl⟩
  | some ts₁ => exact whereFields_parseOptWhere mem ts₁.tail rfl rfl rfl

theorem whereFields_update (mem : Uninit) (ts : List CStr) :
    WhereFields mem
      (conditionsIn ((matchTok "SET".toList ts.tail).bind fun ts =>
        matchTok "WHERE".toList (setPairs ts).2))
      (parseUpdate mem ts parsedNew) := by
  unfold parseUpdate
  dsimp only
  cases matchTok "SET".toList ts.tail with
  | none => exact ⟨rfl, rfl, rfl⟩
  | some ts₁ =>
    dsimp only
    rw [setLoop_eq]
    exact whereFields_parseOptWhere mem _ rfl rfl rfl

/-- A token is not two keywords. -/
theorem not_ieq_of_ieq {t a b : CStr} (h : ieq t a = true) (hab : equalsIgnoreCase a b = false) :
    ¬ ieq t b = true := by
  intro hb
  have heq : equalsIgnoreCase a b = true := by
    rw [ieq, equalsIgnoreCase_comm] at h
    exact equalsIgnoreCase_trans h hb
  rw [heq] at hab
  exact absurd hab (by simp)

/-- The fields of a `WHERE` come from the tokens behind it. -/
theorem whereFields_parseSql {mem : Uninit} {input : CStr} {sql : ParsedSQL}
    (h : parseSql mem input = some sql) : WhereFields mem (conditionsOf input) sql := by
  unfold parseSql at h
  unfold conditionsOf
  cases htok : tokenize input with
  | nil => exact absurd (htok ▸ h) (by simp [parseTokens])
  | cons kw ts =>
    rw [htok, parseTokens, Option.some.injEq] at h
    rw [← h, behindWhere]
    by_cases hcreate : ieq kw "CREATE".toList = true
    · rw [if_pos hcreate, if_neg (not_ieq_of_ieq hcreate (by decide)),
        if_neg (not_ieq_of_ieq hcreate (by decide)), if_neg (not_ieq_of_ieq hcreate (by decide))]
      exact whereFields_create mem ts
    rw [if_neg hcreate]
    by_cases hinsert : ieq kw "INSERT".toList = true
    · rw [if_pos hinsert, if_neg (not_ieq_of_ieq hinsert (by decide)),
        if_neg (not_ieq_of_ieq hinsert (by decide)), if_neg (not_ieq_of_ieq hinsert (by decide))]
      exact whereFields_insert mem ts
    rw [if_neg hinsert]
    by_cases hselect : ieq kw "SELECT".toList = true
    · rw [if_pos hselect, if_pos hselect]
      exact whereFields_select mem ts
    rw [if_neg hselect, if_neg hselect]
    by_cases hdelete : ieq kw "DELETE".toList = true
    · rw [if_pos hdelete, if_pos hdelete]
      exact whereFields_delete mem ts
    rw [if_neg hdelete, if_neg hdelete]
    by_cases hupdate : ieq kw "UPDATE".toList = true
    · rw [if_pos hupdate, if_pos hupdate]
      exact whereFields_update mem ts
    · rw [if_neg hupdate, if_neg hupdate]
      exact ⟨rfl, rfl, rfl⟩

/-! ## The links of a `WHERE` -/

theorem length_clausesFrom (mem : Uninit) (k : ℕ) (os : List Operands) :
    (clausesFrom mem k os).length = os.length := by
  induction os generalizing k with
  | nil => rfl
  | cons o os ih => rw [clausesFrom, List.length_cons, ih, List.length_cons]

/-- A connective that is left at the end is dropped. -/
theorem trimLinks_eq {mem : Uninit} {os : List Operands} {ls : List CStr}
    (h : ls.length = os.length ∨ ls.length + 1 = os.length) :
    trimLinks (clausesFrom mem 0 os) (ls.map linkOf) = (ls.take (os.length - 1)).map linkOf := by
  unfold trimLinks
  rw [length_clausesFrom, List.length_map, List.map_take]
  rcases h with hsame | hone
  · by_cases hnil : ls = []
    · subst hnil
      simp
    · have hpos : 0 < ls.length := List.length_pos_iff.mpr hnil
      rw [if_pos ⟨by simpa using hnil, by omega⟩, List.dropLast_eq_take, List.length_map, hsame]
  · rw [if_neg fun htrim => htrim.2 hone, List.take_of_length_le]
    rw [List.length_map]
    omega

/-- How `where_links` and `where_logic` have to be: one link less than conditions, each the
connective between its conditions, and the common link, if there is one. -/
structure LinksOk (mem : Uninit) (tokens : List CStr) (sql : ParsedSQL) : Prop where
  none_of_few : sql.conds.length ≤ 1 → sql.whereLinks = []
  count : 1 < sql.conds.length → sql.whereLinks.length = sql.conds.length - 1
  between : ∃ (os : List Operands) (ls : List CStr), sql.conds = clausesFrom mem 0 os ∧
    sql.whereLinks = ls.map linkOf ∧ (∀ l ∈ ls, isConnective l = true) ∧ joined os ls <:+: tokens
  values : ∀ link ∈ sql.whereLinks, link = "AND".toList ∨ link = "OR".toList
  common : ∀ link ∈ sql.whereLinks, (∀ other ∈ sql.whereLinks, other = link) → sql.whereLogic = link
  mixed : (∀ link ∈ sql.whereLinks, ∃ other ∈ sql.whereLinks, other ≠ link) → sql.whereLogic = []

theorem linkOf_cases (t : CStr) : linkOf t = "AND".toList ∨ linkOf t = "OR".toList := by
  unfold linkOf
  split_ifs
  · exact Or.inr rfl
  · exact Or.inl rfl

theorem commonLogic_spec {links : List CStr}
    (h : ∀ link ∈ links, link = "AND".toList ∨ link = "OR".toList) :
    (∀ link ∈ links, (∀ other ∈ links, other = link) → commonLogic links = link) ∧
      ((∀ link ∈ links, ∃ other ∈ links, other ≠ link) → commonLogic links = []) := by
  cases links with
  | nil => exact ⟨fun link hlink => absurd hlink (by simp), fun _ => rfl⟩
  | cons l ls =>
    have hieq : ∀ m ∈ ls, ieq l m = true ↔ m = l := by
      intro m hm
      have hne : ieq "AND".toList "OR".toList = false ∧ ieq "OR".toList "AND".toList = false := by
        decide
      rcases h l List.mem_cons_self with rfl | rfl <;>
        rcases h m (List.mem_cons_of_mem _ hm) with rfl | rfl
      · exact ⟨fun _ => rfl, fun _ => equalsIgnoreCase_refl _⟩
      · exact ⟨fun heq => absurd (hne.1 ▸ heq) (by simp), fun heq => absurd heq (by decide)⟩
      · exact ⟨fun heq => absurd (hne.2 ▸ heq) (by simp), fun heq => absurd heq (by decide)⟩
      · exact ⟨fun _ => rfl, fun _ => equalsIgnoreCase_refl _⟩
    have hall : ls.all (ieq l) = true ↔ ∀ m ∈ ls, m = l := by
      rw [List.all_eq_true]
      exact forall₂_congr hieq
    constructor
    · intro link hlink hsame
      have hl : l = link := hsame l List.mem_cons_self
      rw [commonLogic, if_pos, hl]
      rw [hall]
      intro m hm
      rw [hsame m (List.mem_cons_of_mem _ hm), hl]
    · intro hmixed
      obtain ⟨m, hm, hne⟩ := hmixed l List.mem_cons_self
      rw [commonLogic, if_neg]
      rw [hall]
      intro hsame
      rcases List.mem_cons.mp hm with rfl | hm
      · exact hne rfl
      · exact hne (hsame m hm)

/-- **The links of a parsed `WHERE` are the connectives between its conditions, one less than
these, and `where_logic` is the link they have in common.** -/
theorem parseSql_links {mem : Uninit} {input : CStr} {sql : ParsedSQL}
    (h : parseSql mem input = some sql) : LinksOk mem (tokenize input) sql := by
  have hfields := whereFields_parseSql h
  have hreads : ∃ ts : List CStr, ts <:+ tokenize input ∧
      Reads ts (conditionsOf input).1 (conditionsOf input).2 := by
    unfold conditionsOf
    cases hwhere : behindWhere (tokenize input) with
    | none =>
      exact ⟨[], List.nil_suffix, by simp [conditionsIn], by simp [conditionsIn],
        by simp [conditionsIn, joined]⟩
    | some ts => exact ⟨ts, behindWhere_suffix hwhere, whereLoop_reads ts.length ts⟩
  obtain ⟨ts, hsuffix, hreads⟩ := hreads
  have hlinks := hfields.links.trans (trimLinks_eq hreads.trailing)
  have hlength : sql.whereLinks.length = sql.conds.length - 1 := by
    have := hreads.trailing
    rw [hlinks, hfields.conds, length_clausesFrom, List.length_map, List.length_take]
    omega
  have hvalues : ∀ link ∈ sql.whereLinks, link = "AND".toList ∨ link = "OR".toList := by
    intro link hlink
    rw [hlinks] at hlink
    obtain ⟨t, -, rfl⟩ := List.mem_map.mp hlink
    exact linkOf_cases t
  have hlogic := commonLogic_spec hvalues
  refine ⟨?_, fun _ => hlength, ?_, hvalues, ?_, ?_⟩
  · intro hfew
    apply List.length_eq_zero_iff.mp
    omega
  · refine ⟨_, _, hfields.conds, hlinks, ?_, hreads.tokens.isInfix.trans hsuffix.isInfix⟩
    intro l hl
    exact hreads.connective l (List.mem_of_mem_take hl)
  · intro link hlink hsame
    rw [hfields.logic]
    exact hlogic.1 link hlink hsame
  · intro hmixed
    rw [hfields.logic]
    exact hlogic.2 hmixed

/-- The statement that `test_where_between_with_and_clause` parses. -/
def betweenText : CStr := "SELECT * FROM t WHERE id BETWEEN 1 AND 5 AND name = 'alice'".toList

theorem parseSql_links_between :
    ∃ sql, parseSql .zero betweenText = some sql ∧ LinksOk .zero (tokenize betweenText) sql :=
  ⟨(parseSql .zero betweenText).getD parsedNew, by decide +kernel, parseSql_links (by decide +kernel)⟩

/-! ## The assignments -/

theorem sets_parseOptWhere (mem : Uninit) (ts : List CStr) (sql : ParsedSQL) :
    (parseOptWhere mem ts sql).1.sets = sql.sets := by
  obtain ⟨conds, links, logic, h⟩ := parseOptWhere_fields mem ts sql
  rw [h]

theorem sets_parseSelect (mem : Uninit) (ts : List CStr) :
    (parseSelect mem ts parsedNew).sets = [] := by
  unfold parseSelect
  dsimp only
  cases matchTok "FROM".toList (selectColumnsLoop ts.length ts).2 with
  | none => rfl
  | some ts₂ =>
    dsimp only
    obtain ⟨limit, hlimit⟩ := parseLimit_fields _ _
    obtain ⟨order, horder⟩ := parseOrderBy_fields _ _
    rw [hlimit, horder]
    exact sets_parseOptWhere mem _ _

/-- The assignments of a statement come from its tokens. -/
theorem sets_parseSql {mem : Uninit} {input : CStr} {sql : ParsedSQL}
    (h : parseSql mem input = some sql) : sql.sets = setsFrom mem 0 (assignmentsOf input) := by
  unfold parseSql at h
  unfold assignmentsOf
  cases htok : tokenize input with
  | nil => exact absurd (htok ▸ h) (by simp [parseTokens])
  | cons kw ts =>
    rw [htok, parseTokens, Option.some.injEq] at h
    rw [← h]
    dsimp only
    by_cases hupdate : ieq kw "UPDATE".toList = true
    · rw [if_pos hupdate, if_neg (not_ieq_of_ieq hupdate (by decide)),
        if_neg (not_ieq_of_ieq hupdate (by decide)), if_neg (not_ieq_of_ieq hupdate (by decide)),
        if_neg (not_ieq_of_ieq hupdate (by decide)), if_pos hupdate]
      unfold parseUpdate
      dsimp only
      cases matchTok "SET".toList ts.tail with
      | none => rfl
      | some ts₁ =>
        dsimp only
        rw [setLoop_eq, sets_parseOptWhere]
        rfl
    · rw [if_neg hupdate, if_neg hupdate]
      split_ifs
      · unfold parseCreate
        dsimp only
        split <;> rfl
      · unfold parseInsert
        dsimp only
        split
        · rfl
        · rfl
        · split
          · rfl
          · split <;> rfl
      · exact sets_parseSelect mem ts
      · unfold parseDelete
        dsimp only
        cases matchTok "FROM".toList ts with
        | none => rfl
        | some ts₁ => exact sets_parseOptWhere mem _ _
      · rfl

end MiniSql
