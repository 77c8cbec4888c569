import MiniSql.Parser
import Mathlib.Data.List.Forall2

/-!
# The grammar of the statements

The statements that `parser.c` documents, the token lists that spell them, and what the parser
makes of these. Keywords are spelled in any case; names and literals are tokens.

## Main definitions

* `Name`, `Literal`, `Operator`, `Column`, `Cond`, `Where`, `Statement` — the syntax trees.
* `Statement.Spelled` — the token lists of a statement.
* `Statement.parsed` — the `ParsedSQL` of a statement.

## Main results

* `parseTokens_spelled` — the parser reads what the grammar says.
-/

namespace MiniSql
open CText

namespace Grammar

/-! ## Syntax trees -/

/-- A name is a word, but none at which the list of columns of a `SELECT` ends. -/
structure Name where
  text : CStr
  ne_nil : text ≠ []
  word : ∀ c ∈ text, isWordChar c = true
  not_comment : ¬ ['-', '-'] <+: text
  not_stop : isSelectStopToken text = false

/-- A literal has no quotes in it. -/
structure Literal where
  text : CStr
  no_single : '\'' ∉ text
  no_double : '"' ∉ text

/-- The comparison operators, and `LIKE` in any case. -/
structure Operator where
  text : CStr
  known : text ∈ ["=".toList, ">".toList, "<".toList, ">=".toList, "<=".toList, "!=".toList] ∨
    ieq text "LIKE".toList = true

/-- A column of a `SELECT`. Without a name as its argument, a call has `*`. -/
inductive Column
  | star
  | name (n : Name)
  | call (f : Name) (arg : Option Name)

inductive Cond
  | compare (column : Name) (op : Operator) (value : Literal)
  | between (column : Name) (low high : Literal)

/-- The conditions after the first one have `OR` in front of them or `AND`. -/
structure Where where
  first : Cond
  rest : List (Bool × Cond)

/-- `ORDER BY`, with `ASC`, with `DESC` or with neither. -/
structure Order where
  column : Name
  asc : Option Bool

inductive Statement
  | create (table : Name) (defs : List (Name × Name))
  | insert (table : Name) (columns : List Name) (values : List Literal)
  | select (columns : List Column) (table : Name) (conds : Option Where) (order : Option Order)
      (limit : Option CStr)
  | delete (table : Name) (conds : Option Where)
  | update (table : Name) (sets : List (Name × Literal)) (conds : Option Where)

/-! ## Spelling -/

/-- A keyword in any case, or a given token. -/
inductive Symbol
  | keyword (k : CStr)
  | token (t : CStr)

def Symbol.Matches : Symbol → CStr → Prop
  | keyword k, t => ieq t k = true
  | token s, t => t = s

/-- The tokens are those symbols, one by one. -/
def Spells (symbols : List Symbol) (tokens : List CStr) : Prop :=
  List.Forall₂ Symbol.Matches symbols tokens

/-- Commas between the symbols of the members of a list. -/
def sepBy : List (List Symbol) → List Symbol
  | [] => []
  | [x] => x
  | x :: y :: xs => x ++ .token [','] :: sepBy (y :: xs)

def Column.symbols : Column → List Symbol
  | star => [.token ['*']]
  | name n => [.token n.text]
  | call f arg =>
    [.token f.text, .token ['('], .token ((arg.map Name.text).getD ['*']), .token [')']]

def Cond.symbols : Cond → List Symbol
  | compare column op value => [.token column.text, .token op.text, .token value.text]
  | between column low high =>
    [.token column.text, .keyword "BETWEEN".toList, .token low.text, .keyword "AND".toList,
      .token high.text]

/-- The connective in front of a condition. -/
def linkText (isOr : Bool) : CStr := if isOr then "OR".toList else "AND".toList

def Where.symbols (w : Where) : List Symbol :=
  w.first.symbols ++ w.rest.flatMap fun c => .keyword (linkText c.1) :: c.2.symbols

/-- The symbols of a clause that may be left out. -/
def optSymbols (keyword : CStr) (symbols : Option (List Symbol)) : List Symbol :=
  (symbols.map (.keyword keyword :: ·)).getD []

def Order.symbols (o : Order) : List Symbol :=
  .keyword "BY".toList :: .token o.column.text ::
    match o.asc with
    | none => []
    | some true => [.keyword "ASC".toList]
    | some false => [.keyword "DESC".toList]

def Statement.symbols : Statement → List Symbol
  | create table defs =>
    [.keyword "CREATE".toList, .keyword "TABLE".toList, .token table.text, .token ['(']] ++
      sepBy (defs.map fun d => [.token d.1.text, .token d.2.text]) ++ [.token [')']]
  | insert table columns values =>
    [.keyword "INSERT".toList, .keyword "INTO".toList, .token table.text, .token ['(']] ++
      sepBy (columns.map fun n => [.token n.text]) ++
      [.token [')'], .keyword "VALUES".toList, .token ['(']] ++
      sepBy (values.map fun v => [.token v.text]) ++ [.token [')']]
  | select columns table conds order limit =>
    .keyword "SELECT".toList :: sepBy (columns.map Column.symbols) ++
      [.keyword "FROM".toList, .token table.text] ++
      optSymbols "WHERE".toList (conds.map Where.symbols) ++
      optSymbols "ORDER".toList (order.map Order.symbols) ++
      optSymbols "LIMIT".toList (limit.map fun n => [.token n])
  | delete table conds =>
    [.keyword "DELETE".toList, .keyword "FROM".toList, .token table.text] ++
      optSymbols "WHERE".toList (conds.map Where.symbols)
  | update table sets conds =>
    [.keyword "UPDATE".toList, .token table.text, .keyword "SET".toList] ++
      sepBy (sets.map fun s => [.token s.1.text, .token ['='], .token s.2.text]) ++
      optSymbols "WHERE".toList (conds.map Where.symbols)

/-- What may follow a statement. -/
def IsEnd (tokens : List CStr) : Prop := tokens = [] ∨ tokens = [[';']]

/-- The token lists of a statement. -/
def Statement.Spelled (st : Statement) (tokens : List CStr) : Prop :=
  ∃ ts rest, tokens = ts ++ rest ∧ Spells st.symbols ts ∧ IsEnd rest

/-! ## What the parser makes of them -/

def Cond.clause (mem : Uninit) (i : ℕ) : Cond → WhereClause
  | compare column op value => whereClause mem i column.text op.text value.text
  | between column low high => betweenClause mem i column.text low.text high.text

/-- The conditions from the `i`-th on. -/
def clauses (mem : Uninit) : ℕ → List Cond → List WhereClause
  | _, [] => []
  | i, c :: cs => c.clause mem i :: clauses mem (i + 1) cs

def Where.conds (w : Where) : List Cond := w.first :: w.rest.map Prod.snd

def Where.links (w : Where) : List CStr := w.rest.map fun c => linkText c.1

/-- The fields of the `WHERE` clause. -/
def withWhere (mem : Uninit) (conds : Option Where) (sql : ParsedSQL) : ParsedSQL :=
  match conds with
  | none => sql
  | some w =>
    { sql with
      conds := clauses mem 0 w.conds, whereLinks := w.links, whereLogic := commonLogic w.links }

/-- The assignments from the `i`-th on. -/
def setClauses (mem : Uninit) : ℕ → List (Name × Literal) → List SetClause
  | _, [] => []
  | i, s :: ss => setClause mem i s.1.text s.2.text :: setClauses mem (i + 1) ss

/-- A column as it is stored. -/
def Column.text : Column → CStr
  | star => ['*']
  | name n => n.text.take 159
  | call f arg => (f.text ++ '(' :: ((arg.map Name.text).getD ['*'] ++ [')'])).take 159

def Statement.parsed (mem : Uninit) : Statement → ParsedSQL
  | create table defs =>
    { parsedNew with
      type := .create, table := table.text.take 63,
      colDefs := defs.map fun d => colDefText (d.1.text, d.2.text) }
  | insert table columns values =>
    { parsedNew with
      type := .insert, table := table.text.take 63, columns := columns.map Name.text,
      values := (values.map Literal.text).takeWhile (· ≠ [')']) }
  | select columns table conds order limit =>
    withWhere mem conds { parsedNew with
      type := .select, table := table.text.take 63, columns := columns.map Column.text,
      orderBy := order.map fun o => ⟨o.column.text.take 63, o.asc.getD true⟩,
      limit := (limit.map atoi).getD (-1) }
  | delete table conds =>
    withWhere mem conds { parsedNew with type := .delete, table := table.text.take 63 }
  | update table sets conds =>
    withWhere mem conds { parsedNew with
      type := .update, table := table.text.take 63, sets := setClauses mem 0 sets }

/-! ## Keywords and symbols -/

/-- A token that spells one keyword spells no other one. -/
theorem ieq_other {t k kw : CStr} (h : ieq t k = true) (hne : ieq k kw = false) :
    ieq t kw = false := by
  by_contra hkw
  rw [Bool.not_eq_false] at hkw
  have hcomm : ieq k t = true := (equalsIgnoreCase_comm k t).trans h
  have := equalsIgnoreCase_trans hcomm hkw
  rw [ieq] at hne
  rw [this] at hne
  exact absurd hne (by decide)

theorem matchTok_ieq {t kw : CStr} (h : ieq t kw = true) (ts : List CStr) :
    matchTok kw (t :: ts) = some ts := if_pos h

theorem matchTok_not {t kw : CStr} (h : ieq t kw = false) (ts : List CStr) :
    matchTok kw (t :: ts) = none := if_neg (by simp [h])

@[simp] theorem spells_nil {ts : List CStr} : Spells [] ts ↔ ts = [] := List.forall₂_nil_left_iff

@[simp] theorem spells_token {s : CStr} {symbols : List Symbol} {ts : List CStr} :
    Spells (.token s :: symbols) ts ↔ ∃ ts', ts = s :: ts' ∧ Spells symbols ts' := by
  rw [Spells, List.forall₂_cons_left_iff]
  constructor
  · rintro ⟨t, ts', rfl, hts, rfl⟩
    exact ⟨ts', rfl, hts⟩
  · rintro ⟨ts', rfl, hts⟩
    exact ⟨s, ts', rfl, hts, rfl⟩

@[simp] theorem spells_keyword {k : CStr} {symbols : List Symbol} {ts : List CStr} :
    Spells (.keyword k :: symbols) ts ↔
      ∃ t ts', ts = t :: ts' ∧ ieq t k = true ∧ Spells symbols ts' := by
  rw [Spells, List.forall₂_cons_left_iff]
  constructor
  · rintro ⟨t, ts', hk, hts, rfl⟩
    exact ⟨t, ts', rfl, hk, hts⟩
  · rintro ⟨t, ts', rfl, hk, hts⟩
    exact ⟨t, ts', hk, hts, rfl⟩

theorem spells_append {a b : List Symbol} {ts : List CStr} :
    Spells (a ++ b) ts ↔ ∃ u v, ts = u ++ v ∧ Spells a u ∧ Spells b v := by
  induction a generalizing ts with
  | nil => simp
  | cons s a ih =>
    rw [List.cons_append]
    cases s with
    | token s =>
      rw [spells_token]
      constructor
      · rintro ⟨ts', rfl, hts⟩
        obtain ⟨u, v, rfl, hu, hv⟩ := ih.mp hts
        exact ⟨s :: u, v, rfl, spells_token.mpr ⟨u, rfl, hu⟩, hv⟩
      · rintro ⟨u, v, rfl, hu, hv⟩
        obtain ⟨u', rfl, hu'⟩ := spells_token.mp hu
        exact ⟨u' ++ v, rfl, ih.mpr ⟨u', v, rfl, hu', hv⟩⟩
    | keyword k =>
      rw [spells_keyword]
      constructor
      · rintro ⟨t, ts', rfl, hk, hts⟩
        obtain ⟨u, v, rfl, hu, hv⟩ := ih.mp hts
        exact ⟨t :: u, v, rfl, spells_keyword.mpr ⟨t, u, rfl, hk, hu⟩, hv⟩
      · rintro ⟨u, v, rfl, hu, hv⟩
        obtain ⟨t, u', rfl, hk, hu'⟩ := spells_keyword.mp hu
        exact ⟨t, u' ++ v, rfl, hk, ih.mpr ⟨u', v, rfl, hu', hv⟩⟩

theorem spells_sepBy {x y : List Symbol} {xs : List (List Symbol)} {ts : List CStr} :
    Spells (sepBy (x :: y :: xs)) ts ↔
      ∃ u v, ts = u ++ [','] :: v ∧ Spells x u ∧ Spells (sepBy (y :: xs)) v := by
  rw [sepBy, spells_append]
  constructor
  · rintro ⟨u, v, rfl, hu, hv⟩
    obtain ⟨v', rfl, hv'⟩ := spells_token.mp hv
    exact ⟨u, v', rfl, hu, hv'⟩
  · rintro ⟨u, v, rfl, hu, hv⟩
    exact ⟨u, [','] :: v, rfl, hu, spells_token.mpr ⟨v, rfl, hv⟩⟩

theorem Name.ne_close (n : Name) : n.text ≠ [')'] := by
  intro h
  exact absurd (n.word ')' (by rw [h]; simp)) (by decide)

theorem Name.ne_end (n : Name) : n.text ≠ [';'] := by
  intro h
  exact absurd (n.word ';' (by rw [h]; simp)) (by decide)

/-! ## Lists of names and values -/

/-- The list of values ends at the first literal `)`. -/
theorem identListLoop_spelled {xs : List CStr} {ts : List CStr}
    (h : Spells (sepBy (xs.map fun x => [.token x])) ts) (rest : List CStr) :
    (identListLoop (ts ++ [')'] :: rest)).1 = xs.takeWhile (· ≠ [')']) ∧
      ([')'] ∉ xs → (identListLoop (ts ++ [')'] :: rest)).2 = [')'] :: rest) := by
  induction xs generalizing ts with
  | nil =>
    obtain rfl := spells_nil.mp h
    rw [List.nil_append, identListLoop.eq_def]
    simp
  | cons x xs ih =>
    cases xs with
    | nil =>
      obtain ⟨ts', rfl, h'⟩ := spells_token.mp h
      obtain rfl := spells_nil.mp h'
      have hcomma : ieq [')'] [','] = false := by decide
      rw [List.cons_append, List.nil_append, identListLoop.eq_def]
      by_cases hx : x = [')'] <;> simp [hx, hcomma]
    | cons y xs =>
      obtain ⟨u, v, rfl, hu, hv⟩ := spells_sepBy.mp h
      obtain ⟨u', rfl, hu'⟩ := spells_token.mp hu
      obtain rfl := spells_nil.mp hu'
      by_cases hx : x = [')']
      · rw [List.cons_append, identListLoop.eq_def]
        simp [hx]
      · obtain ⟨hfirst, hsecond⟩ := ih hv
        have hcomma := identListLoop_comma hx (v ++ [')'] :: rest)
        rw [List.append_assoc, List.cons_append, List.nil_append, List.cons_append, hcomma]
        refine ⟨by rw [List.takeWhile_cons_of_pos (by simpa using hx), hfirst], ?_⟩
        intro hnot
        exact hsecond fun hmem => hnot (List.mem_cons_of_mem x hmem)

/-- The loop of `parse_create`. -/
theorem colDefLoop_spelled {defs : List (Name × Name)} {ts : List CStr}
    (h : Spells (sepBy (defs.map fun d => [.token d.1.text, .token d.2.text])) ts)
    (rest : List CStr) :
    colDefLoop (ts ++ [')'] :: rest) = defs.map fun d => (d.1.text, d.2.text) := by
  induction defs generalizing ts with
  | nil =>
    obtain rfl := spells_nil.mp h
    rw [List.nil_append, colDefLoop.eq_def]
    cases rest <;> simp
  | cons d defs ih =>
    have hd := d.1.ne_close
    cases defs with
    | nil =>
      obtain ⟨ts', rfl, h'⟩ := spells_token.mp h
      obtain ⟨ts'', rfl, h''⟩ := spells_token.mp h'
      obtain rfl := spells_nil.mp h''
      have hcomma : ieq [')'] [','] = false := by decide
      rw [List.cons_append, List.cons_append, List.nil_append, colDefLoop]
      simp [hd, hcomma]
    | cons e defs =>
      obtain ⟨u, v, rfl, hu, hv⟩ := spells_sepBy.mp h
      obtain ⟨u', rfl, hu'⟩ := spells_token.mp hu
      obtain ⟨u'', rfl, hu''⟩ := spells_token.mp hu'
      obtain rfl := spells_nil.mp hu''
      have hcomma : ieq [','] [','] = true := by decide
      rw [List.append_assoc, List.cons_append, List.cons_append, List.nil_append, List.cons_append,
        colDefLoop, if_neg hd, if_pos hcomma, ih hv]
      rfl

/-- The loop over the assignments. -/
theorem setLoop_spelled (sets : List (Name × Literal)) {ts : List CStr}
    (h : Spells (sepBy (sets.map fun s => [.token s.1.text, .token ['='], .token s.2.text])) ts)
    {rest : List CStr} (hrest : ∀ t ∈ rest.head?, ieq t "WHERE".toList = true ∨ t = [';'])
    (mem : Uninit) (i : ℕ) : setLoop mem i (ts ++ rest) = (setClauses mem i sets, rest) := by
  induction sets generalizing ts i with
  | nil =>
    obtain rfl := spells_nil.mp h
    rw [List.nil_append, setLoop.eq_def]
    cases rest with
    | nil => rfl
    | cons t rest =>
      dsimp only
      rw [if_pos (by simpa using hrest t rfl)]
      rfl
  | cons s sets ih =>
    have hstop : ¬ (ieq s.1.text "WHERE".toList || s.1.text == [';']) = true := by
      have hnot := s.1.not_stop
      simp only [isSelectStopToken, Bool.or_eq_false_iff] at hnot
      rw [hnot.1.1.1.1.2, hnot.2]
      decide
    cases sets with
    | nil =>
      obtain ⟨u₁, rfl, h₁⟩ := spells_token.mp h
      obtain ⟨u₂, rfl, h₂⟩ := spells_token.mp h₁
      obtain ⟨u₃, rfl, h₃⟩ := spells_token.mp h₂
      obtain rfl := spells_nil.mp h₃
      rw [List.cons_append, setLoop.eq_def]
      dsimp only
      rw [if_neg hstop]
      cases rest with
      | nil => rfl
      | cons t rest =>
        have hcomma : ieq t [','] = false := by
          rcases hrest t rfl with hwhere | rfl
          · exact ieq_other hwhere (by decide)
          · decide
        simp only [List.cons_append, List.nil_append, hcomma]
        rfl
    | cons e sets =>
      obtain ⟨u, v, rfl, hu, hv⟩ := spells_sepBy.mp h
      obtain ⟨u₁, rfl, h₁⟩ := spells_token.mp hu
      obtain ⟨u₂, rfl, h₂⟩ := spells_token.mp h₁
      obtain ⟨u₃, rfl, h₃⟩ := spells_token.mp h₂
      obtain rfl := spells_nil.mp h₃
      have hcomma : ieq [','] [','] = true := by decide
      have hih := ih hv (i + 1)
      rw [List.append_assoc, List.cons_append, setLoop.eq_def]
      dsimp only
      rw [if_neg hstop]
      simp only [List.cons_append, List.nil_append, hcomma, if_true, hih]
      rfl

/-! ## The columns of a `SELECT` -/

/-- Appending to a full buffer changes nothing, so it may be cut in between. -/
theorem bufAppend_take (n : ℕ) (buf s : CStr) : bufAppend n (buf.take n) s = (buf ++ s).take n := by
  rw [bufAppend, List.take_append, List.take_append, List.take_take, min_self]
  rcases Nat.le_total buf.length n with h | h
  · rw [List.take_of_length_le h]
  · rw [List.length_take_of_le h, Nat.sub_self, Nat.sub_eq_zero_of_le h]

theorem callArgs_spelled {t : CStr} (hclose : t ≠ [')']) (hend : t ≠ [';']) (ts : List CStr)
    (buf : CStr) :
    callArgs (t :: [')'] :: ts) (buf.take 159) = ((buf ++ (t ++ [')'])).take 159, ts) := by
  rw [callArgs, if_neg hclose, if_neg hend, callArgs, if_pos rfl, bufAppend_take, bufAppend_take,
    List.append_assoc]

theorem selectColumn_spelled {c : Column} {ts : List CStr} (h : Spells c.symbols ts)
    (rest : List CStr) (hrest : rest.head? ≠ some ['(']) :
    ∃ first ts', ts = first :: ts' ∧ isSelectStopToken first = false ∧
      selectColumn first (ts' ++ rest) = (c.text, rest) := by
  have hplain : ∀ t : CStr, selectColumn t rest = (t.take 159, rest) := by
    intro t
    cases rest with
    | nil => rfl
    | cons r rest => exact if_neg fun hr => hrest (by rw [hr]; rfl)
  cases c with
  | star =>
    obtain ⟨ts', rfl, h'⟩ := spells_token.mp h
    obtain rfl := spells_nil.mp h'
    exact ⟨['*'], [], rfl, by decide, hplain _⟩
  | name n =>
    obtain ⟨ts', rfl, h'⟩ := spells_token.mp h
    obtain rfl := spells_nil.mp h'
    exact ⟨n.text, [], rfl, n.not_stop, hplain _⟩
  | call f arg =>
    obtain ⟨u₁, rfl, h₁⟩ := spells_token.mp h
    obtain ⟨u₂, rfl, h₂⟩ := spells_token.mp h₁
    obtain ⟨u₃, rfl, h₃⟩ := spells_token.mp h₂
    obtain ⟨u₄, rfl, h₄⟩ := spells_token.mp h₃
    obtain rfl := spells_nil.mp h₄
    refine ⟨f.text, _, rfl, f.not_stop, ?_⟩
    have harg : (arg.map Name.text).getD ['*'] ≠ [')'] ∧ (arg.map Name.text).getD ['*'] ≠ [';'] := by
      cases arg with
      | none => decide
      | some n => exact ⟨n.ne_close, n.ne_end⟩
    rw [List.cons_append, selectColumn, if_pos rfl, bufAppend_take]
    simp only [List.cons_append, List.nil_append]
    rw [callArgs_spelled harg.1 harg.2, Column.text, List.append_assoc]
    rfl

/-- The loop over the columns of a `SELECT`. -/
theorem selectColumnsLoop_spelled {columns : List Column} {ts : List CStr}
    (h : Spells (sepBy (columns.map Column.symbols)) ts) {t : CStr}
    (ht : ieq t "FROM".toList = true) (rest : List CStr) {n : ℕ} (hn : ts.length < n) :
    selectColumnsLoop n (ts ++ t :: rest) = (columns.map Column.text, t :: rest) := by
  have hopen : t ≠ ['('] := by
    rintro rfl
    exact absurd ht (by decide)
  have hcomma : matchTok [','] (t :: rest) = none := matchTok_not (ieq_other ht (by decide)) rest
  induction columns generalizing ts n with
  | nil =>
    obtain rfl := spells_nil.mp h
    obtain ⟨n, rfl⟩ : ∃ k, n = k + 1 := ⟨n - 1, by omega⟩
    have hstop : isSelectStopToken t = true := by
      rw [isSelectStopToken, ht]
      rfl
    rw [List.nil_append, selectColumnsLoop, if_pos hstop]
    rfl
  | cons c columns ih =>
    obtain ⟨n, rfl⟩ : ∃ k, n = k + 1 := ⟨n - 1, by omega⟩
    cases columns with
    | nil =>
      obtain ⟨first, ts', rfl, hstop, hcol⟩ := selectColumn_spelled h (t :: rest)
        (by simpa using hopen)
      rw [List.cons_append, selectColumnsLoop, if_neg (by simp [hstop]), hcol]
      dsimp only
      rw [hcomma]
      rfl
    | cons d columns =>
      obtain ⟨u, v, rfl, hu, hv⟩ := spells_sepBy.mp h
      obtain ⟨first, ts', rfl, hstop, hcol⟩ := selectColumn_spelled hu
        ([','] :: (v ++ t :: rest)) (by simp)
      have hmatch : matchTok [','] ([','] :: (v ++ t :: rest)) = some (v ++ t :: rest) :=
        matchTok_ieq (by decide) _
      rw [List.append_assoc, List.cons_append, List.cons_append, selectColumnsLoop,
        if_neg (by simp [hstop]), hcol]
      dsimp only
      rw [hmatch]
      dsimp only
      rw [ih hv (by simp at hn; omega)]
      rfl

/-! ## Clauses -/

/-- No operator is `BETWEEN`. -/
theorem Operator.not_between (op : Operator) : ieq op.text "BETWEEN".toList = false := by
  have hsymbol : ∀ t ∈ ["=".toList, ">".toList, "<".toList, ">=".toList, "<=".toList, "!=".toList],
      ieq t "BETWEEN".toList = false := by decide
  rcases op.known with h | h
  · exact hsymbol _ h
  · exact ieq_other h (by decide)

theorem readCondition_spelled {c : Cond} {ts : List CStr} (h : Spells c.symbols ts) (mem : Uninit)
    (i : ℕ) (rest : List CStr) :
    readCondition mem i (ts ++ rest) = some (c.clause mem i, true, rest) := by
  cases c with
  | compare column op value =>
    obtain ⟨u₁, rfl, h₁⟩ := spells_token.mp h
    obtain ⟨u₂, rfl, h₂⟩ := spells_token.mp h₁
    obtain ⟨u₃, rfl, h₃⟩ := spells_token.mp h₂
    obtain rfl := spells_nil.mp h₃
    simp only [List.cons_append, List.nil_append]
    have hop : ¬ ieq op.text "BETWEEN".toList = true := by rw [op.not_between]; decide
    rw [readCondition.eq_def]
    dsimp only
    rw [if_neg hop]
    rfl
  | between column low high =>
    obtain ⟨u₁, rfl, h₁⟩ := spells_token.mp h
    obtain ⟨t₂, u₂, rfl, hbetween, h₂⟩ := spells_keyword.mp h₁
    obtain ⟨u₃, rfl, h₃⟩ := spells_token.mp h₂
    obtain ⟨t₄, u₄, rfl, hand, h₄⟩ := spells_keyword.mp h₃
    obtain ⟨u₅, rfl, h₅⟩ := spells_token.mp h₄
    obtain rfl := spells_nil.mp h₅
    simp only [List.cons_append, List.nil_append]
    rw [readCondition.eq_def]
    dsimp only
    rw [if_pos hbetween, if_pos hand]
    rfl

theorem clauses_append (mem : Uninit) (i : ℕ) (cs ds : List Cond) :
    clauses mem i (cs ++ ds) = clauses mem i cs ++ clauses mem (i + cs.length) ds := by
  induction cs generalizing i with
  | nil => rfl
  | cons c cs ih =>
    rw [List.cons_append, clauses, clauses, ih, List.length_cons, List.cons_append, Nat.add_assoc,
      Nat.add_comm 1]

theorem length_clauses (mem : Uninit) (i : ℕ) (cs : List Cond) :
    (clauses mem i cs).length = cs.length := by
  induction cs generalizing i with
  | nil => rfl
  | cons c cs ih => rw [clauses, List.length_cons, List.length_cons, ih]

/-- A token that ends the conditions. -/
def NoLink (t : CStr) : Prop := ieq t "AND".toList = false ∧ ieq t "OR".toList = false

/-- The loop of `parse_where`, with the conditions `cs` behind it. -/
theorem parseWhereLoop_spelled {first : Cond} {more : List (Bool × Cond)} {ts : List CStr}
    (h : Spells (first.symbols ++ more.flatMap fun c => .keyword (linkText c.1) :: c.2.symbols) ts)
    {rest : List CStr} (hrest : ∀ t ∈ rest.head?, NoLink t) (mem : Uninit) (cs : List Cond)
    (links : List CStr) {n : ℕ} (hn : ts.length ≤ n) :
    parseWhereLoop mem n (ts ++ rest) (clauses mem 0 cs) links =
      (clauses mem 0 (cs ++ first :: more.map Prod.snd),
        links ++ more.map (fun c => linkText c.1), rest) := by
  induction more generalizing first ts cs links n with
  | nil =>
    rw [List.flatMap_nil, List.append_nil] at h
    obtain ⟨n, rfl⟩ : ∃ k, n = k + 1 := by
      cases first <;> obtain ⟨u, rfl, -⟩ := spells_token.mp h <;>
        exact ⟨n - 1, by simp at hn; omega⟩
    rw [parseWhereLoop, readCondition_spelled h, clauses_append, Nat.zero_add, length_clauses]
    cases rest with
    | nil => simp [clauses]
    | cons t rest =>
      obtain ⟨hand, hor⟩ := hrest t rfl
      dsimp only
      rw [hand, hor]
      simp [clauses]
  | cons c more ih =>
    rw [List.flatMap_cons, List.cons_append] at h
    obtain ⟨u, v, rfl, hu, hv⟩ := spells_append.mp h
    obtain ⟨t, v, rfl, ht, hv⟩ := spells_keyword.mp hv
    obtain ⟨n, rfl⟩ : ∃ k, n = k + 1 := ⟨n - 1, by simp at hn; omega⟩
    have hlink : (ieq t "AND".toList || ieq t "OR".toList) = true ∧
        (if ieq t "OR".toList then "OR".toList else "AND".toList) = linkText c.1 := by
      rcases hc : c.1 with _ | _ <;> rw [hc] at ht
      · exact ⟨by rw [show ieq t "AND".toList = true from ht]; rfl,
          if_neg (by rw [ieq_other ht (by decide)]; decide)⟩
      · exact ⟨by rw [show ieq t "OR".toList = true from ht, Bool.or_true], if_pos ht⟩
    have hstored : clauses mem 0 cs ++ [first.clause mem (clauses mem 0 cs).length] =
        clauses mem 0 (cs ++ [first]) := by
      rw [clauses_append, Nat.zero_add, length_clauses]
      rfl
    rw [List.append_assoc, List.cons_append, parseWhereLoop, readCondition_spelled hu]
    dsimp only
    rw [if_pos hlink.1, hlink.2, hstored, ih hv _ _ (by simp at hn; omega)]
    simp

/-- `parse_where`. -/
theorem parseWhere_spelled {w : Where} {ts : List CStr} (h : Spells w.symbols ts)
    {rest : List CStr} (hrest : ∀ t ∈ rest.head?, NoLink t) (mem : Uninit) (sql : ParsedSQL) :
    parseWhere mem (ts ++ rest) sql = (withWhere mem (some w) sql, rest) := by
  have hloop : parseWhereLoop mem (ts ++ rest).length (ts ++ rest) [] [] =
      (clauses mem 0 w.conds, w.links, rest) :=
    parseWhereLoop_spelled h hrest mem [] [] (by simp)
  have htrim : trimLinks (clauses mem 0 w.conds) w.links = w.links := by
    refine if_neg fun hlen => hlen.2 ?_
    rw [length_clauses]
    simp [Where.conds, Where.links]
  rw [parseWhere, hloop]
  dsimp only
  rw [htrim]
  rfl

/-- `if (match(t, "WHERE")) parse_where(t, sql);` -/
theorem parseOptWhere_spelled {conds : Option Where} {ts : List CStr}
    (h : Spells (optSymbols "WHERE".toList (conds.map Where.symbols)) ts)
    (rest : List CStr) (hrest : ∀ t ∈ rest.head?, NoLink t ∧ ieq t "WHERE".toList = false)
    (mem : Uninit) (sql : ParsedSQL) :
    parseOptWhere mem (ts ++ rest) sql = (withWhere mem conds sql, rest) := by
  cases conds with
  | none =>
    obtain rfl := spells_nil.mp h
    cases rest with
    | nil => rfl
    | cons t rest => rw [List.nil_append, parseOptWhere, matchTok_not (hrest t rfl).2]; rfl
  | some w =>
    obtain ⟨t, ts', rfl, ht, h'⟩ := spells_keyword.mp h
    rw [List.cons_append, parseOptWhere, matchTok_ieq ht]
    exact parseWhere_spelled h' (fun t ht => (hrest t ht).1) mem sql

theorem skipTok_ieq {t kw : CStr} (h : ieq t kw = true) (ts : List CStr) :
    skipTok kw (t :: ts) = ts := by rw [skipTok, matchTok_ieq h]; rfl

theorem skipTok_not {t kw : CStr} (h : ieq t kw = false) (ts : List CStr) :
    skipTok kw (t :: ts) = t :: ts := by rw [skipTok, matchTok_not h]; rfl

/-- A token that ends the columns and conditions, and is no part of `ORDER BY`. -/
def AfterOrder (t : CStr) : Prop :=
  ieq t "ORDER".toList = false ∧ ieq t "ASC".toList = false ∧ ieq t "DESC".toList = false

/-- `ORDER BY col [ASC|DESC]`. -/
theorem parseOrderBy_spelled {order : Option Order} {ts : List CStr}
    (h : Spells (optSymbols "ORDER".toList (order.map Order.symbols)) ts)
    {rest : List CStr} (hrest : ∀ t ∈ rest.head?, AfterOrder t) {sql : ParsedSQL}
    (hsql : sql.orderBy = none) :
    parseOrderBy (ts ++ rest) sql =
      ({ sql with orderBy := order.map fun o => ⟨o.column.text.take 63, o.asc.getD true⟩ },
        rest) := by
  cases order with
  | none =>
    obtain rfl := spells_nil.mp h
    have hnone : matchTok "ORDER".toList rest = none := by
      cases rest with
      | nil => rfl
      | cons t rest => exact matchTok_not (hrest t rfl).1 rest
    rw [List.nil_append, parseOrderBy, hnone]
    simp [← hsql]
  | some o =>
    obtain ⟨t₁, u₁, rfl, horder, h₁⟩ := spells_keyword.mp h
    obtain ⟨t₂, u₂, rfl, hby, h₂⟩ := spells_keyword.mp h₁
    obtain ⟨u₃, rfl, h₃⟩ := spells_token.mp h₂
    rw [List.cons_append, parseOrderBy, matchTok_ieq horder]
    dsimp only
    rw [List.cons_append, skipTok_ieq hby]
    rcases hasc : o.asc with _ | _ | _ <;> rw [hasc] at h₃
    · obtain rfl := spells_nil.mp h₃
      have hrest' : matchTok "DESC".toList rest = none ∧ skipTok "ASC".toList rest = rest := by
        cases rest with
        | nil => exact ⟨rfl, rfl⟩
        | cons t rest => exact ⟨matchTok_not (hrest t rfl).2.2 rest, skipTok_not (hrest t rfl).2.1 rest⟩
      rw [List.cons_append, List.nil_append, List.tail_cons, hrest'.1]
      dsimp only
      rw [hrest'.2, Option.map_some, hasc]
      rfl
    · obtain ⟨t₄, u₄, rfl, hdesc, h₄⟩ := spells_keyword.mp h₃
      obtain rfl := spells_nil.mp h₄
      rw [List.cons_append, List.tail_cons, List.cons_append, matchTok_ieq hdesc]
      dsimp only
      rw [Option.map_some, hasc]
      rfl
    · obtain ⟨t₄, u₄, rfl, hasc', h₄⟩ := spells_keyword.mp h₃
      obtain rfl := spells_nil.mp h₄
      rw [List.cons_append, List.tail_cons, List.cons_append, matchTok_not (ieq_other hasc' (by decide))]
      dsimp only
      rw [skipTok_ieq hasc', Option.map_some, hasc]
      rfl

theorem parseLimit_spelled {limit : Option CStr} {ts : List CStr}
    (h : Spells (optSymbols "LIMIT".toList (limit.map fun n => [.token n])) ts)
    {rest : List CStr} (hrest : IsEnd rest) {sql : ParsedSQL} (hsql : sql.limit = -1) :
    parseLimit (ts ++ rest) sql = { sql with limit := (limit.map atoi).getD (-1) } := by
  cases limit with
  | none =>
    obtain rfl := spells_nil.mp h
    have hnone : matchTok "LIMIT".toList rest = none := by
      rcases hrest with rfl | rfl
      · rfl
      · exact matchTok_not (by decide) []
    rw [List.nil_append, parseLimit, hnone]
    simp [← hsql]
  | some n =>
    obtain ⟨t, u₁, rfl, hlimit, h₁⟩ := spells_keyword.mp h
    obtain ⟨u₂, rfl, h₂⟩ := spells_token.mp h₁
    obtain rfl := spells_nil.mp h₂
    rw [List.cons_append, parseLimit, matchTok_ieq hlimit]
    rfl

/-! ## Statements -/

/-- How the tokens after the table of a statement start. -/
theorem head_optSymbols {keyword : CStr} {symbols : Option (List Symbol)} {ts rest : List CStr}
    (h : Spells (optSymbols keyword symbols) ts) {t : CStr} (ht : t ∈ (ts ++ rest).head?) :
    ieq t keyword = true ∨ t ∈ rest.head? := by
  cases symbols with
  | none =>
    obtain rfl := spells_nil.mp h
    exact Or.inr ht
  | some symbols =>
    obtain ⟨t', ts', rfl, ht', -⟩ := spells_keyword.mp h
    obtain rfl : t' = t := by simpa using ht
    exact Or.inl ht'

theorem IsEnd.head {rest : List CStr} (h : IsEnd rest) {t : CStr} (ht : t ∈ rest.head?) :
    t = [';'] := by
  rcases h with rfl | rfl
  · simp at ht
  · simpa using ht.symm

theorem orderBy_withWhere (mem : Uninit) (conds : Option Where) (sql : ParsedSQL) :
    (withWhere mem conds sql).orderBy = sql.orderBy := by cases conds <;> rfl

theorem parseSelect_spelled {columns : List Column} {table : Name} {conds : Option Where}
    {order : Option Order} {limit : Option CStr} {kw : CStr} {ts rest : List CStr}
    (h : Spells (Statement.select columns table conds order limit).symbols (kw :: ts))
    (hrest : IsEnd rest) (mem : Uninit) :
    parseSelect mem (ts ++ rest) parsedNew =
      (Statement.select columns table conds order limit).parsed mem := by
  rw [Statement.symbols] at h
  obtain ⟨ts₁, ulimit, hts, h, hlimit⟩ := spells_append.mp h
  obtain ⟨ts₂, uorder, rfl, h, horder⟩ := spells_append.mp h
  obtain ⟨ts₃, uwhere, rfl, h, hwhere⟩ := spells_append.mp h
  obtain ⟨ts₄, ufrom, rfl, h, hfrom⟩ := spells_append.mp h
  obtain ⟨kw', ucols, rfl, -, hcols⟩ := spells_keyword.mp h
  obtain ⟨tfrom, u₁, rfl, htfrom, h₁⟩ := spells_keyword.mp hfrom
  obtain ⟨u₂, rfl, h₂⟩ := spells_token.mp h₁
  obtain rfl := spells_nil.mp h₂
  simp only [List.cons_append, List.nil_append, List.append_assoc, List.cons.injEq] at hts
  obtain ⟨-, rfl⟩ := hts
  have hlimitHead : ∀ t ∈ (ulimit ++ rest).head?, ieq t "LIMIT".toList = true ∨ t = [';'] := by
    intro t ht
    exact (head_optSymbols hlimit ht).imp_right hrest.head
  have horderHead : ∀ t ∈ (uorder ++ (ulimit ++ rest)).head?,
      ieq t "ORDER".toList = true ∨ ieq t "LIMIT".toList = true ∨ t = [';'] := by
    intro t ht
    exact (head_optSymbols horder ht).imp_right (hlimitHead t)
  have hcolumns := selectColumnsLoop_spelled hcols htfrom
    (table.text :: (uwhere ++ (uorder ++ (ulimit ++ rest))))
    (n := (ucols ++ tfrom :: table.text :: (uwhere ++ (uorder ++ (ulimit ++ rest)))).length)
    (by simp)
  have hconds := parseOptWhere_spelled hwhere (uorder ++ (ulimit ++ rest))
    (fun t ht => by
      rcases horderHead t ht with ht | ht | rfl
      · exact ⟨⟨ieq_other ht (by decide), ieq_other ht (by decide)⟩, ieq_other ht (by decide)⟩
      · exact ⟨⟨ieq_other ht (by decide), ieq_other ht (by decide)⟩, ieq_other ht (by decide)⟩
      · exact ⟨⟨by decide, by decide⟩, by decide⟩) mem
    { parsedNew with
      type := .select, columns := columns.map Column.text, table := table.text.take 63 }
  have hafter : ∀ t ∈ (ulimit ++ rest).head?, AfterOrder t := by
    intro t ht
    rcases hlimitHead t ht with ht | rfl
    · exact ⟨ieq_other ht (by decide), ieq_other ht (by decide), ieq_other ht (by decide)⟩
    · exact ⟨by decide, by decide, by decide⟩
  simp only [List.append_assoc, List.cons_append]
  rw [parseSelect, hcolumns]
  dsimp only
  rw [matchTok_ieq htfrom]
  dsimp only [List.head?_cons, Option.getD_some, List.tail_cons]
  rw [hconds]
  dsimp only
  rw [parseOrderBy_spelled horder hafter (by rw [orderBy_withWhere]; rfl)]
  dsimp only
  rw [parseLimit_spelled hlimit hrest (by cases conds <;> rfl)]
  cases conds <;> rfl

/-- After a table of a `DELETE` and the assignments of an `UPDATE`. -/
theorem IsEnd.head_where {rest : List CStr} (h : IsEnd rest) :
    ∀ t ∈ rest.head?, NoLink t ∧ ieq t "WHERE".toList = false := by
  intro t ht
  rw [h.head ht]
  exact ⟨⟨by decide, by decide⟩, by decide⟩

theorem parseDelete_spelled {table : Name} {conds : Option Where} {kw : CStr}
    {ts rest : List CStr} (h : Spells (Statement.delete table conds).symbols (kw :: ts))
    (hrest : IsEnd rest) (mem : Uninit) :
    parseDelete mem (ts ++ rest) parsedNew = (Statement.delete table conds).parsed mem := by
  obtain ⟨ts₁, uwhere, hts, h, hwhere⟩ := spells_append.mp h
  obtain ⟨kw', u₁, rfl, -, h₁⟩ := spells_keyword.mp h
  obtain ⟨tfrom, u₂, rfl, htfrom, h₂⟩ := spells_keyword.mp h₁
  obtain ⟨u₃, rfl, h₃⟩ := spells_token.mp h₂
  obtain rfl := spells_nil.mp h₃
  simp only [List.cons_append, List.nil_append, List.cons.injEq] at hts
  obtain ⟨-, rfl⟩ := hts
  rw [List.cons_append, parseDelete]
  dsimp only
  rw [matchTok_ieq htfrom, List.cons_append]
  dsimp only [List.head?_cons, Option.getD_some, List.tail_cons]
  rw [parseOptWhere_spelled hwhere rest hrest.head_where]
  rfl

theorem parseUpdate_spelled {table : Name} {sets : List (Name × Literal)} {conds : Option Where}
    {kw : CStr} {ts rest : List CStr}
    (h : Spells (Statement.update table sets conds).symbols (kw :: ts))
    (hrest : IsEnd rest) (mem : Uninit) :
    parseUpdate mem (ts ++ rest) parsedNew = (Statement.update table sets conds).parsed mem := by
  obtain ⟨ts₁, uwhere, hts, h, hwhere⟩ := spells_append.mp h
  obtain ⟨ts₂, usets, rfl, h, hsets⟩ := spells_append.mp h
  obtain ⟨kw', u₁, rfl, -, h₁⟩ := spells_keyword.mp h
  obtain ⟨u₂, rfl, h₂⟩ := spells_token.mp h₁
  obtain ⟨tset, u₃, rfl, htset, h₃⟩ := spells_keyword.mp h₂
  obtain rfl := spells_nil.mp h₃
  simp only [List.cons_append, List.nil_append, List.cons.injEq] at hts
  obtain ⟨-, rfl⟩ := hts
  have hhead : ∀ t ∈ (uwhere ++ rest).head?, ieq t "WHERE".toList = true ∨ t = [';'] := by
    intro t ht
    exact (head_optSymbols hwhere ht).imp_right hrest.head
  simp only [List.cons_append, List.append_assoc]
  rw [parseUpdate]
  dsimp only [List.tail_cons, List.head?_cons, Option.getD_some]
  rw [matchTok_ieq htset]
  dsimp only
  rw [setLoop_spelled sets hsets hhead]
  dsimp only
  rw [parseOptWhere_spelled hwhere rest hrest.head_where]
  cases conds <;> rfl

theorem parseInsert_spelled {table : Name} {columns : List Name} {values : List Literal}
    {kw : CStr} {ts rest : List CStr}
    (h : Spells (Statement.insert table columns values).symbols (kw :: ts)) (mem : Uninit) :
    parseInsert (ts ++ rest) parsedNew =
      (Statement.insert table columns values).parsed mem := by
  obtain ⟨ts₁, uclose, hts, h, hclose⟩ := spells_append.mp h
  obtain ⟨ts₂, uvalues, rfl, h, hvalues⟩ := spells_append.mp h
  obtain ⟨ts₃, ukw, rfl, h, hkw⟩ := spells_append.mp h
  obtain ⟨ts₄, ucolumns, rfl, h, hcolumns⟩ := spells_append.mp h
  obtain ⟨kw', u₁, rfl, -, h₁⟩ := spells_keyword.mp h
  obtain ⟨tinto, u₂, rfl, htinto, h₂⟩ := spells_keyword.mp h₁
  obtain ⟨u₃, rfl, h₃⟩ := spells_token.mp h₂
  obtain ⟨u₄, rfl, h₄⟩ := spells_token.mp h₃
  obtain rfl := spells_nil.mp h₄
  obtain ⟨u₅, rfl, h₅⟩ := spells_token.mp hkw
  obtain ⟨tvalues, u₆, rfl, htvalues, h₆⟩ := spells_keyword.mp h₅
  obtain ⟨u₇, rfl, h₇⟩ := spells_token.mp h₆
  obtain rfl := spells_nil.mp h₇
  obtain ⟨u₈, rfl, h₈⟩ := spells_token.mp hclose
  obtain rfl := spells_nil.mp h₈
  simp only [List.cons_append, List.nil_append, List.append_assoc, List.cons.injEq] at hts
  obtain ⟨-, rfl⟩ := hts
  have hcolumns' : Spells (sepBy ((columns.map Name.text).map fun x => [.token x])) ucolumns := by
    rw [List.map_map]
    exact hcolumns
  have hvalues' : Spells (sepBy ((values.map Literal.text).map fun x => [.token x])) uvalues := by
    rw [List.map_map]
    exact hvalues
  have hnot : [')'] ∉ columns.map Name.text := by
    intro hmem
    obtain ⟨n, -, hn⟩ := List.mem_map.mp hmem
    exact n.ne_close hn
  have htake : (columns.map Name.text).takeWhile (· ≠ [')']) = columns.map Name.text := by
    refine List.takeWhile_eq_self_iff.mpr fun x hx => ?_
    simpa using fun heq : x = [')'] => hnot (heq ▸ hx)
  obtain ⟨hfirst, hsecond⟩ := identListLoop_spelled hcolumns'
    (tvalues :: ['('] :: (uvalues ++ [')'] :: rest))
  have hlist : parseIdentList (ucolumns ++ [')'] :: tvalues :: ['('] :: (uvalues ++ [')'] :: rest)) =
      (columns.map Name.text, tvalues :: ['('] :: (uvalues ++ [')'] :: rest)) := by
    rw [parseIdentList]
    dsimp only
    rw [hfirst, hsecond hnot, htake, skipTok_ieq (by decide)]
  have hopen : ∀ us : List CStr, matchTok ['('] (['('] :: us) = some us := matchTok_ieq (by decide)
  have hlast : (parseIdentList (uvalues ++ [')'] :: rest)).1 =
      (values.map Literal.text).takeWhile (· ≠ [')']) := (identListLoop_spelled hvalues' rest).1
  simp only [List.cons_append, List.nil_append, List.append_assoc]
  rw [parseInsert]
  dsimp only
  rw [matchTok_ieq htinto]
  dsimp only
  rw [hopen]
  dsimp only
  rw [hlist]
  dsimp only
  rw [matchTok_ieq htvalues, Option.bind_some, hopen]
  dsimp only
  rw [hlast]
  rfl

theorem parseCreate_spelled {table : Name} {defs : List (Name × Name)} {kw : CStr}
    {ts rest : List CStr} (h : Spells (Statement.create table defs).symbols (kw :: ts))
    (mem : Uninit) :
    parseCreate (ts ++ rest) parsedNew = (Statement.create table defs).parsed mem := by
  obtain ⟨ts₁, uclose, hts, h, hclose⟩ := spells_append.mp h
  obtain ⟨ts₂, udefs, rfl, h, hdefs⟩ := spells_append.mp h
  obtain ⟨kw', u₁, rfl, -, h₁⟩ := spells_keyword.mp h
  obtain ⟨ttable, u₂, rfl, httable, h₂⟩ := spells_keyword.mp h₁
  obtain ⟨u₃, rfl, h₃⟩ := spells_token.mp h₂
  obtain ⟨u₄, rfl, h₄⟩ := spells_token.mp h₃
  obtain rfl := spells_nil.mp h₄
  obtain ⟨u₅, rfl, h₅⟩ := spells_token.mp hclose
  obtain rfl := spells_nil.mp h₅
  simp only [List.cons_append, List.nil_append, List.cons.injEq] at hts
  obtain ⟨-, rfl⟩ := hts
  have hdeclared : declaredColumns
      (ttable :: table.text :: ['('] :: (udefs ++ [')'] :: rest)) =
      defs.map fun d => (d.1.text, d.2.text) := by
    have hopen : matchTok ['('] (['('] :: (udefs ++ [')'] :: rest)) = some (udefs ++ [')'] :: rest) :=
      matchTok_ieq (by decide) _
    rw [declaredColumns, matchTok_ieq httable]
    dsimp only
    rw [hopen, Option.map_some, colDefLoop_spelled hdefs]
    rfl
  simp only [List.cons_append, List.nil_append, List.append_assoc]
  rw [parseCreate]
  dsimp only
  rw [hdeclared, matchTok_ieq httable, List.map_map]
  rfl

/-- **The parser reads what the grammar says**: the fields of the statement, cut to their
arrays. -/
theorem parseTokens_spelled {st : Statement} {tokens : List CStr} (h : st.Spelled tokens)
    (mem : Uninit) : parseTokens mem tokens = some (st.parsed mem) := by
  obtain ⟨ts, rest, rfl, hts, hrest⟩ := h
  cases st with
  | create table defs =>
    obtain ⟨kw, ts, rfl, hkw, -⟩ := spells_keyword.mp hts
    rw [List.cons_append, parseTokens, if_pos hkw, parseCreate_spelled hts mem]
  | insert table columns values =>
    obtain ⟨kw, ts, rfl, hkw, -⟩ := spells_keyword.mp hts
    rw [List.cons_append, parseTokens, if_neg (by rw [ieq_other hkw (by decide)]; decide),
      if_pos hkw, parseInsert_spelled hts mem]
  | select columns table conds order limit =>
    obtain ⟨kw, ts, rfl, hkw, -⟩ := spells_keyword.mp hts
    rw [List.cons_append, parseTokens, if_neg (by rw [ieq_other hkw (by decide)]; decide),
      if_neg (by rw [ieq_other hkw (by decide)]; decide), if_pos hkw,
      parseSelect_spelled hts hrest mem]
  | delete table conds =>
    obtain ⟨kw, ts, rfl, hkw, -⟩ := spells_keyword.mp hts
    rw [List.cons_append, parseTokens, if_neg (by rw [ieq_other hkw (by decide)]; decide),
      if_neg (by rw [ieq_other hkw (by decide)]; decide),
      if_neg (by rw [ieq_other hkw (by decide)]; decide), if_pos hkw,
      parseDelete_spelled hts hrest mem]
  | update table sets conds =>
    obtain ⟨kw, ts, rfl, hkw, -⟩ := spells_keyword.mp hts
    rw [List.cons_append, parseTokens, if_neg (by rw [ieq_other hkw (by decide)]; decide),
      if_neg (by rw [ieq_other hkw (by decide)]; decide),
      if_neg (by rw [ieq_other hkw (by decide)]; decide),
      if_neg (by rw [ieq_other hkw (by decide)]; decide), if_pos hkw,
      parseUpdate_spelled hts hrest mem]

end Grammar

end MiniSql
