import MiniSql.Grammar
import MiniSql.Format

/-!
# Statements that survive printing

Which statements come back when their text is printed and parsed again, and that they do. The
fields come from arrays, and a full array ends with whatever the heap held.

## Main definitions

* `Statement.Survives` — the statements that come back.
* `Statement.stored` — the `ParsedSQL` of a statement in zeroed memory.

## Main results

* `Statement.tokenizable` — the fields of a statement are printed as the texts of tokens.
* `parse_select`, `parse_delete`, `parse_update`, `parse_insert` — what survives comes back.
-/

namespace MiniSql
open CText

namespace Grammar

/-! ## The statements that come back -/

/-- The text of a call fits into its buffer, or the name of the function alone fills it. -/
def Column.Survives : Column → Prop
  | star => True
  | name _ => True
  | call f arg => 159 ≤ f.text.length ∨
    f.text.length + ((arg.map Name.text).getD ['*']).length + 2 ≤ 159

/-- The column and the value leave room for a NUL, and the value is safe. The upper bound of a
`BETWEEN` is not printed. -/
def Cond.Survives : Cond → Prop
  | compare column _ value =>
    column.text.length ≤ 62 ∧ value.text.length ≤ 254 ∧ Safe value.text
  | between .. => False

def Where.Survives (w : Where) : Prop := ∀ c ∈ w.conds, c.Survives

/-- The `i`-th assignment. The arrays of the first four are zeroed. -/
def SetSurvives (i : ℕ) (s : Name × Literal) : Prop :=
  if i < 4 then Safe (s.2.text.take 255)
  else s.1.text.length ≤ 62 ∧ s.2.text.length ≤ 254 ∧ Safe s.2.text

/-- The assignments from the `i`-th on. -/
def SetsSurvive : ℕ → List (Name × Literal) → Prop
  | _, [] => True
  | i, s :: ss => SetSurvives i s ∧ SetsSurvive (i + 1) ss

def Statement.Survives : Statement → Prop
  | create _ defs => ∀ d ∈ defs.dropLast, d.1.text.length ≤ 157
  | insert _ _ values => ∀ v ∈ (values.map Literal.text).takeWhile (· ≠ [')']), Safe v
  | select columns _ conds _ limit =>
    (∀ c ∈ columns, c.Survives) ∧ (∀ w ∈ conds, w.Survives) ∧ ∀ n ∈ limit, -1 ≤ atoi n
  | delete _ conds => ∀ w ∈ conds, w.Survives
  | update _ sets conds => SetsSurvive 0 sets ∧ ∀ w ∈ conds, w.Survives

/-! ## Cut names and values -/

theorem length_le_of_stop {t : CStr} (h : isSelectStopToken t = true) : t.length ≤ 5 := by
  have hlen : ∀ kw : CStr, ieq t kw = true → t.length = kw.length := by
    intro kw hkw
    have := congrArg List.length (equalsIgnoreCase_iff.mp hkw)
    simpa using this
  simp only [isSelectStopToken, Bool.or_eq_true, beq_iff_eq] at h
  rcases h with ((((h | h) | h) | h) | rfl) | rfl
  · exact (hlen _ h).le.trans (by decide)
  · exact (hlen _ h).le.trans (by decide)
  · exact (hlen _ h).le.trans (by decide)
  · exact (hlen _ h).le.trans (by decide)
  · decide
  · decide

/-- The beginning of a name, long enough to be none of the words a list of columns ends at. -/
def Name.cut (n : Name) (k : ℕ) (hk : 6 ≤ k) : Name where
  text := n.text.take k
  ne_nil := by
    have := n.ne_nil
    simp only [ne_eq, List.take_eq_nil_iff, this, or_false]
    omega
  word c hc := n.word c (List.mem_of_mem_take hc)
  not_comment h := n.not_comment (h.trans (List.take_prefix k n.text))
  not_stop := by
    rcases Nat.lt_or_ge k n.text.length with h | h
    · by_contra hstop
      have := length_le_of_stop (Bool.not_eq_false _ ▸ hstop)
      rw [List.length_take_of_le h.le] at this
      omega
    · rw [List.take_of_length_le h]
      exact n.not_stop

def Literal.cut (v : Literal) (k : ℕ) : Literal where
  text := v.text.take k
  no_single h := v.no_single (List.mem_of_mem_take h)
  no_double h := v.no_double (List.mem_of_mem_take h)

theorem Name.lexes (n : Name) : Lexes n.text [n.text] := lexes_word n.ne_nil n.word n.not_comment

theorem isAlpha_of_toLower {c : Char} (h : c.toLower.isAlpha = true) : c.isAlpha = true := by
  by_cases hupper : c.isUpper = true
  · change (c.isUpper || c.isLower) = true
    rw [hupper, Bool.true_or]
  · have hlower : c.toLower = c := by
      have hrange : ¬ (c.val ≥ 'A'.val ∧ c.val ≤ 'Z'.val) := fun h =>
        hupper (decide_eq_true h)
      exact dif_neg hrange
    rwa [hlower] at h

/-- The spellings of a keyword are words. -/
theorem lexes_ieq {t kw : CStr} (h : ieq t kw = true)
    (hkw : kw ≠ [] ∧ kw.all (fun c => c.toLower.isAlpha) = true) : Lexes t [t] := by
  have hmap := equalsIgnoreCase_iff.mp h
  have halpha : ∀ c ∈ t, c.isAlpha = true := by
    intro c hc
    have : c.toLower ∈ kw.map Char.toLower := hmap ▸ List.mem_map_of_mem hc
    obtain ⟨d, hd, hcd⟩ := List.mem_map.mp this
    exact isAlpha_of_toLower (hcd ▸ List.all_eq_true.mp hkw.2 d hd)
  refine lexes_word ?_ (fun c hc => ?_) fun hpre => ?_
  · rintro rfl
    exact hkw.1 (List.map_eq_nil_iff.mp hmap.symm)
  · simp [isWordChar, Char.isAlphanum, halpha c hc]
  · exact absurd (halpha '-' (hpre.subset (by simp))) (by decide)

theorem Operator.lexes (op : Operator) : Lexes op.text [op.text] := by
  have hsymbol : ∀ t ∈ ["=".toList, ">".toList, "<".toList, ">=".toList, "<=".toList, "!=".toList],
      Lexes t [t] := by
    have hstep : ∀ (c : Char), c = '>' ∨ c = '<' ∨ c = '!' → Lexes [c, '='] [[c, '=']] := by
      intro c hc rest _
      rw [List.cons_append, tokenize_cons]
      rcases hc with rfl | rfl | rfl <;> rfl
    have hstep' : ∀ (c : Char), c = '>' ∨ c = '<' → Lexes [c] [[c]] := by
      intro c hc rest hrest
      have hne : rest.head? ≠ some '=' := fun h => (hrest '=' h).2 rfl
      rw [List.cons_append, List.nil_append, tokenize_cons]
      rcases hc with rfl | rfl <;> simp [tokenStep, isSpace, isSingle, hne]
    simp only [List.mem_cons, List.not_mem_nil, or_false]
    rintro t (rfl | rfl | rfl | rfl | rfl | rfl)
    · exact lexes_nil.single (by decide)
    · exact hstep' '>' (by decide)
    · exact hstep' '<' (by decide)
    · exact hstep '>' (by decide)
    · exact hstep '<' (by decide)
    · exact hstep '!' (by decide)
  rcases op.known with h | h
  · exact hsymbol _ h
  · exact lexes_ieq h (by decide)

/-! ## The columns of a `SELECT` -/

/-- The token that stands for a symbol in a printed statement. -/
def Symbol.text : Symbol → CStr
  | keyword k => k
  | token t => t

theorem spells_text (symbols : List Symbol) : Spells symbols (symbols.map Symbol.text) := by
  induction symbols with
  | nil => exact List.Forall₂.nil
  | cons s symbols ih =>
    refine List.Forall₂.cons ?_ ih
    cases s with
    | keyword k => exact equalsIgnoreCase_refl k
    | token t => rfl

/-- A column as it is printed. -/
def Column.normal : Column → Column
  | star => star
  | name n => name (n.cut 159 (by decide))
  | call f arg => if 159 ≤ f.text.length then name (f.cut 159 (by decide)) else call f arg

theorem Column.text_normal (c : Column) : c.normal.text = c.text := by
  cases c with
  | star => rfl
  | name n => exact List.take_take.trans (by rw [min_self]; rfl)
  | call f arg =>
    rw [normal]
    split_ifs with hlen
    · have hf : (f.text.take 159).length = 159 := List.length_take_of_le hlen
      rw [text, text, List.take_append_of_le_length hlen]
      exact List.take_of_length_le hf.le
    · rfl

theorem lexes_star : Lexes ['*'] [['*']] := lexes_nil.single (by decide)

theorem lexes_arg (arg : Option Name) :
    Lexes ((arg.map Name.text).getD ['*']) [(arg.map Name.text).getD ['*']] := by
  cases arg with
  | none => exact lexes_star
  | some n => exact n.lexes

theorem Column.Survives.lexes {c : Column} (h : c.Survives) :
    Lexes c.text (c.normal.symbols.map Symbol.text) := by
  cases c with
  | star => exact lexes_star
  | name n => exact (n.cut 159 (by decide)).lexes
  | call f arg =>
    rw [normal]
    split_ifs with hlen
    · rw [text, List.take_append_of_le_length hlen]
      exact (f.cut 159 (by decide)).lexes
    · have hfit := h.resolve_left hlen
      have htext : (call f arg).text =
          f.text ++ '(' :: ((arg.map Name.text).getD ['*'] ++ [')']) :=
        List.take_of_length_le (by simp; omega)
      have hclose := (lexes_arg arg).append (lexes_nil.single (c := ')') (by decide))
        (gap_cons (by decide) _)
      rw [htext]
      exact f.lexes.append (hclose.single (c := '(') (by decide)) (gap_cons (by decide) _)

/-- A call that is cut before its `)`. -/
theorem Column.lexes_of_not_survives {c : Column} (h : ¬ c.Survives) :
    ∃ (f : Name) (args : List CStr), Lexes c.text (f.text :: ['('] :: args) ∧
      ∀ t ∈ args, t ≠ [')'] ∧ t ≠ [';'] ∧ Plain t := by
  cases c with
  | star => exact absurd trivial h
  | name n => exact absurd trivial h
  | call f arg =>
    rw [Survives, not_or] at h
    obtain ⟨hf, hlong⟩ := h
    obtain ⟨k, hk⟩ : ∃ k, 159 - f.text.length = k + 1 := ⟨158 - f.text.length, by omega⟩
    have htext : (call f arg).text = f.text ++ '(' :: ((arg.map Name.text).getD ['*']).take k := by
      rw [text, List.take_append, List.take_of_length_le (by omega), hk, List.take_succ_cons,
        List.take_append_of_le_length (by omega)]
    have hopen : ∀ {b : CStr} {ts : List CStr}, Lexes b ts →
        Lexes (f.text ++ '(' :: b) (f.text :: ['('] :: ts) := fun hb =>
      f.lexes.append (hb.single (c := '(') (by decide)) (gap_cons (by decide) _)
    rw [htext]
    cases k with
    | zero => exact ⟨f, [], hopen lexes_nil, by simp⟩
    | succ k =>
      cases arg with
      | none =>
        refine ⟨f, [['*']], by simpa using hopen lexes_star, ?_⟩
        simp [Plain]
      | some n =>
        have hword : ∀ c ∈ n.text.take (k + 1), isWordChar c = true :=
          fun c hc => n.word c (List.mem_of_mem_take hc)
        refine ⟨f, [n.text.take (k + 1)], hopen (lexes_word ?_ hword ?_), ?_⟩
        · simpa using n.ne_nil
        · exact fun hpre => n.not_comment (hpre.trans (List.take_prefix _ _))
        · intro t ht
          obtain rfl := List.mem_singleton.mp ht
          refine ⟨fun heq => ?_, fun heq => ?_, Or.inl hword⟩
          · exact absurd (hword ')' (heq ▸ by simp)) (by decide)
          · exact absurd (hword ';' (heq ▸ by simp)) (by decide)

/-! ## What zeroed memory holds -/

/-- A condition in zeroed memory. -/
def Cond.stored : Cond → WhereClause
  | compare column op value => ⟨column.text.take 63, op.text, value.text.take 255, []⟩
  | between column low high =>
    ⟨column.text.take 63, "BETWEEN".toList, low.text.take 255, high.text.take 255⟩

/-- The fields of a condition leave room for a NUL. -/
def Cond.Fits : Cond → Prop
  | compare column _ value => column.text.length ≤ 62 ∧ value.text.length ≤ 254
  | between column low high =>
    column.text.length ≤ 62 ∧ low.text.length ≤ 254 ∧ high.text.length ≤ 254

theorem Operator.length_le (op : Operator) : op.text.length ≤ 4 := by
  have hsymbol : ∀ t ∈ ["=".toList, ">".toList, "<".toList, ">=".toList, "<=".toList, "!=".toList],
      t.length ≤ 4 := by decide
  rcases op.known with h | h
  · exact hsymbol _ h
  · exact (length_eq_of_equalsIgnoreCase h).le

theorem Cond.clause_of_fits {c : Cond} (h : c.Fits) (mem : Uninit) (i : ℕ) :
    c.clause mem i = c.stored := by
  cases c with
  | compare column op value =>
    obtain ⟨hc, hv⟩ := h
    have hop := op.length_le
    have hcolumn : column.text.take 63 = column.text := List.take_of_length_le (by omega)
    have hvalue : value.text.take 255 = value.text := List.take_of_length_le (by omega)
    rw [clause, stored, whereClause, hcolumn, hvalue]
    rw [cField_of_lt (by omega), cField_of_lt (by omega), cField_of_lt (by omega)]
  | between column low high =>
    obtain ⟨hc, hl, hh⟩ := h
    have hcolumn : column.text.take 63 = column.text := List.take_of_length_le (by omega)
    have hlow : low.text.take 255 = low.text := List.take_of_length_le (by omega)
    have hhigh : high.text.take 255 = high.text := List.take_of_length_le (by omega)
    rw [clause, stored, betweenClause, hcolumn, hlow, hhigh]
    rw [cField_of_lt (by omega), cField_of_lt (by omega), cField_of_lt (by omega)]

theorem Cond.clause_zero (c : Cond) (i : ℕ) : c.clause Uninit.zero i = c.stored := by
  cases c with
  | compare column op value =>
    have hop := op.length_le
    have hop' : op.text.take 7 = op.text := List.take_of_length_le (by omega)
    simp [clause, stored, whereClause, Uninit.zero, hop']
  | between column low high => simp [clause, stored, betweenClause, Uninit.zero]

theorem clauses_eq_map {mem : Uninit} {cs : List Cond}
    (h : ∀ c ∈ cs, ∀ i, c.clause mem i = c.stored) (i : ℕ) :
    clauses mem i cs = cs.map Cond.stored := by
  induction cs generalizing i with
  | nil => rfl
  | cons c cs ih =>
    rw [clauses, List.map_cons, h c (by simp), ih fun d hd => h d (List.mem_cons_of_mem c hd)]

/-- An assignment in zeroed memory. -/
def storedSet (s : Name × Literal) : SetClause := ⟨s.1.text.take 63, s.2.text.take 255⟩

def SetFits (i : ℕ) (s : Name × Literal) : Prop :=
  i < 4 ∨ s.1.text.length ≤ 62 ∧ s.2.text.length ≤ 254

/-- The assignments from the `i`-th on. -/
def SetsFit : ℕ → List (Name × Literal) → Prop
  | _, [] => True
  | i, s :: ss => SetFits i s ∧ SetsFit (i + 1) ss

theorem setClause_of_fits {i : ℕ} {s : Name × Literal} (h : SetFits i s) (mem : Uninit) :
    setClause mem i s.1.text s.2.text = storedSet s := by
  by_cases hi : i < 4
  · simp [setClause, hi, storedSet]
  · obtain ⟨hc, hv⟩ := h.resolve_left hi
    have hcolumn : s.1.text.take 63 = s.1.text := List.take_of_length_le (by omega)
    have hvalue : s.2.text.take 255 = s.2.text := List.take_of_length_le (by omega)
    rw [setClause, storedSet, hcolumn, hvalue]
    rw [cField_of_lt (by omega), cField_of_lt (by omega)]

theorem setClauses_of_fits {i : ℕ} {sets : List (Name × Literal)} (h : SetsFit i sets)
    (mem : Uninit) : setClauses mem i sets = sets.map storedSet := by
  induction sets generalizing i with
  | nil => rfl
  | cons s sets ih => rw [setClauses, List.map_cons, setClause_of_fits h.1, ih h.2]

theorem setClauses_zero (i : ℕ) (sets : List (Name × Literal)) :
    setClauses Uninit.zero i sets = sets.map storedSet := by
  induction sets generalizing i with
  | nil => rfl
  | cons s sets ih =>
    rw [setClauses, List.map_cons, ih]
    simp [setClause, Uninit.zero, storedSet]

/-- The statement in zeroed memory. -/
def Statement.stored (st : Statement) : ParsedSQL := st.parsed Uninit.zero

/-- All fields leave room for a NUL where their memory is not zeroed. -/
def Statement.Fits : Statement → Prop
  | create .. => True
  | insert .. => True
  | select _ _ conds _ _ => ∀ w ∈ conds, ∀ c ∈ w.conds, c.Fits
  | delete _ conds => ∀ w ∈ conds, ∀ c ∈ w.conds, c.Fits
  | update _ sets conds => SetsFit 0 sets ∧ ∀ w ∈ conds, ∀ c ∈ w.conds, c.Fits

theorem withWhere_of_fits {conds : Option Where} (h : ∀ w ∈ conds, ∀ c ∈ w.conds, c.Fits)
    (mem : Uninit) (sql : ParsedSQL) :
    withWhere mem conds sql = withWhere Uninit.zero conds sql := by
  cases conds with
  | none => rfl
  | some w =>
    rw [withWhere, withWhere,
      clauses_eq_map (fun c hc i => Cond.clause_of_fits (h w rfl c hc) mem i),
      clauses_eq_map fun c _ i => c.clause_zero i]

/-- Then every memory gives the same `ParsedSQL`. -/
theorem Statement.parsed_of_fits {st : Statement} (h : st.Fits) (mem : Uninit) :
    st.parsed mem = st.stored := by
  cases st with
  | create table defs => rfl
  | insert table columns values => rfl
  | select columns table conds order limit => exact withWhere_of_fits h mem _
  | delete table conds => exact withWhere_of_fits h mem _
  | update table sets conds =>
    rw [stored, parsed, parsed, withWhere_of_fits h.2, setClauses_of_fits h.1, setClauses_zero]

/-! ## What is printed -/

/-- The tokens of a column of a `CREATE`. A long name leaves no room for the type. -/
def defTokens (d : Name × Name) : List CStr :=
  if d.1.text.length ≤ 157 then [d.1.text, d.2.text.take (158 - d.1.text.length)]
  else [d.1.text.take 159]

theorem lexes_colDefText (d : Name × Name) :
    Lexes (colDefText (d.1.text, d.2.text)) (defTokens d) := by
  obtain ⟨n, t⟩ := d
  rw [defTokens, colDefText]
  dsimp only
  split_ifs with hlen
  · obtain ⟨k, hk⟩ : ∃ k, 159 - n.text.length = k + 1 := ⟨158 - n.text.length, by omega⟩
    have hk' : 158 - n.text.length = k := by omega
    have hword : ∀ c ∈ t.text.take k, isWordChar c = true :=
      fun c hc => t.word c (List.mem_of_mem_take hc)
    have hne : t.text.take k ≠ [] := by
      simp only [ne_eq, List.take_eq_nil_iff, t.ne_nil, or_false]
      omega
    have htype := lexes_word hne hword fun hpre =>
      t.not_comment (hpre.trans (List.take_prefix _ _))
    rw [List.take_append, List.take_of_length_le (by omega), hk, List.take_succ_cons, hk']
    exact n.lexes.blank htype
  · rcases Nat.lt_or_ge 158 n.text.length with h | h
    · rw [List.take_append_of_le_length (by omega)]
      exact (n.cut 159 (by decide)).lexes
    · have hone : 159 - n.text.length = 1 := by omega
      rw [List.take_append, List.take_of_length_le (by omega), hone]
      exact n.lexes.blank lexes_nil

theorem Column.lexes (c : Column) : Lexes c.text (tokenize c.text) := by
  by_cases h : c.Survives
  · have := h.lexes
    rwa [this.tokenize]
  · obtain ⟨f, args, hlexes, -⟩ := lexes_of_not_survives h
    rwa [hlexes.tokenize]

theorem lexes_between : Lexes "BETWEEN".toList ["BETWEEN".toList] :=
  lexes_keyword _ (by decide)

theorem tokenizable_withWhere {conds : Option Where} {sql : ParsedSQL} (h : Tokenizable sql) :
    Tokenizable (withWhere Uninit.zero conds sql) := by
  cases conds with
  | none => exact h
  | some w =>
    refine ⟨h.table, h.columns, h.values, fun c hc => ?_, h.orderBy, h.sets, h.colDefs⟩
    have hclauses : clauses Uninit.zero 0 w.conds = w.conds.map Cond.stored :=
      clauses_eq_map (fun c _ i => c.clause_zero i) 0
    obtain ⟨d, -, rfl⟩ := List.mem_map.mp (hclauses ▸ hc : c ∈ w.conds.map Cond.stored)
    cases d with
    | compare column op value =>
      exact ⟨(column.cut 63 (by decide)).lexes, op.lexes, (value.cut 255).no_single,
        (value.cut 255).no_double⟩
    | between column low high =>
      exact ⟨(column.cut 63 (by decide)).lexes, lexes_between, (low.cut 255).no_single,
        (low.cut 255).no_double⟩

theorem Name.lexes_cut (n : Name) {k : ℕ} (hk : 6 ≤ k) : Lexes (n.text.take k) [n.text.take k] :=
  (n.cut k hk).lexes

/-- The fields of a stored statement are the texts of tokens. -/
theorem Statement.tokenizable (st : Statement) : Tokenizable st.stored := by
  have htable : ∀ n : Name, Lexes (n.text.take 63) [n.text.take 63] :=
    fun n => n.lexes_cut (by decide)
  cases st with
  | create table defs =>
    refine ⟨htable table, by simp [stored, parsed, parsedNew], by simp [stored, parsed, parsedNew],
      by simp [stored, parsed, parsedNew], by simp [stored, parsed, parsedNew],
      by simp [stored, parsed, parsedNew], fun d hd => ?_⟩
    obtain ⟨d, -, rfl⟩ := List.mem_map.mp hd
    have := lexes_colDefText d
    rwa [this.tokenize]
  | insert table columns values =>
    refine ⟨htable table, fun c hc => ?_, fun v hv => ?_, by simp [stored, parsed, parsedNew],
      by simp [stored, parsed, parsedNew], by simp [stored, parsed, parsedNew],
      by simp [stored, parsed, parsedNew]⟩
    · obtain ⟨n, -, rfl⟩ := List.mem_map.mp hc
      have := n.lexes
      rwa [this.tokenize]
    · obtain ⟨v, -, rfl⟩ := List.mem_map.mp ((List.takeWhile_sublist _).subset hv)
      exact ⟨v.no_single, v.no_double⟩
  | select columns table conds order limit =>
    refine tokenizable_withWhere ⟨htable table, fun c hc => ?_, by simp [parsedNew],
      by simp [parsedNew], fun o ho => ?_, by simp [parsedNew], by simp [parsedNew]⟩
    · obtain ⟨c, -, rfl⟩ := List.mem_map.mp hc
      exact c.lexes
    · obtain ⟨o, -, rfl⟩ := Option.mem_map.mp ho
      exact htable o.column
  | delete table conds =>
    exact tokenizable_withWhere ⟨htable table, by simp [parsedNew], by simp [parsedNew],
      by simp [parsedNew], by simp [parsedNew], by simp [parsedNew], by simp [parsedNew]⟩
  | update table sets conds =>
    refine tokenizable_withWhere ⟨htable table, by simp [parsedNew], by simp [parsedNew],
      by simp [parsedNew], by simp [parsedNew], fun s hs => ?_, by simp [parsedNew]⟩
    rw [setClauses_zero] at hs
    obtain ⟨s, -, rfl⟩ := List.mem_map.mp hs
    exact ⟨htable s.1, (s.2.cut 255).no_single, (s.2.cut 255).no_double⟩

/-! ## Statements that survive -/

theorem Cond.Survives.fits {c : Cond} (h : c.Survives) : c.Fits := by
  cases c with
  | compare column op value => exact ⟨h.1, h.2.1⟩
  | between column low high => exact absurd h id

theorem SetsSurvive.fits {i : ℕ} {sets : List (Name × Literal)} (h : SetsSurvive i sets) :
    SetsFit i sets := by
  induction sets generalizing i with
  | nil => trivial
  | cons s sets ih =>
    refine ⟨?_, ih h.2⟩
    have hs := h.1
    unfold SetSurvives at hs
    split_ifs at hs with hi
    · exact Or.inl hi
    · exact Or.inr ⟨hs.1, hs.2.1⟩

theorem Statement.Survives.fits {st : Statement} (h : st.Survives) : st.Fits := by
  cases st with
  | create table defs => trivial
  | insert table columns values => trivial
  | select columns table conds order limit => exact fun w hw c hc => (h.2.1 w hw c hc).fits
  | delete table conds => exact fun w hw c hc => (h w hw c hc).fits
  | update table sets conds => exact ⟨h.1.fits, fun w hw c hc => (h.2 w hw c hc).fits⟩

/-- A condition that survives is printed as it was spelled. -/
theorem Cond.Survives.tokens {c : Cond} (h : c.Survives) :
    c.stored.column :: c.stored.op :: valueTokens c.stored.value = c.symbols.map Symbol.text := by
  cases c with
  | compare column op value =>
    obtain ⟨hc, hv, hsafe⟩ := h
    have hcolumn : column.text.take 63 = column.text := List.take_of_length_le (by omega)
    have hvalue : value.text.take 255 = value.text := List.take_of_length_le (by omega)
    rw [stored]
    dsimp only
    rw [hcolumn, hvalue, hsafe.valueTokens]
    rfl
  | between column low high => exact absurd h id

theorem whereLinkAt_linkText {sql : ParsedSQL} {front back : List CStr} {isOr : Bool}
    (h : sql.whereLinks = front ++ linkText isOr :: back) :
    whereLinkAt sql front.length = linkText isOr := by
  have hne : sql.whereLinks ≠ [] := by simp [h]
  have hget : sql.whereLinks.getD front.length [] = linkText isOr := by simp [h]
  rw [whereLinkAt, if_pos hne, hget]
  cases isOr <;> rfl

/-- The conditions behind the first one, with their connectives. -/
theorem condTokens_survives (sql : ParsedSQL) (front : List CStr) {more : List (Bool × Cond)}
    (hlinks : sql.whereLinks = front ++ more.map fun c => linkText c.1)
    (h : ∀ c ∈ more, c.2.Survives) :
    condTokens sql (front.length + 1) (more.map fun c => c.2.stored) =
      (more.flatMap fun c => .keyword (linkText c.1) :: c.2.symbols).map Symbol.text := by
  induction more generalizing front with
  | nil => rfl
  | cons c more ih =>
    have hlinks' : sql.whereLinks = (front ++ [linkText c.1]) ++ more.map fun c => linkText c.1 := by
      simpa using hlinks
    have hrest := ih (front ++ [linkText c.1]) hlinks' fun d hd => h d (List.mem_cons_of_mem c hd)
    rw [List.length_append, List.length_singleton] at hrest
    have hcond := (h c (by simp)).tokens
    rw [List.map_cons, condTokens, if_pos (Nat.succ_pos _), Nat.add_sub_cancel, hrest,
      whereLinkAt_linkText (by simpa using hlinks), List.flatMap_cons, List.map_append,
      List.map_cons, ← hcond]
    rfl

theorem conds_withWhere (w : Where) (sql : ParsedSQL) :
    (withWhere Uninit.zero (some w) sql).conds =
      w.first.stored :: w.rest.map fun c => c.2.stored := by
  have hclauses : clauses Uninit.zero 0 w.conds = w.conds.map Cond.stored :=
    clauses_eq_map (fun c _ i => c.clause_zero i) 0
  rw [Where.conds, List.map_cons, List.map_map] at hclauses
  exact hclauses

theorem whereTokens_survives {conds : Option Where} (h : ∀ w ∈ conds, w.Survives) {sql : ParsedSQL}
    (hsql : sql.conds = []) :
    whereTokens (withWhere Uninit.zero conds sql) =
      (optSymbols "WHERE".toList (conds.map Where.symbols)).map Symbol.text := by
  cases conds with
  | none => exact if_pos hsql
  | some w =>
    have hmore : ∀ c ∈ w.rest, c.2.Survives := fun c hc =>
      h w rfl c.2 (List.mem_cons_of_mem _ (List.mem_map_of_mem hc))
    have hrest := condTokens_survives (withWhere Uninit.zero (some w) sql) [] rfl hmore
    have hfirst := (h w rfl w.first (by simp [Where.conds])).tokens
    rw [List.length_nil, Nat.zero_add] at hrest
    rw [whereTokens, conds_withWhere, if_neg (List.cons_ne_nil _ _), condTokens,
      if_neg (Nat.lt_irrefl 0), Nat.zero_add, hrest, Option.map_some, optSymbols, Option.map_some,
      Option.getD_some, Where.symbols, List.map_cons, List.map_append, ← hfirst]
    rfl

theorem commaTokens_text {α : Type*} (xs : List α) (symbols : α → List Symbol) :
    commaTokens (xs.map fun x => (symbols x).map Symbol.text) =
      (sepBy (xs.map symbols)).map Symbol.text := by
  induction xs with
  | nil => rfl
  | cons x xs ih =>
    cases xs with
    | nil => rfl
    | cons y xs =>
      simp only [List.map_cons] at ih
      simp only [List.map_cons, commaTokens, sepBy, List.map_append, ih]
      rfl

theorem atoi_range (t : CStr) : intMin ≤ atoi t ∧ atoi t ≤ intMax := by
  have hlow := Int.le_bmod (x := (strtol t).value) (m := 2 ^ 32) (by decide)
  have hhigh := Int.bmod_lt (x := (strtol t).value) (m := 2 ^ 32) (by decide)
  unfold atoi toInt32 intMin intMax
  omega

/-- The limit that is printed. -/
def normalLimit (limit : Option CStr) : Option CStr :=
  limit.bind fun n => if 0 ≤ atoi n then some (intText (atoi n)) else none

def Order.normal (o : Order) : Order := ⟨o.column.cut 63 (by decide), some (o.asc.getD true)⟩

theorem Order.tokens (o : Order) :
    orderTokens ⟨o.column.text.take 63, o.asc.getD true⟩ =
      "ORDER".toList :: o.normal.symbols.map Symbol.text := by
  rcases hasc : o.asc with _ | _ | _ <;> simp [orderTokens, normal, symbols, hasc, Name.cut, Symbol.text]

/-- The limit in zeroed memory, and the tokens it is printed as. -/
theorem limit_normal (limit : Option CStr) :
    (if 0 ≤ (limit.map atoi).getD (-1) then
      ["LIMIT".toList, intText ((limit.map atoi).getD (-1))] else []) =
      (optSymbols "LIMIT".toList ((normalLimit limit).map fun n => [.token n])).map Symbol.text ∧
    ((normalLimit limit).map atoi).getD (-1) =
      if 0 ≤ (limit.map atoi).getD (-1) then (limit.map atoi).getD (-1) else -1 := by
  cases limit with
  | none => exact ⟨rfl, rfl⟩
  | some n =>
    obtain ⟨hmin, hmax⟩ := atoi_range n
    rw [normalLimit, Option.map_some, Option.getD_some, Option.bind_some]
    by_cases hn : 0 ≤ atoi n
    · rw [if_pos hn, if_pos hn, if_pos hn, Option.map_some, Option.map_some, Option.getD_some,
        atoi_intText hmin hmax]
      exact ⟨rfl, rfl⟩
    · rw [if_neg hn, if_neg hn, if_neg hn]
      exact ⟨rfl, rfl⟩

theorem columns_normal {columns : List Column} (h : ∀ c ∈ columns, c.Survives) :
    commaTokens ((columns.map Column.text).map tokenize) =
      (sepBy ((columns.map Column.normal).map Column.symbols)).map Symbol.text := by
  have hmap : (columns.map Column.text).map tokenize =
      (columns.map Column.normal).map fun c => c.symbols.map Symbol.text := by
    rw [List.map_map, List.map_map]
    exact List.map_congr_left fun c hc => (h c hc).lexes.tokenize
  rw [hmap, commaTokens_text]

/-- A `SELECT` in zeroed memory, without its conditions. -/
def selectStored (columns : List Column) (table : Name) (order : Option Order)
    (limit : Option CStr) : ParsedSQL :=
  { parsedNew with
    type := .select, table := table.text.take 63, columns := columns.map Column.text,
    orderBy := order.map fun o => ⟨o.column.text.take 63, o.asc.getD true⟩,
    limit := (limit.map atoi).getD (-1) }

theorem printedTokens_select (columns : List Column) (table : Name) (conds : Option Where)
    (order : Option Order) (limit : Option CStr) :
    printedTokens (Statement.select columns table conds order limit).stored =
      ["SELECT".toList] ++ (commaTokens ((columns.map Column.text).map tokenize) ++
        (["FROM".toList, table.text.take 63] ++
          (whereTokens (withWhere Uninit.zero conds (selectStored columns table order limit)) ++
            (((order.map fun o => OrderBy.mk (o.column.text.take 63) (o.asc.getD true)).map
              orderTokens).getD [] ++ ((if 0 ≤ (limit.map atoi).getD (-1) then
                ["LIMIT".toList, intText ((limit.map atoi).getD (-1))] else []) ++ [[';']]))))) := by
  cases conds <;> rfl

/-- A `SELECT` whose columns and conditions survive loses at most its limit. -/
theorem parse_select {columns : List Column} {table : Name} {conds : Option Where}
    {order : Option Order} {limit : Option CStr} (hcolumns : ∀ c ∈ columns, c.Survives)
    (hconds : ∀ w ∈ conds, w.Survives) (mem : Uninit) :
    parseTokens mem (printedTokens (Statement.select columns table conds order limit).stored) =
      some { (Statement.select columns table conds order limit).stored with
        limit := if 0 ≤ (limit.map atoi).getD (-1) then (limit.map atoi).getD (-1) else -1 } := by
  obtain ⟨hlimit, hlimitValue⟩ := limit_normal limit
  have hspelled : (Statement.select (columns.map Column.normal) (table.cut 63 (by decide)) conds
      (order.map Order.normal) (normalLimit limit)).Spelled
      (printedTokens (Statement.select columns table conds order limit).stored) := by
    refine ⟨_, [[';']], ?_, spells_text _, Or.inr rfl⟩
    have horder : ((order.map fun o => OrderBy.mk (o.column.text.take 63) (o.asc.getD true)).map
        orderTokens).getD [] =
        (optSymbols "ORDER".toList ((order.map Order.normal).map Order.symbols)).map Symbol.text := by
      cases order with
      | none => rfl
      | some o => exact o.tokens
    rw [printedTokens_select, columns_normal hcolumns, whereTokens_survives hconds rfl, horder,
      hlimit, Statement.symbols]
    simp only [List.map_append, List.append_assoc]
    rfl
  have hcolumnTexts : (columns.map Column.normal).map Column.text = columns.map Column.text := by
    rw [List.map_map]
    exact List.map_congr_left fun c _ => c.text_normal
  have htable : (table.text.take 63).take 63 = table.text.take 63 := by
    rw [List.take_take, min_self]
  have horderBy : (order.map Order.normal).map (fun o => OrderBy.mk (o.column.text.take 63)
      (o.asc.getD true)) =
      order.map fun o => OrderBy.mk (o.column.text.take 63) (o.asc.getD true) := by
    cases order with
    | none => rfl
    | some o => simp [Order.normal, Name.cut, List.take_take]
  have hfits : ∀ w ∈ conds, ∀ c ∈ w.conds, c.Fits := fun w hw c hc => (hconds w hw c hc).fits
  rw [parseTokens_spelled hspelled mem, Statement.parsed, withWhere_of_fits hfits, hcolumnTexts,
    horderBy, hlimitValue]
  cases conds <;> simp [Statement.stored, Statement.parsed, withWhere, Name.cut, htable]

theorem printedTokens_delete (table : Name) (conds : Option Where) :
    printedTokens (Statement.delete table conds).stored =
      ["DELETE".toList, "FROM".toList, table.text.take 63] ++
        (whereTokens (withWhere Uninit.zero conds
          { parsedNew with type := .delete, table := table.text.take 63 }) ++ [[';']]) := by
  cases conds <;> rfl

theorem parse_delete {table : Name} {conds : Option Where} (hconds : ∀ w ∈ conds, w.Survives)
    (mem : Uninit) : parseTokens mem (printedTokens (Statement.delete table conds).stored) =
      some (Statement.delete table conds).stored := by
  have hspelled : (Statement.delete (table.cut 63 (by decide)) conds).Spelled
      (printedTokens (Statement.delete table conds).stored) := by
    refine ⟨_, [[';']], ?_, spells_text _, Or.inr rfl⟩
    rw [printedTokens_delete, whereTokens_survives hconds rfl, Statement.symbols]
    simp only [List.map_append, List.append_assoc]
    rfl
  have htable : (table.text.take 63).take 63 = table.text.take 63 := by
    rw [List.take_take, min_self]
  have hfits : ∀ w ∈ conds, ∀ c ∈ w.conds, c.Fits := fun w hw c hc => (hconds w hw c hc).fits
  rw [parseTokens_spelled hspelled mem, Statement.parsed, withWhere_of_fits hfits]
  cases conds <;> simp [Statement.stored, Statement.parsed, withWhere, Name.cut, htable]

theorem SetsSurvive.safe {i : ℕ} {sets : List (Name × Literal)} (h : SetsSurvive i sets) :
    ∀ s ∈ sets, Safe (s.2.text.take 255) := by
  induction sets generalizing i with
  | nil => simp
  | cons s sets ih =>
    intro s' hs'
    rcases List.mem_cons.mp hs' with rfl | hs'
    · have hset := h.1
      unfold SetSurvives at hset
      split_ifs at hset
      · exact hset
      · rw [List.take_of_length_le (by omega)]
        exact hset.2.2
    · exact ih h.2 s' hs'

/-- An assignment as it is printed. -/
def normalSet (s : Name × Literal) : Name × Literal := (s.1.cut 63 (by decide), s.2.cut 255)

theorem setClauses_normal {i : ℕ} {sets : List (Name × Literal)} (h : SetsSurvive i sets)
    (mem : Uninit) : setClauses mem i (sets.map normalSet) = sets.map storedSet := by
  induction sets generalizing i with
  | nil => rfl
  | cons s sets ih =>
    have hfits : SetFits i (normalSet s) := by
      refine h.fits.1.imp_right fun hlen => ⟨?_, ?_⟩
      · exact (List.length_take_le' _ _).trans hlen.1
      · exact (List.length_take_le' _ _).trans hlen.2
    have hset : storedSet (normalSet s) = storedSet s := by
      simp [storedSet, normalSet, Name.cut, Literal.cut, List.take_take]
    rw [List.map_cons, setClauses, setClause_of_fits hfits, hset, ih h.2, List.map_cons]

theorem stored_update (table : Name) (sets : List (Name × Literal)) (conds : Option Where) :
    (Statement.update table sets conds).stored = withWhere Uninit.zero conds
      { parsedNew with
        type := .update, table := table.text.take 63, sets := sets.map storedSet } := by
  rw [Statement.stored, Statement.parsed, setClauses_zero]

theorem printedTokens_update (table : Name) (sets : List (Name × Literal)) (conds : Option Where) :
    printedTokens (Statement.update table sets conds).stored =
      ["UPDATE".toList, table.text.take 63, "SET".toList] ++
        (commaTokens ((sets.map storedSet).map fun s => s.column :: ['='] :: valueTokens s.value) ++
          (whereTokens (withWhere Uninit.zero conds { parsedNew with
            type := .update, table := table.text.take 63, sets := sets.map storedSet }) ++
            [[';']])) := by
  rw [stored_update]
  cases conds <;> rfl

theorem setTokens_normal {i : ℕ} {sets : List (Name × Literal)} (h : SetsSurvive i sets) :
    commaTokens ((sets.map storedSet).map fun s => s.column :: ['='] :: valueTokens s.value) =
      (sepBy ((sets.map normalSet).map fun s =>
        [.token s.1.text, .token ['='], .token s.2.text])).map Symbol.text := by
  rw [← commaTokens_text, List.map_map, List.map_map]
  refine congrArg commaTokens (List.map_congr_left fun s hs => ?_)
  have hvalue : valueTokens (storedSet s).value = [s.2.text.take 255] := (h.safe s hs).valueTokens
  change (storedSet s).column :: ['='] :: valueTokens (storedSet s).value = _
  rw [hvalue]
  rfl

theorem parse_update {table : Name} {sets : List (Name × Literal)} {conds : Option Where}
    (hsets : SetsSurvive 0 sets) (hconds : ∀ w ∈ conds, w.Survives) (mem : Uninit) :
    parseTokens mem (printedTokens (Statement.update table sets conds).stored) =
      some (Statement.update table sets conds).stored := by
  have hspelled : (Statement.update (table.cut 63 (by decide)) (sets.map normalSet) conds).Spelled
      (printedTokens (Statement.update table sets conds).stored) := by
    refine ⟨_, [[';']], ?_, spells_text _, Or.inr rfl⟩
    rw [printedTokens_update, setTokens_normal hsets, whereTokens_survives hconds rfl,
      Statement.symbols]
    simp only [List.map_append, List.append_assoc]
    rfl
  have htable : (table.text.take 63).take 63 = table.text.take 63 := by
    rw [List.take_take, min_self]
  have hfits : ∀ w ∈ conds, ∀ c ∈ w.conds, c.Fits := fun w hw c hc => (hconds w hw c hc).fits
  rw [parseTokens_spelled hspelled mem, Statement.parsed, withWhere_of_fits hfits,
    setClauses_normal hsets, stored_update, Name.cut, htable]

/-- The values up to the first literal `)`. -/
theorem parse_insert {table : Name} {columns : List Name} {values : List Literal}
    (hvalues : ∀ v ∈ (values.map Literal.text).takeWhile (· ≠ [')']), Safe v) (mem : Uninit) :
    parseTokens mem (printedTokens (Statement.insert table columns values).stored) =
      some (Statement.insert table columns values).stored := by
  let kept := values.takeWhile fun v => v.text ≠ [')']
  have hkept : (values.map Literal.text).takeWhile (· ≠ [')']) = kept.map Literal.text :=
    List.takeWhile_map
  have hprinted : printedTokens (Statement.insert table columns values).stored =
      ["INSERT".toList, "INTO".toList, table.text.take 63, ['(']] ++
        (commaTokens ((columns.map Name.text).map tokenize) ++ ([[')'], "VALUES".toList, ['(']] ++
          (commaTokens ((kept.map Literal.text).map valueTokens) ++ [[')'], [';']]))) := by
    rw [← hkept]
    rfl
  have hcolumns : (columns.map Name.text).map tokenize =
      columns.map fun n => [Symbol.token n.text].map Symbol.text := by
    rw [List.map_map]
    exact List.map_congr_left fun n _ => n.lexes.tokenize
  have hvalueTokens : (kept.map Literal.text).map valueTokens =
      kept.map fun v => [Symbol.token v.text].map Symbol.text := by
    rw [List.map_map]
    refine List.map_congr_left fun v hv => ?_
    exact (hvalues v.text (hkept ▸ List.mem_map_of_mem hv)).valueTokens
  have hspelled : (Statement.insert (table.cut 63 (by decide)) columns kept).Spelled
      (printedTokens (Statement.insert table columns values).stored) := by
    refine ⟨_, [[';']], ?_, spells_text _, Or.inr rfl⟩
    rw [hprinted, hcolumns, hvalueTokens, commaTokens_text, commaTokens_text, Statement.symbols]
    simp only [List.map_append, List.append_assoc]
    rfl
  have htable : (table.text.take 63).take 63 = table.text.take 63 := by
    rw [List.take_take, min_self]
  have htwice : (kept.map Literal.text).takeWhile (· ≠ [')']) = kept.map Literal.text := by
    rw [← hkept]
    exact List.takeWhile_idem
  rw [parseTokens_spelled hspelled mem, Statement.parsed, htwice, ← hkept, Name.cut, htable]
  rfl

end Grammar

end MiniSql
