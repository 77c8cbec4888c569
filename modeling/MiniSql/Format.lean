import MiniSql.Parser
import MiniSql.Tokens.Lex

/-!
# Printing a statement

`sql_format.c`: the text of a `ParsedSQL`, and the tokens of that text.

## Main definitions

* `Format.needsQuote`, `emitValue`, `emitWhere`, `printFormat` — the formatter.
* `Lexes` — the tokens of a text, in whatever text it stands.
* `valueTokens` — what the tokenizer makes of a printed value.
* `printedTokens` — what it makes of a printed statement.

## Main results

* `Safe.valueTokens` — it is read back if it was quoted, or is a word.
* `tokenize_printFormat` — the tokens of a printed statement.
-/

namespace MiniSql
open CText

/-- `needs_quote`. -/
def Format.needsQuote : CStr → Bool
  | [] => true
  | c :: s =>
    if (c :: s).any fun d => d == ' ' || d == '-' || d == ':' then true
    else if c.isDigit || c == '-' || c == '+' then false
    else true

/-- `emit_value`. -/
def emitValue (v : CStr) : CStr := if Format.needsQuote v then '\'' :: (v ++ ['\'']) else v

/-- `where_link_at`. -/
def whereLinkAt (sql : ParsedSQL) (index : ℕ) : CStr :=
  let link :=
    if sql.whereLinks ≠ [] then sql.whereLinks.getD index []
    else if sql.whereLogic ≠ [] then sql.whereLogic
    else "AND".toList
  match link with
  | [o, r] =>
    if (o == 'O' || o == 'o') && (r == 'R' || r == 'r') then "OR".toList else "AND".toList
  | _ => "AND".toList

/-- The loop of `emit_where`, from condition `i` on. -/
def emitConds (sql : ParsedSQL) : ℕ → List WhereClause → CStr
  | _, [] => []
  | i, w :: ws =>
    (if 0 < i then ' ' :: (whereLinkAt sql (i - 1) ++ [' ']) else []) ++
      (w.column ++ ' ' :: (w.op ++ ' ' :: (emitValue w.value ++ emitConds sql (i + 1) ws)))

/-- `emit_where`. -/
def emitWhere (sql : ParsedSQL) : CStr :=
  if sql.conds = [] then [] else " WHERE ".toList ++ emitConds sql 0 sql.conds

/-- The loops that print a list, with `", "` between its members. -/
def commaJoin : List CStr → CStr
  | [] => []
  | [x] => x
  | x :: y :: xs => x ++ ", ".toList ++ commaJoin (y :: xs)

/-- The assignments, the `ORDER BY` and the `LIMIT` that `print_format` prints. -/
def emitSet (s : SetClause) : CStr := s.column ++ " = ".toList ++ emitValue s.value

def emitOrder : Option OrderBy → CStr
  | some o => " ORDER BY ".toList ++ o.column ++ ' ' ::
      (if o.asc then "ASC".toList else "DESC".toList)
  | none => []

def emitLimit (limit : ℤ) : CStr :=
  if 0 ≤ limit then " LIMIT ".toList ++ intText limit else []

/-- `print_format`. -/
def printFormat (sql : ParsedSQL) : CStr :=
  match sql.type with
  | .create => "CREATE TABLE ".toList ++ sql.table ++ " (".toList ++ commaJoin sql.colDefs ++
      ");\n".toList
  | .insert => "INSERT INTO ".toList ++ sql.table ++ " (".toList ++ commaJoin sql.columns ++
      ") VALUES (".toList ++ commaJoin (sql.values.map emitValue) ++ ");\n".toList
  | .select => "SELECT ".toList ++ commaJoin sql.columns ++ " FROM ".toList ++ sql.table ++
      emitWhere sql ++ emitOrder sql.orderBy ++ emitLimit sql.limit ++ ";\n".toList
  | .delete => "DELETE FROM ".toList ++ sql.table ++ emitWhere sql ++ ";\n".toList
  | .update => "UPDATE ".toList ++ sql.table ++ " SET ".toList ++
      commaJoin (sql.sets.map emitSet) ++ emitWhere sql ++ ";\n".toList
  | .unknown => "-- (UNKNOWN query type)\n".toList

/-! ## The tokens of a text that stands in another one -/

/-- What may follow a word or an operator. -/
def Gap (rest : CStr) : Prop := ∀ c ∈ rest.head?, isWordChar c = false ∧ c ≠ '='

/-- The text is those tokens, wherever it ends. -/
def Lexes (text : CStr) (tokens : List CStr) : Prop :=
  ∀ rest, Gap rest → tokenize (text ++ rest) = tokens ++ tokenize rest

theorem Gap.append {a b : CStr} (ha : Gap a) (hb : Gap b) : Gap (a ++ b) := by
  cases a with
  | nil => exact hb
  | cons c a => exact ha

theorem gap_nil : Gap [] := by simp [Gap]

theorem gap_cons {c : Char} (h : isWordChar c = false ∧ c ≠ '=') (s : CStr) : Gap (c :: s) := by
  simpa [Gap] using h

theorem gap_space (s : CStr) : Gap (' ' :: s) := gap_cons (by decide) s

theorem Lexes.append {a b : CStr} {ts us : List CStr} (ha : Lexes a ts) (hb : Lexes b us)
    (hgap : Gap b) : Lexes (a ++ b) (ts ++ us) := by
  intro rest hrest
  rw [List.append_assoc, ha _ (hgap.append hrest), hb rest hrest, List.append_assoc]

theorem lexes_nil : Lexes [] [] := fun _ _ => rfl

theorem Lexes.tokenize {text : CStr} {ts : List CStr} (h : Lexes text ts) :
    tokenize text = ts := by
  have := h [] gap_nil
  simpa using this

theorem Lexes.space {b : CStr} {us : List CStr} (hb : Lexes b us) : Lexes (' ' :: b) us := by
  intro rest hrest
  rw [List.cons_append, tokenize_space (by decide), hb rest hrest]

/-- A text, a blank and another text. -/
theorem Lexes.blank {a b : CStr} {ts us : List CStr} (ha : Lexes a ts) (hb : Lexes b us) :
    Lexes (a ++ ' ' :: b) (ts ++ us) := ha.append hb.space (gap_space b)

theorem Lexes.single {c : Char} (hc : isSingle c = true) {b : CStr} {us : List CStr}
    (hb : Lexes b us) : Lexes (c :: b) ([c] :: us) := by
  intro rest hrest
  rw [List.cons_append, tokenize_single hc, hb rest hrest, List.cons_append]

theorem lexes_word {w : CStr} (hne : w ≠ []) (hw : ∀ c ∈ w, isWordChar c = true)
    (hminus : ¬ ['-', '-'] <+: w) : Lexes w [w] := by
  intro rest hrest
  exact tokenize_word hne hw hminus fun c hc => (hrest c hc).1

theorem lexes_quoted {v : CStr} (hv : '\'' ∉ v) : Lexes ('\'' :: (v ++ ['\''])) [v] := by
  intro rest hrest
  have := tokenize_quoted (Or.inl rfl) hv rest
  simpa using this

/-! ## Printed values -/

/-- The end of a word and of an operator is no end of a token in front of them. -/
theorem Lex.tokens_of_gap {l : Lex} (hl : l.bare = true) {rest : CStr} (hrest : Gap rest) :
    l.tokens rest = l.pending ++ Lex.gap.tokens rest := by
  cases rest with
  | nil => simp [Lex.tokens, Lex.pending]
  | cons c rest =>
    obtain ⟨hword, heq⟩ := hrest c rfl
    have hminus : c ≠ '-' := by
      rintro rfl
      exact absurd hword (by decide)
    have hnext : l.next c = l.leave c := by
      cases l with
      | gap => rfl
      | op o => exact if_neg heq
      | dash => rw [Lex.next, if_neg hminus, if_neg (by simp [hword])]
      | word w => exact if_neg (by simp [hword])
      | quoted q a => exact absurd hl Bool.false_ne_true
      | comment => exact absurd hl Bool.false_ne_true
    rw [Lex.tokens, Lex.tokens, hnext, Lex.leave, List.append_assoc]
    rfl

/-- Without quotes and dashes, no quoted text and no comment begins. -/
theorem Lex.bare_after {v : CStr} (hv : '\'' ∉ v ∧ '"' ∉ v ∧ '-' ∉ v) {l : Lex}
    (hl : l.bare = true) : (l.after v).bare = true := by
  induction v generalizing l with
  | nil => exact hl
  | cons c v ih =>
    simp only [List.mem_cons, not_or] at hv
    obtain ⟨⟨hsingle, hs⟩, ⟨hdouble, hd⟩, ⟨hminus, hm⟩⟩ := hv
    have hfresh : (Lex.fresh c).2.bare = true := by
      have hquote : ¬ (c = '\'' ∨ c = '"') := by
        rintro (rfl | rfl)
        · exact hsingle rfl
        · exact hdouble rfl
      unfold Lex.fresh
      rw [if_neg (Ne.symm hminus), if_neg hquote]
      split_ifs <;> rfl
    have hnext : (l.next c).2.bare = true := by
      cases l with
      | gap => exact hfresh
      | op o =>
        rw [Lex.next.eq_def]
        dsimp only
        split_ifs
        · rfl
        · exact hfresh
      | dash =>
        rw [Lex.next.eq_def]
        dsimp only
        rw [if_neg (Ne.symm hminus)]
        split_ifs
        · rfl
        · exact hfresh
      | word w =>
        rw [Lex.next.eq_def]
        dsimp only
        split_ifs
        · rfl
        · exact hfresh
      | quoted q a => exact absurd hl Bool.false_ne_true
      | comment => exact absurd hl Bool.false_ne_true
    exact ih ⟨hs, hd, hm⟩ hnext

theorem lexes_bare {v : CStr} (hv : '\'' ∉ v ∧ '"' ∉ v ∧ '-' ∉ v) : Lexes v (tokenize v) := by
  intro rest hrest
  rw [← Lex.tokens_gap, ← Lex.tokens_gap, ← Lex.tokens_gap, Lex.tokens_append,
    Lex.tokens_of_gap (Lex.bare_after hv rfl) hrest, ← List.append_assoc, ← Lex.tokens_eq]

theorem Format.needsQuote_eq_false {v : CStr} (h : Format.needsQuote v = false) :
    v ≠ [] ∧ '-' ∉ v ∧ ∀ c ∈ v.head?, c.isDigit = true ∨ c = '+' := by
  cases v with
  | nil => exact absurd h (by decide)
  | cons c v =>
    rw [Format.needsQuote] at h
    split_ifs at h with hsep hfirst
    simp only [List.any_eq_true, Bool.or_eq_true, beq_iff_eq, not_exists, not_and, not_or] at hsep
    have hminus : '-' ∉ c :: v := fun hmem => (hsep '-' hmem).1.2 rfl
    refine ⟨by simp, hminus, fun d hd => ?_⟩
    obtain rfl : c = d := by simpa using hd
    simp only [Bool.or_eq_true, beq_iff_eq] at hfirst
    rcases hfirst with (hdigit | hd) | hplus
    · exact Or.inl hdigit
    · exact absurd (by simp [hd]) hminus
    · exact Or.inr hplus

/-- What the tokenizer makes of a printed value. -/
def valueTokens (v : CStr) : List CStr := if Format.needsQuote v then [v] else tokenize v

theorem lexes_emitValue {v : CStr} (hv : '\'' ∉ v ∧ '"' ∉ v) :
    Lexes (emitValue v) (valueTokens v) := by
  unfold emitValue valueTokens
  by_cases h : Format.needsQuote v = true
  · rw [if_pos h, if_pos h]
    exact lexes_quoted hv.1
  · rw [if_neg h, if_neg h]
    exact lexes_bare ⟨hv.1, hv.2, (Format.needsQuote_eq_false (Bool.not_eq_true _ ▸ h)).2.1⟩

/-- A printed value that is read back: it was quoted, or is a word. -/
def Safe (v : CStr) : Prop := Format.needsQuote v = true ∨ ∀ c ∈ v, isWordChar c = true

theorem Safe.valueTokens {v : CStr} (h : Safe v) : valueTokens v = [v] := by
  by_cases hquote : Format.needsQuote v = true
  · exact if_pos hquote
  · obtain ⟨hne, hminus, -⟩ := Format.needsQuote_eq_false (Bool.not_eq_true _ ▸ hquote)
    have hword : ∀ c ∈ v, isWordChar c = true := h.resolve_left hquote
    have hcomment : ¬ ['-', '-'] <+: v := fun hpre => hminus (hpre.subset (by simp))
    have := lexes_word hne hword hcomment [] gap_nil
    rw [MiniSql.valueTokens, if_neg hquote]
    simpa using this

/-- A token that no quotes are around: a word, or no number. -/
def Plain (t : CStr) : Prop :=
  (∀ c ∈ t, isWordChar c = true) ∨ ∀ c ∈ t.head?, c.isDigit = false ∧ c ≠ '+'

theorem plain_of_mem_tokenize {v : CStr} (hv : '\'' ∉ v ∧ '"' ∉ v) {t : CStr}
    (h : t ∈ tokenize v) : Plain t := by
  have hloop : ∀ (n : ℕ) (v : CStr), '\'' ∉ v ∧ '"' ∉ v → t ∈ tokenizeLoop n v → Plain t := by
    intro n
    induction n with
    | zero => intro v _ h; exact absurd h (by simp [tokenizeLoop])
    | succ n ih =>
      intro v hv h
      cases v with
      | nil => exact absurd h (by simp [tokenizeLoop])
      | cons c p =>
        have hrest : (tokenStep c p).2 ⊆ c :: p :=
          List.subset_cons_of_subset c (tokenStep_subset c p).2
        have hquote : ¬ (c = '\'' ∨ c = '"') := by
          rintro (rfl | rfl)
          · exact hv.1 (by simp)
          · exact hv.2 (by simp)
        have hstep : ∀ t', (tokenStep c p).1 = some t' → Plain t' := by
          intro t' ht'
          unfold tokenStep at ht'
          rw [if_neg hquote] at ht'
          split_ifs at ht' with _ _ hsingle hop _ hword
          · rw [← Option.some.inj ht']
            have : ∀ d : Char, isSingle d = true → d.isDigit = false ∧ d ≠ '+' := by
              intro d hd
              simp only [isSingle, Bool.or_eq_true, beq_iff_eq] at hd
              rcases hd with ((((rfl | rfl) | rfl) | rfl) | rfl) | rfl <;> decide
            exact Or.inr (by simpa using this c hsingle)
          · rw [← Option.some.inj ht']
            exact Or.inr (by rcases hop with rfl | rfl | rfl <;> simp)
          · rw [← Option.some.inj ht']
            exact Or.inr (by rcases hop with rfl | rfl | rfl <;> simp)
          · rw [← Option.some.inj ht']
            refine Or.inl fun d hd => ?_
            rcases List.mem_cons.mp hd with rfl | hd
            · exact hword
            · exact List.mem_takeWhile_imp hd
        rw [tokenizeLoop] at h
        rcases hs : tokenStep c p with ⟨_ | t', rest⟩ <;> rw [hs] at h hstep hrest
        · exact ih rest ⟨fun hm => hv.1 (hrest hm), fun hm => hv.2 (hrest hm)⟩ h
        · rcases List.mem_cons.mp h with rfl | h
          · exact hstep t rfl
          · exact ih rest ⟨fun hm => hv.1 (hrest hm), fun hm => hv.2 (hrest hm)⟩ h
  exact hloop _ _ hv h

/-- A plain text is safe. -/
theorem Plain.safe {t : CStr} (h : Plain t) : Safe t := by
  rcases h with h | h
  · exact Or.inr h
  · refine Or.inl ?_
    by_contra hquote
    obtain ⟨hne, -, hfirst⟩ := Format.needsQuote_eq_false (Bool.not_eq_true _ ▸ hquote)
    cases t with
    | nil => exact hne rfl
    | cons c t =>
      obtain ⟨hdigit, hplus⟩ := h c rfl
      rcases hfirst c rfl with hd | hp
      · exact absurd hd (by simp [hdigit])
      · exact hplus hp

/-- Every token of a printed value is safe, so a value that is not has gone. -/
theorem safe_of_mem_valueTokens {v : CStr} (hv : '\'' ∉ v ∧ '"' ∉ v) {t : CStr}
    (h : t ∈ valueTokens v) : Safe t := by
  unfold valueTokens at h
  split_ifs at h with hquote
  · obtain rfl := List.mem_singleton.mp h
    exact Or.inl hquote
  · exact (plain_of_mem_tokenize hv h).safe

/-! ## Printed statements -/

/-- Commas between the tokens of the members of a list. -/
def commaTokens : List (List CStr) → List CStr
  | [] => []
  | [x] => x
  | x :: y :: xs => x ++ [','] :: commaTokens (y :: xs)

/-- The tokens of `emitConds`. -/
def condTokens (sql : ParsedSQL) : ℕ → List WhereClause → List CStr
  | _, [] => []
  | i, w :: ws =>
    (if 0 < i then [whereLinkAt sql (i - 1)] else []) ++
      (w.column :: w.op :: (valueTokens w.value ++ condTokens sql (i + 1) ws))

def whereTokens (sql : ParsedSQL) : List CStr :=
  if sql.conds = [] then [] else "WHERE".toList :: condTokens sql 0 sql.conds

def orderTokens (o : OrderBy) : List CStr :=
  ["ORDER".toList, "BY".toList, o.column, if o.asc then "ASC".toList else "DESC".toList]

/-- The tokens of `printFormat`. -/
def printedTokens (sql : ParsedSQL) : List CStr :=
  match sql.type with
  | .create => ["CREATE".toList, "TABLE".toList, sql.table, ['(']] ++
      (commaTokens (sql.colDefs.map tokenize) ++ [[')'], [';']])
  | .insert => ["INSERT".toList, "INTO".toList, sql.table, ['(']] ++
      (commaTokens (sql.columns.map tokenize) ++ ([[')'], "VALUES".toList, ['(']] ++
        (commaTokens (sql.values.map valueTokens) ++ [[')'], [';']])))
  | .select => ["SELECT".toList] ++ (commaTokens (sql.columns.map tokenize) ++
      (["FROM".toList, sql.table] ++ (whereTokens sql ++
        ((sql.orderBy.map orderTokens).getD [] ++
          ((if 0 ≤ sql.limit then ["LIMIT".toList, intText sql.limit] else []) ++ [[';']])))))
  | .delete => ["DELETE".toList, "FROM".toList, sql.table] ++ (whereTokens sql ++ [[';']])
  | .update => ["UPDATE".toList, sql.table, "SET".toList] ++
      (commaTokens (sql.sets.map fun s => s.column :: ['='] :: valueTokens s.value) ++
        (whereTokens sql ++ [[';']]))
  | .unknown => []

/-- The fields of a statement are the texts of tokens. -/
structure Tokenizable (sql : ParsedSQL) : Prop where
  table : Lexes sql.table [sql.table]
  columns : ∀ c ∈ sql.columns, Lexes c (tokenize c)
  values : ∀ v ∈ sql.values, '\'' ∉ v ∧ '"' ∉ v
  conds : ∀ w ∈ sql.conds,
    Lexes w.column [w.column] ∧ Lexes w.op [w.op] ∧ '\'' ∉ w.value ∧ '"' ∉ w.value
  orderBy : ∀ o ∈ sql.orderBy, Lexes o.column [o.column]
  sets : ∀ s ∈ sql.sets, Lexes s.column [s.column] ∧ '\'' ∉ s.value ∧ '"' ∉ s.value
  colDefs : ∀ d ∈ sql.colDefs, Lexes d (tokenize d)

theorem lexes_commaJoin {α : Type*} (text : α → CStr) (tokens : α → List CStr) {xs : List α}
    (h : ∀ x ∈ xs, Lexes (text x) (tokens x)) :
    Lexes (commaJoin (xs.map text)) (commaTokens (xs.map tokens)) := by
  induction xs with
  | nil => exact lexes_nil
  | cons x xs ih =>
    cases xs with
    | nil => exact h x (by simp)
    | cons y xs =>
      have hrest := ih fun z hz => h z (List.mem_cons_of_mem x hz)
      have := (h x (by simp)).append (hrest.space.single (c := ',') (by decide))
        (gap_cons (by decide) _)
      simpa [commaJoin, commaTokens] using this

theorem lexes_intText {n : ℤ} (hn : 0 ≤ n) : Lexes (intText n) [intText n] := by
  have htext : intText n = Nat.toDigits 10 n.natAbs := if_neg (by omega)
  have hdigit : ∀ c ∈ intText n, c.isDigit = true := by
    rw [htext]
    exact fun c hc => Nat.isDigit_of_mem_toDigits (by decide) (by decide) hc
  refine lexes_word ?_ (fun c hc => ?_) fun hpre => ?_
  · rw [htext]
    exact Nat.toDigits_ne_nil
  · simp [isWordChar, Char.isAlphanum, hdigit c hc]
  · exact absurd (hdigit '-' (hpre.subset (by simp))) (by decide)

/-- A keyword. -/
theorem lexes_keyword (kw : CStr) (hkw : kw ≠ [] ∧ kw.all Char.isAlpha = true) : Lexes kw [kw] := by
  have halpha : ∀ c ∈ kw, c.isAlpha = true := List.all_eq_true.mp hkw.2
  have hminus : ¬ ['-', '-'] <+: kw := fun hpre =>
    absurd (halpha '-' (hpre.subset (by simp))) (by decide)
  exact lexes_word hkw.1 (fun c hc => by simp [isWordChar, Char.isAlphanum, halpha c hc]) hminus

/-- A keyword and what follows it. -/
theorem Lexes.keyword {b : CStr} {us : List CStr} (hb : Lexes b us) (kw : CStr)
    (hkw : kw ≠ [] ∧ kw.all Char.isAlpha = true) : Lexes (kw ++ ' ' :: b) (kw :: us) :=
  (lexes_keyword kw hkw).blank hb

theorem whereLinkAt_eq (sql : ParsedSQL) (i : ℕ) :
    whereLinkAt sql i = "OR".toList ∨ whereLinkAt sql i = "AND".toList := by
  unfold whereLinkAt
  dsimp only
  split
  · split_ifs
    · exact Or.inl rfl
    · exact Or.inr rfl
  · exact Or.inr rfl

theorem gap_emitConds (sql : ParsedSQL) (i : ℕ) (ws : List WhereClause) :
    Gap (emitConds sql (i + 1) ws) := by
  cases ws with
  | nil => exact gap_nil
  | cons w ws => exact gap_space _

theorem lexes_emitConds {sql : ParsedSQL} {ws : List WhereClause}
    (h : ∀ w ∈ ws,
      Lexes w.column [w.column] ∧ Lexes w.op [w.op] ∧ '\'' ∉ w.value ∧ '"' ∉ w.value) (i : ℕ) :
    Lexes (emitConds sql i ws) (condTokens sql i ws) := by
  induction ws generalizing i with
  | nil => exact lexes_nil
  | cons w ws ih =>
    obtain ⟨hcolumn, hop, hvalue⟩ := h w (by simp)
    have hrest := ih (fun w' hw' => h w' (List.mem_cons_of_mem w hw')) (i + 1)
    have hvalueRest := (lexes_emitValue hvalue).append hrest (gap_emitConds sql i ws)
    have hcond : Lexes (w.column ++ ' ' :: (w.op ++ ' ' :: (emitValue w.value ++
        emitConds sql (i + 1) ws)))
        (w.column :: w.op :: (valueTokens w.value ++ condTokens sql (i + 1) ws)) :=
      hcolumn.blank (hop.blank hvalueRest)
    rw [emitConds, condTokens]
    by_cases hi : 0 < i
    · rw [if_pos hi, if_pos hi]
      have hkw : whereLinkAt sql (i - 1) ≠ [] ∧
          (whereLinkAt sql (i - 1)).all Char.isAlpha = true := by
        rcases whereLinkAt_eq sql (i - 1) with hlink | hlink <;> rw [hlink] <;> decide
      simpa using (hcond.keyword _ hkw).space
    · rw [if_neg hi, if_neg hi]
      exact hcond

theorem lexes_emitWhere {sql : ParsedSQL} (h : Tokenizable sql) :
    Lexes (emitWhere sql) (whereTokens sql) ∧ Gap (emitWhere sql) := by
  unfold emitWhere whereTokens
  by_cases hconds : sql.conds = []
  · rw [if_pos hconds, if_pos hconds]
    exact ⟨lexes_nil, gap_nil⟩
  · rw [if_neg hconds, if_neg hconds]
    exact ⟨((lexes_emitConds h.conds 0).keyword "WHERE".toList (by decide)).space,
      gap_space _⟩

theorem lexes_comment : Lexes "-- (UNKNOWN query type)\n".toList [] := by
  intro rest _
  have hspace : isSpace '\n' = true := by decide
  have hstep : tokenStep '-' ("- (UNKNOWN query type)\n".toList ++ rest) =
      (none, '\n' :: rest) := rfl
  change tokenize ('-' :: ("- (UNKNOWN query type)\n".toList ++ rest)) = _
  rw [tokenize_cons, hstep]
  exact tokenize_space hspace rest

theorem lexes_end : Lexes ";\n".toList [[';']] := by
  have hnewline : Lexes "\n".toList [] := fun rest _ => tokenize_space (by decide) rest
  exact hnewline.single (c := ';') (by decide)

theorem lexes_emitOrder {order : Option OrderBy} (h : ∀ o ∈ order, Lexes o.column [o.column]) :
    Lexes (emitOrder order) ((order.map orderTokens).getD []) ∧ Gap (emitOrder order) := by
  cases order with
  | none => exact ⟨lexes_nil, gap_nil⟩
  | some o =>
    have hdir : Lexes (if o.asc then "ASC".toList else "DESC".toList)
        [if o.asc then "ASC".toList else "DESC".toList] := by
      split_ifs <;> exact lexes_keyword _ (by decide)
    have hby := ((h o rfl).blank hdir).keyword "BY".toList (by decide)
    exact ⟨(hby.keyword "ORDER".toList (by decide)).space, gap_space _⟩

theorem lexes_emitLimit (limit : ℤ) :
    Lexes (emitLimit limit) (if 0 ≤ limit then ["LIMIT".toList, intText limit] else []) ∧
      Gap (emitLimit limit) := by
  unfold emitLimit
  split_ifs with hpos
  · exact ⟨((lexes_intText hpos).keyword "LIMIT".toList (by decide)).space, gap_space _⟩
  · exact ⟨lexes_nil, gap_nil⟩

theorem lexes_create {sql : ParsedSQL} (h : Tokenizable sql) (htype : sql.type = .create) :
    Lexes (printFormat sql) (printedTokens sql) := by
  have hdefs : Lexes (commaJoin sql.colDefs) (commaTokens (sql.colDefs.map tokenize)) := by
    simpa using lexes_commaJoin id tokenize h.colDefs
  have hlist := hdefs.append (lexes_end.single (c := ')') (by decide)) (gap_cons (by decide) _)
  have htable := (h.table.blank (hlist.single (c := '(') (by decide))).keyword "TABLE".toList
    (by decide)
  have hclosed := htable.keyword "CREATE".toList (by decide)
  rw [printFormat, printedTokens, htype]
  simp only [List.append_assoc]
  exact hclosed

theorem lexes_insert {sql : ParsedSQL} (h : Tokenizable sql) (htype : sql.type = .insert) :
    Lexes (printFormat sql) (printedTokens sql) := by
  have hcolumns : Lexes (commaJoin sql.columns) (commaTokens (sql.columns.map tokenize)) := by
    simpa using lexes_commaJoin id tokenize h.columns
  have hvalues := lexes_commaJoin emitValue valueTokens fun v hv =>
    lexes_emitValue (h.values v hv)
  have hlast := hvalues.append (lexes_end.single (c := ')') (by decide)) (gap_cons (by decide) _)
  have hmiddle := (hlast.single (c := '(') (by decide)).keyword "VALUES".toList (by decide)
  have hlists := hcolumns.append (hmiddle.space.single (c := ')') (by decide))
    (gap_cons (by decide) _)
  have htable := (h.table.blank (hlists.single (c := '(') (by decide))).keyword "INTO".toList
    (by decide)
  have hclosed := htable.keyword "INSERT".toList (by decide)
  rw [printFormat, printedTokens, htype]
  simp only [List.append_assoc]
  exact hclosed

theorem lexes_select {sql : ParsedSQL} (h : Tokenizable sql) (htype : sql.type = .select) :
    Lexes (printFormat sql) (printedTokens sql) := by
  have hcolumns : Lexes (commaJoin sql.columns) (commaTokens (sql.columns.map tokenize)) := by
    simpa using lexes_commaJoin id tokenize h.columns
  obtain ⟨hwhere, hgapWhere⟩ := lexes_emitWhere h
  obtain ⟨horder, hgapOrder⟩ := lexes_emitOrder h.orderBy
  obtain ⟨hlimit, hgapLimit⟩ := lexes_emitLimit sql.limit
  have hgapEnd : Gap ";\n".toList := gap_cons (by decide) _
  have hgapTail := hgapOrder.append (hgapLimit.append hgapEnd)
  have htail := horder.append (hlimit.append lexes_end hgapEnd) (hgapLimit.append hgapEnd)
  have htable := (h.table.append (hwhere.append htail hgapTail)
    (hgapWhere.append hgapTail)).keyword "FROM".toList (by decide)
  have hclosed := (hcolumns.blank htable).keyword "SELECT".toList (by decide)
  rw [printFormat, printedTokens, htype]
  simp only [List.append_assoc]
  exact hclosed

theorem lexes_delete {sql : ParsedSQL} (h : Tokenizable sql) (htype : sql.type = .delete) :
    Lexes (printFormat sql) (printedTokens sql) := by
  obtain ⟨hwhere, hgapWhere⟩ := lexes_emitWhere h
  have hgapEnd : Gap ";\n".toList := gap_cons (by decide) _
  have hclosed := ((h.table.append (hwhere.append lexes_end hgapEnd)
    (hgapWhere.append hgapEnd)).keyword "FROM".toList (by decide)).keyword "DELETE".toList (by decide)
  rw [printFormat, printedTokens, htype]
  simp only [List.append_assoc]
  exact hclosed

theorem lexes_update {sql : ParsedSQL} (h : Tokenizable sql) (htype : sql.type = .update) :
    Lexes (printFormat sql) (printedTokens sql) := by
  obtain ⟨hwhere, hgapWhere⟩ := lexes_emitWhere h
  have hgapEnd : Gap ";\n".toList := gap_cons (by decide) _
  have hsets := lexes_commaJoin emitSet
    (fun s => s.column :: ['='] :: valueTokens s.value) fun s (hs : s ∈ sql.sets) => by
      obtain ⟨hcolumn, hvalue⟩ := h.sets s hs
      have hset := hcolumn.blank ((lexes_emitValue hvalue).space.single (c := '=') (by decide))
      simpa [emitSet] using hset
  have htail := hsets.append (hwhere.append lexes_end hgapEnd) (hgapWhere.append hgapEnd)
  have htable := h.table.blank (htail.keyword "SET".toList (by decide))
  have hclosed := htable.keyword "UPDATE".toList (by decide)
  rw [printFormat, printedTokens, htype]
  simp only [List.append_assoc]
  exact hclosed

/-- **The tokens of a printed statement** are those of its fields, with the keywords. -/
theorem tokenize_printFormat {sql : ParsedSQL} (h : Tokenizable sql) :
    tokenize (printFormat sql) = printedTokens sql := by
  have hclosed : Lexes (printFormat sql) (printedTokens sql) := by
    cases htype : sql.type with
    | unknown =>
      rw [printFormat, printedTokens, htype]
      exact lexes_comment
    | create => exact lexes_create h htype
    | insert => exact lexes_insert h htype
    | select => exact lexes_select h htype
    | delete => exact lexes_delete h htype
    | update => exact lexes_update h htype
  simpa using hclosed [] gap_nil

/-! ## Values that are cut -/

theorem Plain.take {t : CStr} (h : Plain t) (n : ℕ) : Plain (t.take n) := by
  rcases h with h | h
  · exact Or.inl fun c hc => h c (List.mem_of_mem_take hc)
  · refine Or.inr fun c hc => h c ?_
    cases t with
    | nil => simp at hc
    | cons d t =>
      cases n with
      | zero => simp at hc
      | succ n => exact hc

/-- The tokens of a value that fits into its array. -/
theorem safe_take_of_mem_valueTokens {v : CStr} (hv : '\'' ∉ v ∧ '"' ∉ v) (hlen : v.length ≤ 255)
    {t : CStr} (h : t ∈ valueTokens v) : Safe (t.take 255) := by
  unfold valueTokens at h
  split_ifs at h with hquote
  · obtain rfl := List.mem_singleton.mp h
    rw [List.take_of_length_le hlen]
    exact Or.inl hquote
  · exact (Plain.take (plain_of_mem_tokenize hv h) 255).safe

theorem mem_condTokens {sql : ParsedSQL} {i : ℕ} {ws : List WhereClause} {t : CStr}
    (h : t ∈ condTokens sql i ws) : t = "OR".toList ∨ t = "AND".toList ∨
      ∃ w ∈ ws, t = w.column ∨ t = w.op ∨ t ∈ valueTokens w.value := by
  induction ws generalizing i with
  | nil => exact absurd h (by simp [condTokens])
  | cons w ws ih =>
    rw [condTokens] at h
    rcases List.mem_append.mp h with h | h
    · split_ifs at h
      · obtain rfl := List.mem_singleton.mp h
        rcases whereLinkAt_eq sql (i - 1) with hlink | hlink
        · exact Or.inl hlink
        · exact Or.inr (Or.inl hlink)
      · exact absurd h (by simp)
    · simp only [List.mem_cons, List.mem_append] at h
      rcases h with h | h | h | h
      · exact Or.inr (Or.inr ⟨w, by simp, Or.inl h⟩)
      · exact Or.inr (Or.inr ⟨w, by simp, Or.inr (Or.inl h)⟩)
      · exact Or.inr (Or.inr ⟨w, by simp, Or.inr (Or.inr h)⟩)
      · rcases ih h with h | h | ⟨w', hw', h⟩
        · exact Or.inl h
        · exact Or.inr (Or.inl h)
        · exact Or.inr (Or.inr ⟨w', List.mem_cons_of_mem w hw', h⟩)

/-- The beginning of the token is a safe value. -/
def Steady (t : CStr) : Prop := Safe (t.take 255)

theorem Plain.steady {t : CStr} (h : Plain t) : Steady t := (Plain.take h 255).safe

theorem steady_keyword (kw : CStr) (h : kw.all isWordChar = true) : Steady kw :=
  Plain.steady (Or.inl (List.all_eq_true.mp h))

end MiniSql
