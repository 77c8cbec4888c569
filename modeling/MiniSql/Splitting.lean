import MiniSql.EngineReady
import MiniSql.Tokens.Lex

/-!
# Splitting and tokenizing

`split_next_statement` and `tokenize` each have a scanner for quotes, and only the second knows
comments.

## Main definitions

* `splitStatements` — the statements that `engine_exec_sql` makes of a text.
* `openQuote`, `quoteCutter` — the automaton that cuts a text at the `;` outside quotes.
* `SplitAgrees`, `SameSemicolons`.
* `splitCall`, `splitCalls` — one call of `split_next_statement`, and the calls one after another.

## Main results

* `splitStatements_eq` — the loop of `split_next_statement` is that automaton.
* `splitAgrees_iff` — when the two scanners agree.
* `sameSemicolons_of_no_comment` — they do on a text without `--`.
* `splitCalls_segments` — the calls return the text between the `;` outside quotes.
-/

namespace MiniSql
open CText

/-! ## The splitter as an automaton -/

/-- The open quote behind one more character. -/
def quoteStep : Option Char → Char → Option Char
  | some q, c => if c = q then none else some q
  | none, c => if c = '\'' ∨ c = '"' then some c else none

/-- The quote that is open behind a text, if `--` is text like any other. -/
def openQuote (s : CStr) : Option Char := s.foldl quoteStep none

/-- The automaton that cuts a text at the `;` outside quotes. -/
def quoteCutter : Cutter ';' isSpace (Option Char) where
  start := none
  step := quoteStep
  cuts q := q.isNone
  cuts_start := rfl
  step_blank c hc := by
    refine if_neg ?_
    rintro (rfl | rfl) <;> exact absurd hc (by decide)
  step_sep q hq := by
    cases q with
    | none => rfl
    | some q => exact absurd hq (by simp)

/-- The statements that `engine_exec_sql` makes of a text. -/
def splitStatements (s : CStr) : List CStr := (callStatements (fun _ => .zero) s).map Prod.snd

/-- The pieces of a text from a place on, by the loop of `split_next_statement`. -/
theorem pieces_quoteCutter (x : CStr) (q : Option Char) (s : CStr) :
    quoteCutter.pieces x q s =
      (x ++ (splitLoop q s).1) ::
        if (splitLoop q s).2 = [] then [] else quoteCutter.pieces [] none (splitLoop q s).2.tail := by
  fun_induction splitLoop q s generalizing x with
  | case1 => simp [Cutter.pieces]
  | case2 q c s text rest hsplit ih =>
    rw [Cutter.pieces_step (by simp [quoteCutter])]
    change quoteCutter.pieces (x ++ [c]) (if c = q then none else some q) s = _
    rw [ih, hsplit, List.append_assoc]
    rfl
  | case3 s => simp [Cutter.pieces, quoteCutter]
  | case4 c s hc text rest hsplit ih =>
    rw [Cutter.pieces_step fun hcut => hc hcut.1]
    change quoteCutter.pieces (x ++ [c]) (if c = '\'' ∨ c = '"' then some c else none) s = _
    rw [ih, hsplit, List.append_assoc]
    rfl

theorem splitLoop_length (q : Option Char) (s : CStr) :
    (splitLoop q s).2.length ≤ s.length := by
  fun_induction splitLoop q s with
  | case1 => simp
  | case2 q c s text rest hsplit ih =>
    rw [hsplit] at ih
    exact Nat.le_succ_of_le ih
  | case3 s => exact le_rfl
  | case4 c s hc text rest hsplit ih =>
    rw [hsplit] at ih
    exact Nat.le_succ_of_le ih

/-- The statements of a text that starts with no blank. -/
theorem statements_splitLoop (s : CStr) :
    quoteCutter.statements s =
      (if trimSpace (splitLoop none s).1 = [] then [] else [trimSpace (splitLoop none s).1]) ++
        quoteCutter.statements (splitLoop none s).2.tail := by
  have hpieces := pieces_quoteCutter [] none s
  have hdef : ∀ t : CStr, quoteCutter.statements t =
      ((quoteCutter.pieces [] none t).map trimSpace).filter (· ≠ []) := fun _ => rfl
  rw [hdef, hpieces, List.nil_append, List.map_cons]
  by_cases hrest : (splitLoop none s).2 = []
  · rw [hrest]
    by_cases hblank : trimSpace (splitLoop none s).1 = [] <;> simp [hblank]
  · rw [if_neg hrest, hdef]
    by_cases hblank : trimSpace (splitLoop none s).1 = [] <;> simp [hblank]

/-- What `split_next_statement` does with the text that is left. -/
theorem splitNextStatement_spec {n : ℕ} {cursor : CStr} (hn : cursor.length < n) :
    match splitNextStatement n cursor with
    | none => quoteCutter.statements cursor = []
    | some (stmt, rest) => quoteCutter.statements cursor = stmt :: quoteCutter.statements rest ∧
        rest.length < cursor.length := by
  induction n generalizing cursor with
  | zero => exact absurd hn (Nat.not_lt_zero _)
  | succ n ih =>
    have hskip : quoteCutter.statements cursor =
        quoteCutter.statements (cursor.dropWhile isSpace) := by
      have h := @Cutter.statements_blank_append _ _ _ _ _ quoteCutter (by decide)
        (cursor.takeWhile isSpace) (fun c hc => List.mem_takeWhile_imp hc)
        (cursor.dropWhile isSpace)
      rwa [List.takeWhile_append_dropWhile] at h
    have hlen : (cursor.dropWhile isSpace).length ≤ cursor.length :=
      (List.dropWhile_suffix isSpace).length_le
    rw [hskip, splitNextStatement]
    cases hcursor : cursor.dropWhile isSpace with
    | nil => rfl
    | cons c s =>
      have hloop := splitLoop_length none (c :: s)
      rw [hcursor] at hlen
      rw [List.length_cons] at hlen hloop
      have htail : (splitLoop none (c :: s)).2.tail.length < cursor.length := by
        rw [List.length_tail]
        omega
      rw [statements_splitLoop (c :: s)]
      dsimp only
      by_cases hblank : trimSpace (splitLoop none (c :: s)).1 = []
      · rw [if_pos hblank, if_pos hblank, List.nil_append]
        have hnext := @ih (splitLoop none (c :: s)).2.tail (by omega)
        generalize splitNextStatement n (splitLoop none (c :: s)).2.tail = result at hnext ⊢
        cases result with
        | none => exact hnext
        | some found => exact ⟨hnext.1, by omega⟩
      · rw [if_neg hblank, if_neg hblank]
        exact ⟨rfl, htail⟩

theorem callLoop_eq {n : ℕ} {cursor : CStr} (hn : cursor.length < n) (mem : ℕ → Uninit) (i : ℕ) :
    (callLoop mem n i cursor).map Prod.snd = quoteCutter.statements cursor := by
  induction n generalizing i cursor with
  | zero => exact absurd hn (Nat.not_lt_zero _)
  | succ n ih =>
    have hspec := splitNextStatement_spec (Nat.lt_succ_self cursor.length)
    rw [callLoop]
    cases hsplit : splitNextStatement (cursor.length + 1) cursor with
    | none =>
      rw [hsplit] at hspec
      exact hspec.symm
    | some found =>
      obtain ⟨stmt, rest⟩ := found
      rw [hsplit] at hspec
      obtain ⟨hstatements, hlt⟩ := hspec
      dsimp only
      rw [List.map_cons, ih (by omega), hstatements]

/-- **The statements are those of the automaton.** -/
theorem splitStatements_eq (s : CStr) : splitStatements s = quoteCutter.statements s :=
  callLoop_eq (Nat.lt_succ_self s.length) _ 0

/-- Whatever memory their parsers get, a call executes these statements. -/
theorem callStatements_snd (mem : ℕ → Uninit) (s : CStr) :
    (callStatements mem s).map Prod.snd = splitStatements s :=
  (callLoop_eq (Nat.lt_succ_self s.length) mem 0).trans (splitStatements_eq s).symm

/-! ## Agreement -/

/-- Splitting and tokenizing agree: the tokens of the statements are those of the text without the
bare `;`, and the statements are what stands between the bare `;`. -/
def SplitAgrees (s : CStr) : Prop :=
  (splitStatements s).flatMap tokenize = (bareParts s).flatMap Prod.snd ∧
    splitStatements s = bareStatements s

instance (s : CStr) : Decidable (SplitAgrees s) := inferInstanceAs (Decidable (_ ∧ _))

/-- A comment is ordinary text for the splitter, whose quotes it counts. -/
theorem splitAgrees_comment : ¬ SplitAgrees "SELECT 1 -- it's one\n; SELECT 2".toList := by
  decide +kernel

/-- At every `;`, no quote is open when `--` is text like any other, exactly if neither a quote nor a
comment is open when `--` starts a comment. -/
def SameSemicolons (s : CStr) : Prop :=
  ∀ p r, s = p ++ ';' :: r → (openQuote p = none ↔ (Lex.gap.after p).bare = true)

/-- **Splitting and tokenizing agree exactly if every `;` is inside or outside for both, and no
blank stands at the end of an open quote.** -/
theorem splitAgrees_iff (s : CStr) : SplitAgrees s ↔ SameSemicolons s ∧ ¬ Lex.OpenBlank s := by
  have hcuts : splitStatements s = bareStatements s ↔ SameSemicolons s := by
    rw [splitStatements_eq, bareStatements_eq, Cutter.statements_eq_iff (by decide)]
    refine forall₃_congr fun p r _ => ?_
    change (openQuote p).isNone = (Lex.gap.after p).bare ↔ _
    rw [Bool.eq_iff_iff, Option.isNone_iff_eq_none]
  rw [SplitAgrees, ← hcuts, and_comm]
  refine and_congr_right ?_
  intro hsame
  rw [hsame, flatMap_bareStatements_iff]

/-! ## Texts without comments -/

/-- Both scanners are in the same quote, or in none. -/
def SameQuote : Option Char → Lex → Prop
  | o, .quoted q _ => o = some q
  | _, .comment => False
  | o, _ => o = none

theorem sameQuote_fresh (c : Char) : SameQuote (quoteStep none c) (Lex.fresh c).2 := by
  by_cases hquote : c = '\'' ∨ c = '"'
  · rcases hquote with rfl | rfl <;> exact rfl
  · rw [quoteStep, if_neg hquote, Lex.fresh]
    split_ifs <;> exact rfl

/-- A character that starts no comment keeps the scanners in the same quote. -/
theorem sameQuote_next {o : Option Char} {l : Lex} (h : SameQuote o l) {c : Char}
    (hc : l = .dash → c ≠ '-') : SameQuote (quoteStep o c) (l.next c).2 := by
  have hword : isWordChar c = true → quoteStep none c = none := by
    intro hw
    obtain ⟨-, hq, hdq, -⟩ := isWordChar_not_special hw
    exact if_neg (by simp [hq, hdq])
  cases l with
  | gap =>
    obtain rfl : o = none := h
    exact sameQuote_fresh c
  | op _ =>
    obtain rfl : o = none := h
    rw [Lex.next]
    split
    · rename_i heq
      rw [heq]
      exact rfl
    · exact sameQuote_fresh c
  | dash =>
    obtain rfl : o = none := h
    rw [Lex.next, if_neg (hc rfl)]
    split
    · rename_i hw
      exact hword hw
    · exact sameQuote_fresh c
  | word _ =>
    obtain rfl : o = none := h
    rw [Lex.next]
    split
    · rename_i hw
      exact hword hw
    · exact sameQuote_fresh c
  | quoted q _ =>
    obtain rfl : o = some q := h
    rw [Lex.next, quoteStep]
    split <;> exact rfl
  | comment => exact h.elim

/-- The scanner stands behind a `-` only if there is one. -/
theorem getLast?_of_dash {l : Lex} {c : Char} (h : (l.next c).2 = .dash) : c = '-' := by
  have hfresh : (Lex.fresh c).2 = .dash → c = '-' := by
    rw [Lex.fresh]
    split_ifs <;> simp_all
  cases l <;> simp only [Lex.next] at h <;> (try split_ifs at h) <;> exact hfresh h

/-- The two scanners agree on the quotes of a text without `--`. -/
theorem sameQuote_of_no_comment {p : CStr} (h : ¬ ['-', '-'] <:+: p) :
    SameQuote (openQuote p) (Lex.gap.after p) := by
  induction p using List.reverseRecOn with
  | nil => exact rfl
  | append_singleton p c ih =>
    have hp : ¬ ['-', '-'] <:+: p := fun hin => h (hin.trans (List.infix_append' [] p [c]))
    have hstep : SameQuote (quoteStep (openQuote p) c) ((Lex.gap.after p).next c).2 := by
      refine sameQuote_next (ih hp) ?_
      rintro hdash rfl
      cases p using List.reverseRecOn with
      | nil => exact absurd hdash (by decide)
      | append_singleton p d =>
        have hd : d = '-' := by
          rw [Lex.after_append] at hdash
          exact getLast?_of_dash hdash
        exact h ⟨p, [], by rw [hd]; simp⟩
    rw [openQuote, List.foldl_append, Lex.after_append]
    exact hstep

/-- **Without `--` every `;` is the same for both.** -/
theorem sameSemicolons_of_no_comment {s : CStr} (h : ¬ ['-', '-'] <:+: s) : SameSemicolons s := by
  intro p r hs
  have hp : ¬ ['-', '-'] <:+: p := by
    intro hin
    refine h (hin.trans ?_)
    rw [hs]
    exact (List.prefix_append p _).isInfix
  have hsame := sameQuote_of_no_comment hp
  cases hl : Lex.gap.after p <;> rw [hl] at hsame <;> simp_all [SameQuote, Lex.bare]

/-! ## The calls -/

/-- One call of `split_next_statement`, with its recursion as fuel: what it puts into `out_stmt`,
`none` for NULL, and the text behind the cursor. -/
def splitCall : ℕ → CStr → Option (Option CStr × CStr)
  | 0, _ => none
  | n + 1, cursor =>
    match cursor.dropWhile isSpace with
    | [] => some (none, [])
    | c :: s =>
      let (text, rest) := splitLoop none (c :: s)
      if trimSpace text = [] then splitCall n rest.tail
      else some (some (trimSpace text), rest.tail)

/-- What the first `k` calls put into `out_stmt`, each with the cursor that the last one left. -/
def splitCalls (n : ℕ) : ℕ → CStr → Option (List (Option CStr))
  | 0, _ => some []
  | k + 1, cursor =>
    (splitCall n cursor).bind fun result => (splitCalls n k result.2).map (result.1 :: ·)

/-- The result of the recursion is that of the loop in `engine_exec_sql`. -/
theorem splitCall_eq {n : ℕ} {cursor : CStr} (hn : cursor.length < n) :
    splitCall n cursor =
      some (((splitNextStatement n cursor).map fun found => (some found.1, found.2)).getD
        (none, [])) := by
  induction n generalizing cursor with
  | zero => exact absurd hn (Nat.not_lt_zero _)
  | succ n ih =>
    have hlen : (cursor.dropWhile isSpace).length ≤ cursor.length :=
      (List.dropWhile_suffix isSpace).length_le
    rw [splitCall, splitNextStatement]
    cases hcursor : cursor.dropWhile isSpace with
    | nil => rfl
    | cons c s =>
      have hloop := splitLoop_length none (c :: s)
      rw [hcursor] at hlen
      rw [List.length_cons] at hlen hloop
      dsimp only
      by_cases hblank : trimSpace (splitLoop none (c :: s)).1 = []
      · rw [if_pos hblank, if_pos hblank]
        apply ih
        rw [List.length_tail]
        omega
      · rw [if_neg hblank, if_neg hblank]
        rfl

/-- **One call returns the next statement and leaves the others, or NULL at the end.** -/
theorem splitCall_spec {n : ℕ} {cursor : CStr} (hn : cursor.length < n) :
    ∃ rest, splitCall n cursor = some ((quoteCutter.statements cursor).head?, rest) ∧
      quoteCutter.statements rest = (quoteCutter.statements cursor).tail ∧
      rest.length ≤ cursor.length := by
  have hspec := splitNextStatement_spec hn
  rw [splitCall_eq hn]
  cases hsplit : splitNextStatement n cursor with
  | none =>
    rw [hsplit] at hspec
    rw [hspec]
    exact ⟨[], rfl, rfl, Nat.zero_le _⟩
  | some found =>
    rw [hsplit] at hspec
    obtain ⟨hstatements, hlt⟩ := hspec
    rw [hstatements]
    exact ⟨found.2, rfl, rfl, hlt.le⟩

/-- The calls return the statements one after the other, and then NULL. -/
theorem splitCalls_eq {n : ℕ} (k : ℕ) {cursor : CStr} (hn : cursor.length < n) :
    splitCalls n k cursor =
      some ((List.range k).map fun i => (quoteCutter.statements cursor)[i]?) := by
  induction k generalizing cursor with
  | zero => rfl
  | succ k ih =>
    obtain ⟨rest, hcall, hrest, hle⟩ := splitCall_spec hn
    rw [splitCalls, hcall, Option.bind_some, ih (lt_of_le_of_lt hle hn), hrest, Option.map_some,
      List.range_succ_eq_map, List.map_cons, List.map_map, List.head?_eq_getElem?]
    refine congrArg (fun results => some (_ :: results)) (List.map_congr_left fun i _ => ?_)
    rw [List.getElem?_tail]
    rfl

/-- **Calls of `split_next_statement` return, and what they return are the trimmed segments between
consecutive `;` outside quotes that are not blank, in order, and then NULL.** The loop of
`engine_exec_sql` executes these. -/
theorem splitCalls_segments (s : CStr) :
    ∃ segs, (∀ other, quoteCutter.Segments s other ↔ other = segs) ∧
      (∀ n k, s.length < n → splitCalls n k s =
        some ((List.range k).map fun i => ((segs.map trimSpace).filter (· ≠ []))[i]?)) ∧
      ∀ mem, (callStatements mem s).map Prod.snd = (segs.map trimSpace).filter (· ≠ []) := by
  refine ⟨quoteCutter.pieces [] none s, fun other => Cutter.segments_iff, ?_, ?_⟩
  · intro n k hn
    exact splitCalls_eq k hn
  · intro mem
    rw [callStatements_snd, splitStatements_eq]
    rfl

/-- Two statements with a `;` in an open quote, and blanks between them. -/
theorem splitCalls_segments_open : splitCalls 15 3 " a;; ;b 'c; d ".toList =
    some [some "a".toList, some "b 'c; d".toList, none] := by
  obtain ⟨segs, hsegs, hcalls, -⟩ := splitCalls_segments " a;; ;b 'c; d ".toList
  obtain rfl := (hsegs [" a".toList, [], " ".toList, "b 'c; d ".toList]).mp
    (Cutter.segments_iff.mpr (by decide +kernel))
  rw [hcalls 15 3 (by decide)]
  decide +kernel

end MiniSql
