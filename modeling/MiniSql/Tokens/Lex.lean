import MiniSql.Tokens
import MiniSql.Lib.Cutter

/-!
# The tokenizer, one character at a time

`tokenize` looks ahead: it takes a word or a quoted text off the text at once. Here it is an
automaton that reads one character after the other, so that a text can be cut at any place.

## Main definitions

* `bareParts` — the text and its tokens, cut at the bare `;` that `tokenize` finds.
* `Lex` — where the tokenizer is in a text.
* `sqlCutter` — the automaton that cuts a text at its bare `;`.

## Main results

* `tokenize_eq_intercalate` — the tokens are those of the parts, with a `;` between them.
* `bareParts_fst` — the automaton cuts at the same places.
* `tokenize_of_mem_bareParts` — the parts have the tokens that their texts have.
* `tokenize_trimSpace_iff` — blanks at the ends matter only within an open quote.
-/

namespace MiniSql
open CText

/-! ## The parts of a text -/

/-- The loop of `tokenize`, which remembers the text `x` and the tokens `ts` since the last bare
`;`. -/
def bareLoop : ℕ → CStr → List CStr → CStr → List (CStr × List CStr)
  | 0, x, ts, _ => [(x, ts)]
  | _ + 1, x, ts, [] => [(x, ts)]
  | n + 1, x, ts, c :: p =>
    if c = ';' then (x, ts) :: bareLoop n [] [] p
    else
      let (t, rest) := tokenStep c p
      bareLoop n (x ++ (c :: p).take (p.length + 1 - rest.length)) (ts ++ t.toList) rest

/-- The texts between the bare `;` of a text, each with its tokens. -/
def bareParts (s : CStr) : List (CStr × List CStr) := bareLoop s.length [] [] s

example : bareParts "a'b;c';--;\n;d".toList =
    [("a'b;c'".toList, ["a".toList, "b;c".toList]), ("--;\n".toList, []),
      ("d".toList, ["d".toList])] := by
  decide +kernel

/-- The token that `tokenize` makes of a bare `;`. -/
def semicolon : CStr := [';']

theorem tokenStep_semicolon (p : CStr) : tokenStep ';' p = (some semicolon, p) := by
  simp [tokenStep, isSpace, isSingle, semicolon]

theorem flatMap_bareLoop {n : ℕ} {s : CStr} (hn : s.length ≤ n) (x : CStr) (ts : List CStr) :
    (bareLoop n x ts s).flatMap (fun part => part.2 ++ [semicolon]) =
      ts ++ tokenize s ++ [semicolon] := by
  induction n generalizing x ts s with
  | zero =>
    obtain rfl : s = [] := List.length_eq_zero_iff.mp (Nat.le_zero.mp hn)
    simp [bareLoop]
  | succ n ih =>
    cases s with
    | nil => simp [bareLoop]
    | cons c p =>
      rw [List.length_cons] at hn
      rw [bareLoop, tokenize_cons]
      by_cases hc : c = ';'
      · subst hc
        rw [if_pos rfl, List.flatMap_cons, ih (by omega), tokenStep_semicolon]
        simp
      · have hle := length_tokenStep_le c p
        rw [if_neg hc, ih (by omega)]
        simp

/-- **With a `;` behind each part, the tokens of the parts are those of the text.** -/
theorem flatMap_bareParts (s : CStr) :
    (bareParts s).flatMap (fun part => part.2 ++ [semicolon]) = tokenize s ++ [semicolon] :=
  flatMap_bareLoop le_rfl [] []

/-! ## The automaton -/

/-- Where the tokenizer is in a text, with what it has read of a token: between tokens, behind the
first character of an operator, behind a `-`, in a word, in a quoted text, in a comment. -/
inductive Lex
  | gap
  | op (o : Char)
  | dash
  | word (w : CStr)
  | quoted (q : Char) (a : CStr)
  | comment
  deriving DecidableEq, Repr

namespace Lex

/-- A character between tokens: the tokens it completes, and where it leads. -/
def fresh (c : Char) : List CStr × Lex :=
  if isSpace c then ([], gap)
  else if c = '-' then ([], dash)
  else if c = '\'' ∨ c = '"' then ([], quoted c [])
  else if isSingle c then ([[c]], gap)
  else if c = '>' ∨ c = '<' ∨ c = '!' then ([], op c)
  else if isWordChar c then ([], word [c])
  else ([], gap)

/-- The token that the end of the text completes. -/
def pending : Lex → List CStr
  | gap => []
  | op o => [[o]]
  | dash => [['-']]
  | word w => [w]
  | quoted _ a => [a]
  | comment => []

/-- A character that ends the token. -/
def leave (l : Lex) (c : Char) : List CStr × Lex := (l.pending ++ (fresh c).1, (fresh c).2)

def next : Lex → Char → List CStr × Lex
  | gap, c => fresh c
  | op o, c => if c = '=' then ([[o, '=']], gap) else leave (op o) c
  | dash, c =>
    if c = '-' then ([], comment)
    else if isWordChar c then ([], word ['-', c]) else leave dash c
  | word w, c => if isWordChar c then ([], word (w ++ [c])) else leave (word w) c
  | quoted q a, c => if c = q then ([a], gap) else ([], quoted q (a ++ [c]))
  | comment, c => if c = '\n' then ([], gap) else ([], comment)

/-- A `;` is bare outside quotes and comments. -/
def bare : Lex → Bool
  | quoted _ _ => false
  | comment => false
  | _ => true

def isQuoted : Lex → Bool
  | quoted _ _ => true
  | _ => false

theorem next_semicolon {l : Lex} (h : l.bare = true) :
    l.next ';' = (l.pending ++ [semicolon], gap) := by
  have hfresh : fresh ';' = ([semicolon], gap) := by decide
  cases l <;> simp_all [bare, next, leave, pending, isWordChar]

theorem fresh_space {c : Char} (hc : isSpace c = true) : fresh c = ([], gap) := if_pos hc

/-- The tokens of the text behind a place. -/
def tokens : Lex → CStr → List CStr
  | l, [] => l.pending
  | l, c :: s => (l.next c).1 ++ tokens (l.next c).2 s

/-- `bareLoop` at any place. -/
def parts : Lex → CStr → List CStr → CStr → List (CStr × List CStr)
  | l, x, ts, [] => [(x, ts ++ l.pending)]
  | l, x, ts, c :: s =>
    if c = ';' ∧ l.bare = true then (x, ts ++ l.pending) :: parts gap [] [] s
    else parts (l.next c).2 (x ++ [c]) (ts ++ (l.next c).1) s

theorem parts_cut {l : Lex} (h : l.bare = true) (x : CStr) (ts : List CStr) (s : CStr) :
    l.parts x ts (';' :: s) = (x, ts ++ l.pending) :: gap.parts [] [] s := by
  rw [parts, if_pos ⟨rfl, h⟩]

theorem parts_step {l : Lex} {c : Char} (h : ¬ (c = ';' ∧ l.bare = true)) (x : CStr)
    (ts : List CStr) (s : CStr) :
    l.parts x ts (c :: s) = (l.next c).2.parts (x ++ [c]) (ts ++ (l.next c).1) s := by
  rw [parts, if_neg h]

/-- At the end of a token the automaton is as good as between tokens. -/
theorem parts_leave {l : Lex} {s : CStr} (hbare : s ≠ [] → l.bare = true)
    (h : ∀ c, s.head? = some c → l.next c = l.leave c) (x : CStr) (ts : List CStr) :
    l.parts x ts s = gap.parts x (ts ++ l.pending) s := by
  cases s with
  | nil => simp [parts, pending]
  | cons c s =>
    by_cases hc : c = ';'
    · subst hc
      rw [parts_cut (hbare (by simp)), parts_cut rfl]
      simp [pending]
    · rw [parts_step fun hcut => hc hcut.1, parts_step fun hcut => hc hcut.1, h c rfl, leave, next,
        List.append_assoc]

/-! ## The tokens that `tokenize` takes off at once -/

theorem parts_quoted (q : Char) (a x : CStr) (ts : List CStr) (p : CStr) :
    (quoted q a).parts x ts p =
      gap.parts (x ++ (p.takeWhile (· ≠ q) ++ (p.dropWhile (· ≠ q)).take 1))
        (ts ++ [a ++ p.takeWhile (· ≠ q)]) (p.dropWhile (· ≠ q)).tail := by
  induction p generalizing a x with
  | nil => simp [parts, pending]
  | cons c p ih =>
    rw [parts_step (by simp [bare]), next]
    by_cases hc : c = q
    · simp [hc]
    · rw [if_neg hc]
      dsimp only
      rw [List.append_nil, ih]
      simp [hc]

theorem parts_comment (x : CStr) (ts : List CStr) (p : CStr) :
    comment.parts x ts p =
      gap.parts (x ++ p.takeWhile (· ≠ '\n')) ts (p.dropWhile (· ≠ '\n')) := by
  induction p generalizing x with
  | nil => simp [parts, pending]
  | cons c p ih =>
    rw [parts_step (by simp [bare]), next]
    by_cases hc : c = '\n'
    · subst hc
      rw [if_pos rfl]
      dsimp only
      have hnext : gap.next '\n' = ([], gap) := by decide
      have hstep := @parts_step gap '\n' (by decide) x ts p
      rw [hnext] at hstep
      simpa using hstep.symm
    · rw [if_neg hc]
      dsimp only
      rw [List.append_nil, ih]
      simp [hc]

theorem parts_word (w x : CStr) (ts : List CStr) (p : CStr) :
    (word w).parts x ts p =
      gap.parts (x ++ p.takeWhile isWordChar) (ts ++ [w ++ p.takeWhile isWordChar])
        (p.dropWhile isWordChar) := by
  induction p generalizing w x with
  | nil => simp [parts, pending]
  | cons c p ih =>
    by_cases hc : isWordChar c = true
    · have hne : c ≠ ';' := by
        rintro rfl
        exact absurd hc (by decide)
      rw [parts_step fun hcut => hne hcut.1, next, if_pos hc]
      dsimp only
      rw [List.append_nil, ih]
      simp [hc]
    · rw [parts_leave (fun _ => rfl)]
      · simp [hc, pending]
      · intro d hd
        obtain rfl : c = d := by simpa using hd
        exact if_neg hc

/-- What a turn of the loop takes off the text. -/
theorem take_consumed {c : Char} {p u rest : CStr} (h : p = u ++ rest) :
    (c :: p).take (p.length + 1 - rest.length) = c :: u := by
  have hlen : p.length + 1 - rest.length = (c :: u).length := by
    rw [h, List.length_append, List.length_cons]
    omega
  rw [hlen, h, ← List.cons_append, List.take_left]

/-- One turn of the loop, read character by character. -/
theorem parts_tokenStep {c : Char} (hc : c ≠ ';') (x : CStr) (ts : List CStr) (p : CStr) :
    gap.parts x ts (c :: p) =
      gap.parts (x ++ (c :: p).take (p.length + 1 - (tokenStep c p).2.length))
        (ts ++ (tokenStep c p).1.toList) (tokenStep c p).2 := by
  rw [parts_step fun hcut => hc hcut.1, next, fresh]
  by_cases hspace : isSpace c = true
  · rw [if_pos hspace, tokenStep, if_pos hspace, take_consumed (List.nil_append p).symm]
    rfl
  rw [if_neg hspace]
  by_cases hdash : c = '-'
  · subst hdash
    rw [if_pos rfl]
    dsimp only
    rw [List.append_nil]
    by_cases hcomment : p.head? = some '-'
    · obtain ⟨p, rfl⟩ : ∃ p', p = '-' :: p' := by
        cases p with
        | nil => simp at hcomment
        | cons d p => exact ⟨p, by rw [Option.some.inj hcomment]⟩
      rw [tokenStep, if_neg hspace, if_pos ⟨rfl, hcomment⟩]
      dsimp only
      rw [parts_step (by simp), next, if_pos rfl]
      dsimp only
      rw [parts_comment, take_consumed (List.takeWhile_append_dropWhile).symm]
      simp
    · rw [tokenStep, if_neg hspace, if_neg (fun h => hcomment h.2), if_neg (by decide),
        if_neg (by decide), if_neg (by decide), if_pos (by decide)]
      dsimp only
      rw [take_consumed (List.takeWhile_append_dropWhile).symm]
      cases p with
      | nil => simp [parts, pending]
      | cons d p =>
        by_cases hd : isWordChar d = true
        · have hne : d ≠ '-' := fun h => hcomment (by rw [h]; rfl)
          have hsemi : d ≠ ';' := by
            rintro rfl
            exact absurd hd (by decide)
          rw [parts_step fun hcut => hsemi hcut.1, next, if_neg hne, if_pos hd]
          dsimp only
          rw [parts_word]
          simp [hd]
        · rw [parts_leave (fun _ => rfl)]
          · simp [hd, pending]
          · intro e he
            obtain rfl : d = e := by simpa using he
            rw [next, if_neg (fun h => hcomment (by rw [h]; rfl)), if_neg hd]
  rw [if_neg hdash]
  by_cases hquote : c = '\'' ∨ c = '"'
  · have hrest : p = (p.takeWhile (· ≠ c) ++ (p.dropWhile (· ≠ c)).take 1) ++
        (p.dropWhile (· ≠ c)).tail := by
      rw [List.append_assoc, ← List.drop_one, List.take_append_drop,
        List.takeWhile_append_dropWhile]
    rw [if_pos hquote, tokenStep, if_neg hspace, if_neg (fun h => hdash h.1), if_pos hquote]
    dsimp only
    rw [take_consumed hrest, parts_quoted]
    simp
  rw [if_neg hquote]
  by_cases hsingle : isSingle c = true
  · rw [if_pos hsingle, tokenStep, if_neg hspace, if_neg (fun h => hdash h.1), if_neg hquote,
      if_pos hsingle, take_consumed (List.nil_append p).symm]
    rfl
  rw [if_neg hsingle]
  by_cases hop : c = '>' ∨ c = '<' ∨ c = '!'
  · rw [if_pos hop, tokenStep, if_neg hspace, if_neg (fun h => hdash h.1), if_neg hquote,
      if_neg hsingle, if_pos hop]
    dsimp only
    by_cases heq : p.head? = some '='
    · obtain ⟨p, rfl⟩ : ∃ p', p = '=' :: p' := by
        cases p with
        | nil => simp at heq
        | cons d p => exact ⟨p, by rw [Option.some.inj heq]⟩
      rw [if_pos heq, parts_step (by simp), next, if_pos rfl]
      dsimp only
      rw [List.tail_cons, @take_consumed c ('=' :: p) ['='] p rfl]
      simp
    · rw [if_neg heq, parts_leave (fun _ => rfl)]
      · rw [take_consumed (List.nil_append p).symm]
        simp [pending]
      · intro d hd
        exact if_neg (fun h => heq (by rw [hd, h]))
  rw [if_neg hop]
  by_cases hword : isWordChar c = true
  · rw [if_pos hword, tokenStep, if_neg hspace, if_neg (fun h => hdash h.1), if_neg hquote,
      if_neg hsingle, if_neg hop, if_pos hword]
    dsimp only
    rw [take_consumed (List.takeWhile_append_dropWhile).symm, parts_word]
    simp
  · rw [if_neg hword, tokenStep, if_neg hspace, if_neg (fun h => hdash h.1), if_neg hquote,
      if_neg hsingle, if_neg hop, if_neg hword, take_consumed (List.nil_append p).symm]
    rfl

theorem bareLoop_eq {n : ℕ} {s : CStr} (hn : s.length ≤ n) (x : CStr) (ts : List CStr) :
    bareLoop n x ts s = gap.parts x ts s := by
  induction n generalizing x ts s with
  | zero =>
    obtain rfl : s = [] := List.length_eq_zero_iff.mp (Nat.le_zero.mp hn)
    simp [bareLoop, parts, pending]
  | succ n ih =>
    cases s with
    | nil => simp [bareLoop, parts, pending]
    | cons c p =>
      rw [List.length_cons] at hn
      by_cases hc : c = ';'
      · subst hc
        rw [bareLoop, if_pos rfl, parts_cut rfl, ih (by omega)]
        simp [pending]
      · have hle := length_tokenStep_le c p
        rw [bareLoop, if_neg hc, parts_tokenStep hc]
        dsimp only
        rw [ih (by omega)]

/-! ## Runs of the automaton -/

/-- The place that a text leads to. -/
def after (l : Lex) (s : CStr) : Lex := s.foldl (fun l c => (l.next c).2) l

/-- The tokens completed on the way. -/
def done : Lex → CStr → List CStr
  | _, [] => []
  | l, c :: s => (l.next c).1 ++ done (l.next c).2 s

@[simp] theorem after_cons (l : Lex) (c : Char) (s : CStr) :
    l.after (c :: s) = (l.next c).2.after s := rfl

theorem after_append (l : Lex) (s t : CStr) : l.after (s ++ t) = (l.after s).after t :=
  List.foldl_append

theorem tokens_append (l : Lex) (s t : CStr) :
    l.tokens (s ++ t) = l.done s ++ (l.after s).tokens t := by
  induction s generalizing l with
  | nil => rfl
  | cons c s ih => rw [List.cons_append, tokens, done, ih, List.append_assoc, after_cons]

theorem done_append (l : Lex) (s t : CStr) : l.done (s ++ t) = l.done s ++ (l.after s).done t := by
  induction s generalizing l with
  | nil => rfl
  | cons c s ih => rw [List.cons_append, done, done, ih, List.append_assoc, after_cons]

theorem tokens_eq (l : Lex) (s : CStr) : l.tokens s = l.done s ++ (l.after s).pending := by
  have := tokens_append l s []
  rwa [List.append_nil] at this

theorem flatMap_parts (l : Lex) (x : CStr) (ts : List CStr) (s : CStr) :
    (l.parts x ts s).flatMap (fun part => part.2 ++ [semicolon]) =
      ts ++ l.tokens s ++ [semicolon] := by
  induction s generalizing l x ts with
  | nil => simp [parts, tokens]
  | cons c s ih =>
    by_cases hcut : c = ';' ∧ l.bare = true
    · obtain ⟨rfl, hbare⟩ := hcut
      rw [parts_cut hbare, List.flatMap_cons, ih, tokens, next_semicolon hbare]
      simp
    · rw [parts_step hcut, ih, tokens]
      simp

/-- The automaton finds the tokens of `tokenize`. -/
theorem tokens_gap (s : CStr) : gap.tokens s = tokenize s := by
  have h := flatMap_bareParts s
  rw [bareParts, bareLoop_eq le_rfl, flatMap_parts] at h
  simpa using h

/-! ## The parts and the automaton -/

/-- The automaton that cuts a text at its bare `;`. -/
def sqlCutter : Cutter ';' isSpace Lex where
  start := gap
  step l c := (l.next c).2
  cuts := bare
  cuts_start := rfl
  step_blank _ hc := congrArg Prod.snd (fresh_space hc)
  step_sep _ hbare := congrArg Prod.snd (next_semicolon hbare)

theorem parts_fst (l : Lex) (x : CStr) (ts : List CStr) (s : CStr) :
    (l.parts x ts s).map Prod.fst = sqlCutter.pieces x l s := by
  induction s generalizing l x ts with
  | nil => rfl
  | cons c s ih =>
    by_cases hcut : c = ';' ∧ l.bare = true
    · obtain ⟨rfl, hbare⟩ := hcut
      rw [parts_cut hbare, List.map_cons, ih, Cutter.pieces_cut hbare]
      rfl
    · rw [parts_step hcut, ih, Cutter.pieces_step hcut]
      rfl

/-! ## Blanks at the ends of a text -/

/-- Only the two quote characters open a quoted text. -/
def Ok : Lex → Prop
  | quoted q _ => q = '\'' ∨ q = '"'
  | _ => True

theorem ok_fresh (c : Char) : (fresh c).2.Ok := by
  unfold fresh
  split_ifs with hspace hdash hquote
  all_goals first | exact trivial | exact hquote

theorem ok_next {l : Lex} (h : l.Ok) (c : Char) : (l.next c).2.Ok := by
  cases l <;> rw [next] <;> (try split_ifs) <;>
    first | exact ok_fresh c | exact trivial | exact h

theorem ok_after {l : Lex} (h : l.Ok) (s : CStr) : (l.after s).Ok := by
  induction s generalizing l with
  | nil => exact h
  | cons c s ih => exact ih (ok_next h c)

theorem after_quoted {q : Char} {w : CStr} (hq : q ∉ w) (a : CStr) :
    (quoted q a).after w = quoted q (a ++ w) ∧ (quoted q a).tokens w = [a ++ w] := by
  induction w generalizing a with
  | nil => simp [after, tokens, pending]
  | cons c w ih =>
    have hc : c ≠ q := fun h => hq (by simp [h])
    have hnext : (quoted q a).next c = ([], quoted q (a ++ [c])) := if_neg hc
    obtain ⟨hafter, htokens⟩ := ih (fun h => hq (List.mem_cons_of_mem c h)) (a ++ [c])
    rw [after_cons, tokens, hnext, hafter, htokens]
    simp

/-- Between tokens and in a comment, blanks make no token. -/
theorem blank_of_pending_nil {l : Lex} (hl : l = gap ∨ l = comment) {w : CStr}
    (hw : ∀ c ∈ w, isSpace c = true) : l.tokens w = [] ∧ (l.after w).isQuoted = false := by
  induction w generalizing l with
  | nil => rcases hl with rfl | rfl <;> exact ⟨rfl, rfl⟩
  | cons c w ih =>
    have hnext : l.next c = ([], gap) ∨ l.next c = ([], comment) := by
      rcases hl with rfl | rfl
      · exact .inl (fresh_space (hw c (by simp)))
      · rw [next]
        split
        · exact .inl rfl
        · exact .inr rfl
    have hrest : ∀ d ∈ w, isSpace d = true := fun d hd => hw d (List.mem_cons_of_mem c hd)
    rw [after_cons, tokens]
    rcases hnext with hnext | hnext <;> rw [hnext]
    · exact ih (.inl rfl) hrest
    · exact ih (.inr rfl) hrest

/-- Blanks complete the last token, unless they are part of it. -/
theorem tokens_blank {l : Lex} (hl : l.Ok) {w : CStr} (hw : ∀ c ∈ w, isSpace c = true) :
    l.tokens w = l.pending ↔ ¬ ((l.after w).isQuoted = true ∧ w ≠ []) := by
  cases w with
  | nil => simp [tokens]
  | cons c w =>
    have hc : isSpace c = true := hw c (by simp)
    have hrest : ∀ d ∈ w, isSpace d = true := fun d hd => hw d (List.mem_cons_of_mem c hd)
    have hleave : l.next c = l.leave c →
        (l.tokens (c :: w) = l.pending ↔ ¬ ((l.after (c :: w)).isQuoted = true ∧ c :: w ≠ [])) := by
      intro hnext
      obtain ⟨htokens, hquoted⟩ := blank_of_pending_nil (.inl rfl) hrest
      rw [tokens, after_cons, hnext, leave, fresh_space hc]
      simp [htokens, hquoted]
    have hword : isWordChar c = false := by
      by_contra h
      have := (isWordChar_not_special (Bool.not_eq_false _ ▸ h)).1
      rw [hc] at this
      exact absurd this (by decide)
    cases l with
    | gap => exact hleave (by rw [leave]; rfl)
    | op o =>
      refine hleave (if_neg ?_)
      rintro rfl
      exact absurd hc (by decide)
    | dash =>
      refine hleave ?_
      rw [next, if_neg, if_neg (by simp [hword])]
      rintro rfl
      exact absurd hc (by decide)
    | word v => exact hleave (if_neg (by simp [hword]))
    | comment =>
      obtain ⟨htokens, hquoted⟩ := blank_of_pending_nil (.inr rfl) hw
      rw [htokens, hquoted]
      simp [pending]
    | quoted q a =>
      have hq : q ∉ c :: w := by
        intro hmem
        have := hw q hmem
        rcases hl with rfl | rfl <;> exact absurd this (by decide)
      obtain ⟨hafter, htokens⟩ := after_quoted hq a
      rw [hafter, htokens]
      simp [pending, isQuoted]

theorem tokens_dropWhile (s : CStr) : gap.tokens (s.dropWhile isSpace) = gap.tokens s ∧
    gap.after (s.dropWhile isSpace) = gap.after s := by
  induction s with
  | nil => exact ⟨rfl, rfl⟩
  | cons c s ih =>
    by_cases hc : isSpace c = true
    · have hnext : gap.next c = ([], gap) := fresh_space hc
      rw [List.dropWhile_cons_of_pos hc, tokens, after_cons, hnext]
      exact ih
    · rw [List.dropWhile_cons_of_neg hc]
      exact ⟨rfl, rfl⟩

/-- The text ends in a blank of an open quote. -/
def OpenBlank (s : CStr) : Prop :=
  (gap.after s).isQuoted = true ∧ s.getLast?.any isSpace = true

theorem openBlank_dropWhile (s : CStr) : OpenBlank (s.dropWhile isSpace) ↔ OpenBlank s := by
  obtain ⟨-, hafter⟩ := tokens_dropWhile s
  rw [OpenBlank, OpenBlank, hafter]
  refine and_congr_right ?_
  intro hquoted
  have hne : s.dropWhile isSpace ≠ [] := by
    intro hnil
    rw [← hafter, hnil] at hquoted
    exact absurd hquoted (by decide)
  have hlast := List.getLast?_append_of_ne_nil (s.takeWhile isSpace) hne
  rw [List.takeWhile_append_dropWhile] at hlast
  rw [hlast]

/-- **Trimming changes the tokens only if there are blanks at the end of an open quote.** -/
theorem tokens_trimSpace_iff (s : CStr) :
    gap.tokens (trimSpace s) = gap.tokens s ↔ ¬ OpenBlank s := by
  rw [← (tokens_dropWhile s).1, ← openBlank_dropWhile, trimSpace]
  generalize s.dropWhile isSpace = t
  have hsplit : t.rdropWhile isSpace ++ t.rtakeWhile isSpace = t :=
    List.rdropWhile_append_rtakeWhile
  have hblank : ∀ c ∈ t.rtakeWhile isSpace, isSpace c = true :=
    fun c hc => List.mem_rtakeWhile_imp hc
  have hlast : t.rtakeWhile isSpace ≠ [] ↔ t.getLast?.any isSpace = true := by
    rw [ne_eq, List.rtakeWhile_eq_nil_iff]
    cases t using List.reverseRecOn <;> simp
  have hok : (gap.after (t.rdropWhile isSpace)).Ok :=
    @ok_after gap trivial _
  have htokens := tokens_append gap (t.rdropWhile isSpace) (t.rtakeWhile isSpace)
  have hafter := after_append gap (t.rdropWhile isSpace) (t.rtakeWhile isSpace)
  rw [hsplit] at htokens hafter
  rw [htokens, tokens_eq, List.append_right_inj, eq_comm, tokens_blank hok hblank, ← hafter, hlast,
    OpenBlank]

/-! ## The tokens of the parts -/

/-- The tokens of the trimmed parts are those of the parts, unless the text ends in a blank of an
open quote. -/
theorem flatMap_trimmed_iff (l : Lex) (x : CStr) (ts : List CStr) (s : CStr) (hl : gap.after x = l)
    (hts : gap.done x = ts) :
    (l.parts x ts s).flatMap (fun part => gap.tokens (trimSpace part.1)) =
      (l.parts x ts s).flatMap Prod.snd ↔ ¬ OpenBlank (x ++ s) := by
  induction s generalizing l x ts with
  | nil =>
    rw [parts, List.flatMap_singleton, List.flatMap_singleton, List.append_nil, ← hl, ← hts,
      ← tokens_eq, tokens_trimSpace_iff]
  | cons c s ih =>
    by_cases hcut : c = ';' ∧ l.bare = true
    · obtain ⟨rfl, hbare⟩ := hcut
      have hpart : gap.tokens (trimSpace x) = ts ++ l.pending := by
        rw [← hl, ← hts, ← tokens_eq, tokens_trimSpace_iff, OpenBlank, hl]
        cases l <;> simp_all [bare, isQuoted]
      have hopen : OpenBlank (x ++ ';' :: s) ↔ OpenBlank s := by
        rw [OpenBlank, OpenBlank, after_append, hl, after_cons, next_semicolon hbare]
        refine and_congr_right ?_
        intro hquoted
        cases s with
        | nil => exact absurd hquoted Bool.false_ne_true
        | cons d s =>
          have hsplit : x ++ ';' :: d :: s = x ++ [';'] ++ d :: s := (List.append_cons _ _ _)
          rw [hsplit, List.getLast?_append_of_ne_nil _ (List.cons_ne_nil d s)]
      rw [parts_cut hbare, List.flatMap_cons, List.flatMap_cons, hpart, List.append_right_inj, hopen]
      exact ih gap [] [] rfl rfl
    · rw [parts_step hcut, ih, List.append_assoc]
      · rfl
      · rw [after_append, hl]
        rfl
      · rw [done_append, hl, hts]
        simp [done]

end Lex

/-! ## The parts of a text and the automaton -/

/-- The texts of the parts, trimmed, without the blank ones. -/
def bareStatements (s : CStr) : List CStr :=
  ((bareParts s).map fun part => trimSpace part.1).filter (· ≠ [])

theorem bareStatements_eq (s : CStr) : bareStatements s = Lex.sqlCutter.statements s := by
  rw [bareStatements, Cutter.statements, Cutter.trimmedPieces, bareParts, Lex.bareLoop_eq le_rfl]
  change _ = ((Lex.sqlCutter.pieces [] Lex.gap s).map (trim isSpace)).filter _
  rw [← Lex.parts_fst Lex.gap [] [] s, List.map_map]
  rfl

/-- **The statements have the tokens of the parts, unless the text ends in a blank of an open
quote.** -/
theorem flatMap_bareStatements_iff (s : CStr) :
    (bareStatements s).flatMap tokenize = (bareParts s).flatMap Prod.snd ↔
      ¬ Lex.OpenBlank s := by
  have hfilter : ∀ texts : List CStr,
      (texts.filter (· ≠ [])).flatMap tokenize = texts.flatMap tokenize := by
    intro texts
    induction texts with
    | nil => rfl
    | cons t texts ih => cases t <;> simp_all
  have htokens : tokenize = Lex.gap.tokens := funext fun s => (Lex.tokens_gap s).symm
  rw [bareStatements, hfilter, List.flatMap_map, bareParts, Lex.bareLoop_eq le_rfl, htokens]
  exact Lex.flatMap_trimmed_iff Lex.gap [] [] s rfl rfl

end MiniSql
