import MiniSql.Tokens.Lex

/-!
# Line comments

A `--` opens a comment where `tokenize` begins a token. A `-` is also a character of words, so in a
word a `--` is part of it, and behind a `-` that opens a comment a further `-` is.

## Main definitions

* `Lex.takesDash` — a `-` goes on with the token.
* `blankComment` — a text with a space in the place of a comment.

## Main results

* `tokenize_blankComment_iff` — a comment is as good as a space, unless its `--` goes on with a
  token.
-/

namespace MiniSql
open CText

namespace Lex

/-- The places of the automaton from which a `-` goes on with the token. -/
def takesDash : Lex → Bool
  | dash => true
  | word _ => true
  | _ => false

theorem tokens_comment (p : CStr) : comment.tokens p = gap.tokens (p.dropWhile (· ≠ '\n')) := by
  induction p with
  | nil => rfl
  | cons c p ih =>
    rw [tokens, next]
    by_cases hc : c = '\n'
    · subst hc
      rw [if_pos rfl, List.dropWhile_cons_of_neg (by simp), tokens]
      rfl
    · rw [if_neg hc, List.dropWhile_cons_of_pos (by simpa using hc)]
      exact ih

theorem tokens_word (w p : CStr) :
    (word w).tokens p =
      (w ++ p.takeWhile isWordChar) :: gap.tokens (p.dropWhile isWordChar) := by
  induction p generalizing w with
  | nil => simp [tokens, pending]
  | cons c p ih =>
    rw [tokens, next]
    by_cases hc : isWordChar c = true
    · rw [if_pos hc, List.takeWhile_cons_of_pos hc, List.dropWhile_cons_of_pos hc]
      dsimp only
      rw [ih, List.nil_append, List.append_assoc, List.singleton_append]
    · rw [if_neg hc, List.takeWhile_cons_of_neg hc, List.dropWhile_cons_of_neg hc, leave, tokens,
        List.append_nil]
      rfl

/-- Between tokens a `--` opens a comment. -/
theorem tokens_open (p : CStr) :
    gap.tokens ('-' :: '-' :: p) = gap.tokens (p.dropWhile (· ≠ '\n')) := by
  rw [← tokens_comment]
  rfl

theorem tokens_space (p : CStr) : gap.tokens (' ' :: p) = gap.tokens p := rfl

/-- A character that ends a token is read as between tokens. -/
theorem tokens_of_leave {l : Lex} {c : Char} (h : l.next c = l.leave c) (p : CStr) :
    l.tokens (c :: p) = l.pending ++ gap.tokens (c :: p) := by
  rw [tokens, h, leave, List.append_assoc]
  rfl

/-- Outside quotes a comment is as good as a space, unless its `--` goes on with a token. -/
theorem tokens_comment_iff {l : Lex} (h : l.isQuoted = false) (p : CStr) :
    l.tokens ('-' :: '-' :: p) = l.tokens (' ' :: p.dropWhile (· ≠ '\n')) ↔
      l.takesDash = false := by
  cases l with
  | gap =>
    rw [tokens_open, tokens_space]
    exact ⟨fun _ => rfl, fun _ => rfl⟩
  | op o =>
    have hdash : (op o).next '-' = (op o).leave '-' := rfl
    have hspace : (op o).next ' ' = (op o).leave ' ' := rfl
    rw [tokens_of_leave hdash, tokens_of_leave hspace, tokens_open, tokens_space]
    exact ⟨fun _ => rfl, fun _ => rfl⟩
  | comment =>
    have hblank : comment.tokens (' ' :: p.dropWhile (· ≠ '\n')) =
        comment.tokens (p.dropWhile (· ≠ '\n')) := rfl
    have hdashes : comment.tokens ('-' :: '-' :: p) = comment.tokens p := rfl
    rw [hblank, hdashes, tokens_comment, tokens_comment, List.dropWhile_idempotent]
    exact ⟨fun _ => rfl, fun _ => rfl⟩
  | quoted q a => exact absurd h (by simp [isQuoted])
  | dash =>
    -- the comment opens one `-` earlier, and without it that `-` is a token
    have hcomment : dash.tokens ('-' :: '-' :: p) = gap.tokens (p.dropWhile (· ≠ '\n')) := by
      rw [← tokens_comment]
      rfl
    have hblank : dash.tokens (' ' :: p.dropWhile (· ≠ '\n')) =
        ['-'] :: gap.tokens (p.dropWhile (· ≠ '\n')) := rfl
    rw [hcomment, hblank]
    constructor
    · intro heq
      have hlen := congrArg List.length heq
      rw [List.length_cons] at hlen
      omega
    · intro htakes
      exact absurd htakes (by simp [takesDash])
  | word w =>
    rw [tokens_word, tokens_word]
    constructor
    · intro heq
      have hfirst := congrArg List.length (List.cons.inj heq).1
      have hdash : ('-' :: '-' :: p).takeWhile isWordChar = '-' :: '-' :: p.takeWhile isWordChar := by
        rw [List.takeWhile_cons_of_pos (by decide), List.takeWhile_cons_of_pos (by decide)]
      rw [hdash, List.takeWhile_cons_of_neg (by decide)] at hfirst
      simp at hfirst
    · intro htakes
      exact absurd htakes (by simp [takesDash])

end Lex

/-- A text up to a `--` and behind it, with a space in the place of the comment. -/
def blankComment (before after : CStr) : CStr := before ++ ' ' :: after.dropWhile (· ≠ '\n')

/-- **Outside of quoted strings a line comment is as good as a space, unless its `--` goes on with
a word or with a `-` that the tokenizer has begun a token with.** -/
theorem tokenize_blankComment_iff {before : CStr}
    (h : (Lex.gap.after before).isQuoted = false) (after : CStr) :
    tokenize (before ++ '-' :: '-' :: after) = tokenize (blankComment before after) ↔
      (Lex.gap.after before).takesDash = false := by
  rw [blankComment, ← Lex.tokens_gap, ← Lex.tokens_gap, Lex.tokens_append, Lex.tokens_append,
    List.append_right_inj]
  exact Lex.tokens_comment_iff h after

theorem tokenize_blankComment_trailing :
    tokenize ("SELECT id FROM t ".toList ++ '-' :: '-' :: " trailing\n".toList) =
        tokenize (blankComment "SELECT id FROM t ".toList " trailing\n".toList) ↔
      (Lex.gap.after "SELECT id FROM t ".toList).takesDash = false :=
  tokenize_blankComment_iff (by decide +kernel) " trailing\n".toList

/-- In `a--b` the dashes are characters of the word. -/
theorem tokenize_dashes_in_word :
    (Lex.gap.after ['a']).isQuoted = false ∧
      tokenize (['a'] ++ '-' :: '-' :: ['b']) ≠ tokenize (blankComment ['a'] ['b']) := by
  decide +kernel

end MiniSql
