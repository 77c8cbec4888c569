import MiniSql.Types

/-!
# The tokenizer

`tokenize` of `parser.c`: the statement text cut into tokens. A token keeps no mark of
having been quoted, so a quoted `)` and the closing bracket are the same token.

## Main definitions

* `tokenStep` — one turn of the loop: the token it pushes, if any, and the text left.
* `tokenize` — the tokens of a text.
-/

namespace MiniSql
open CText

/-- The one-character tokens of step (4), and `=`, which is step (5). -/
def isSingle (c : Char) : Bool :=
  c == ',' || c == '(' || c == ')' || c == ';' || c == '*' || c == '='

/-- One turn of the loop of `tokenize` on the text `c :: p`: the token pushed and the
rest of the text. -/
def tokenStep (c : Char) (p : CStr) : Option CStr × CStr :=
  if isSpace c then (none, p)
  else if c = '-' ∧ p.head? = some '-' then (none, p.dropWhile (· ≠ '\n'))
  else if c = '\'' ∨ c = '"' then
    (some (p.takeWhile (· ≠ c)), (p.dropWhile (· ≠ c)).tail)
  else if isSingle c then (some [c], p)
  else if c = '>' ∨ c = '<' ∨ c = '!' then
    if p.head? = some '=' then (some [c, '='], p.tail) else (some [c], p)
  else if isWordChar c then (some (c :: p.takeWhile isWordChar), p.dropWhile isWordChar)
  else (none, p)

/-- The loop of `tokenize`. Every turn uses up a character, so the length of the text is
enough fuel. -/
def tokenizeLoop : ℕ → CStr → List CStr
  | 0, _ => []
  | _ + 1, [] => []
  | n + 1, c :: p =>
    match tokenStep c p with
    | (some t, rest) => t :: tokenizeLoop n rest
    | (none, rest) => tokenizeLoop n rest

def tokenize (input : CStr) : List CStr := tokenizeLoop input.length input

theorem length_tokenStep_le (c : Char) (p : CStr) : (tokenStep c p).2.length ≤ p.length := by
  have hdrop : ∀ q : Char → Bool, (p.dropWhile q).length ≤ p.length :=
    fun q => (List.dropWhile_suffix q).length_le
  unfold tokenStep
  split_ifs <;> simp [hdrop]
  have := hdrop (· ≠ c)
  simp only [ne_eq, decide_not] at this
  omega

/-- More fuel than characters changes nothing. -/
theorem tokenizeLoop_eq {n : ℕ} {s : CStr} (h : s.length ≤ n) : tokenizeLoop n s = tokenize s := by
  have key : ∀ (m n : ℕ) (s : CStr), s.length ≤ m → s.length ≤ n →
      tokenizeLoop n s = tokenizeLoop m s := by
    intro m
    induction m with
    | zero =>
      intro n s hm _
      have : s = [] := List.length_eq_zero_iff.mp (Nat.le_zero.mp hm)
      subst this
      cases n <;> rfl
    | succ m ih =>
      intro n s hm hn
      cases s with
      | nil => cases n <;> rfl
      | cons c p =>
        obtain ⟨n, rfl⟩ : ∃ k, n = k + 1 := ⟨n - 1, by simp at hn; omega⟩
        have hle := length_tokenStep_le c p
        simp only [List.length_cons] at hm hn
        simp only [tokenizeLoop]
        rcases hstep : tokenStep c p with ⟨t, rest⟩
        rw [hstep] at hle
        cases t <;> simp [ih n rest (by simp at hle; omega) (by simp at hle; omega)]
  exact key _ _ _ le_rfl h

/-- The turn of the loop on a non-empty text. -/
theorem tokenize_cons (c : Char) (p : CStr) :
    tokenize (c :: p) = (tokenStep c p).1.toList ++ tokenize (tokenStep c p).2 := by
  have hle := length_tokenStep_le c p
  rw [tokenize, List.length_cons, tokenizeLoop]
  rcases hstep : tokenStep c p with ⟨t, rest⟩
  rw [hstep] at hle
  cases t <;> simp [tokenizeLoop_eq hle]

@[simp] theorem tokenize_nil : tokenize [] = [] := rfl

/-! ## The tokens a text starts with -/

theorem tokenize_space {c : Char} (hc : isSpace c = true) (s : CStr) :
    tokenize (c :: s) = tokenize s := by
  rw [tokenize_cons]
  simp [tokenStep, hc]

/-- A one-character token. -/
theorem tokenize_single {c : Char} (hc : isSingle c = true) (s : CStr) :
    tokenize (c :: s) = [c] :: tokenize s := by
  rw [tokenize_cons]
  simp only [isSingle, Bool.or_eq_true, beq_iff_eq] at hc
  rcases hc with ((((rfl | rfl) | rfl) | rfl) | rfl) | rfl <;>
    simp [tokenStep, isSpace, isSingle]

/-- The characters up to the next quote of the same kind are one token. -/
theorem tokenize_quoted {q : Char} (hq : q = '\'' ∨ q = '"') {s : CStr} (hs : q ∉ s) (t : CStr) :
    tokenize (q :: (s ++ q :: t)) = s :: tokenize t := by
  have hne : ∀ c ∈ s, decide (c ≠ q) = true := by
    intro c hc
    simp only [decide_eq_true_eq]
    rintro rfl
    exact hs hc
  have htake : (s ++ q :: t).takeWhile (· ≠ q) = s := by
    rw [List.takeWhile_append_of_pos hne]
    simp
  have hdrop : (s ++ q :: t).dropWhile (· ≠ q) = q :: t := by
    rw [List.dropWhile_append_of_pos hne]
    simp
  have hstep : tokenStep q (s ++ q :: t) = (some s, t) := by
    have hspace : isSpace q = false := by rcases hq with rfl | rfl <;> decide
    have hminus : q ≠ '-' := by rcases hq with rfl | rfl <;> decide
    rw [tokenStep, htake, hdrop]
    simp [hspace, hminus, hq]
  rw [tokenize_cons, hstep]
  rfl

theorem isWordChar_not_special {c : Char} (hc : isWordChar c = true) :
    isSpace c = false ∧ c ≠ '\'' ∧ c ≠ '"' ∧ isSingle c = false ∧ c ≠ '>' ∧ c ≠ '<' ∧ c ≠ '!' := by
  refine ⟨?_, ?_, ?_, ?_, ?_, ?_, ?_⟩
  · by_contra h
    simp only [isSpace, Bool.not_eq_false, Bool.or_eq_true, beq_iff_eq, Bool.and_eq_true,
      decide_eq_true_eq] at h
    rcases h with rfl | ⟨hlo, hhi⟩
    · simp [isWordChar] at hc
    · simp only [isWordChar, Char.isAlphanum] at hc
      delta Char.isAlpha Char.isUpper Char.isLower at hc
      simp only [Char.isDigit, Bool.or_eq_true, Bool.and_eq_true, decide_eq_true_eq,
        beq_iff_eq] at hc
      have hval : c.val.toNat = c.toNat := rfl
      rcases hc with ((((hc | hc) | hc) | hc) | hc) | hc
      · have := UInt32.le_iff_toNat_le.mp hc.1; simp at this; omega
      · have := UInt32.le_iff_toNat_le.mp hc.1; simp at this; omega
      · have := UInt32.le_iff_toNat_le.mp hc.1; simp at this; omega
      all_goals subst hc; revert hhi; decide
  · rintro rfl; simp [isWordChar] at hc
  · rintro rfl; simp [isWordChar] at hc
  · by_contra h
    simp only [isSingle, Bool.not_eq_false, Bool.or_eq_true, beq_iff_eq] at h
    rcases h with ((((rfl | rfl) | rfl) | rfl) | rfl) | rfl <;> simp [isWordChar] at hc
  · rintro rfl; simp [isWordChar] at hc
  · rintro rfl; simp [isWordChar] at hc
  · rintro rfl; simp [isWordChar] at hc

/-- A run of word characters that opens no comment is one token. -/
theorem tokenize_word {w : CStr} (hne : w ≠ []) (hw : ∀ c ∈ w, isWordChar c = true)
    (hminus : ¬ ['-', '-'] <+: w) {t : CStr} (ht : ∀ c, t.head? = some c → isWordChar c = false) :
    tokenize (w ++ t) = w :: tokenize t := by
  cases w with
  | nil => exact absurd rfl hne
  | cons c w =>
    obtain ⟨hspace, hq, hdq, hsingle, hgt, hlt, hbang⟩ := isWordChar_not_special (hw c (by simp))
    have hw' : ∀ d ∈ w, isWordChar d = true := fun d hd => hw d (by simp [hd])
    have htake : (w ++ t).takeWhile isWordChar = w := by
      rw [List.takeWhile_append_of_pos hw']
      cases t with
      | nil => simp
      | cons d t => simp [ht d rfl]
    have hdrop : (w ++ t).dropWhile isWordChar = t := by
      rw [List.dropWhile_append_of_pos hw']
      cases t with
      | nil => simp
      | cons d t => simp [ht d rfl]
    have hcomment : ¬ (c = '-' ∧ (w ++ t).head? = some '-') := by
      rintro ⟨rfl, hd⟩
      cases w with
      | nil => simpa [isWordChar] using ht '-' (by simpa using hd)
      | cons d w =>
        obtain rfl : d = '-' := by simpa using hd
        exact hminus (by simp)
    have hstep : tokenStep c (w ++ t) = (some (c :: w), t) := by
      rw [tokenStep, if_neg hcomment, htake, hdrop]
      simp [hspace, hq, hdq, hsingle, hgt, hlt, hbang, hw c (by simp)]
    rw [List.cons_append, tokenize_cons, hstep]
    rfl

/-! ## Where the characters come from -/

theorem tokenStep_subset (c : Char) (p : CStr) :
    (∀ t, (tokenStep c p).1 = some t → t ⊆ c :: p) ∧ (tokenStep c p).2 ⊆ p := by
  have htake : ∀ f : Char → Bool, p.takeWhile f ⊆ p := fun f => (List.takeWhile_sublist f).subset
  have hdrop : ∀ f : Char → Bool, p.dropWhile f ⊆ p := fun f => (List.dropWhile_sublist f).subset
  unfold tokenStep
  split_ifs with _ _ _ _ _ heq
  · exact ⟨by simp, List.Subset.refl p⟩
  · exact ⟨by simp, hdrop _⟩
  · refine ⟨fun t ht => ?_, fun x hx => hdrop _ (List.mem_of_mem_tail hx)⟩
    rw [← Option.some.inj ht]
    exact List.subset_cons_of_subset c (htake _)
  · exact ⟨by simp, List.Subset.refl p⟩
  · refine ⟨fun t ht => ?_, fun x hx => List.mem_of_mem_tail hx⟩
    rw [← Option.some.inj ht]
    simp [List.mem_of_head? heq]
  · exact ⟨by simp, List.Subset.refl p⟩
  · refine ⟨fun t ht => ?_, hdrop _⟩
    rw [← Option.some.inj ht]
    exact List.cons_subset_cons c (htake _)
  · exact ⟨by simp, List.Subset.refl p⟩

/-- The characters of a token are characters of the text. -/
theorem subset_of_mem_tokenize {s t : CStr} (h : t ∈ tokenize s) : t ⊆ s := by
  have hloop : ∀ (n : ℕ) (s : CStr), t ∈ tokenizeLoop n s → t ⊆ s := by
    intro n
    induction n with
    | zero => intro s h; exact absurd h (by simp [tokenizeLoop])
    | succ n ih =>
      intro s h
      cases s with
      | nil => exact absurd h (by simp [tokenizeLoop])
      | cons c p =>
        obtain ⟨htok, hrest⟩ := tokenStep_subset c p
        rw [tokenizeLoop] at h
        rcases hstep : tokenStep c p with ⟨_ | t', rest⟩ <;> rw [hstep] at h htok hrest
        · exact List.subset_cons_of_subset c (List.Subset.trans (ih rest h) hrest)
        · rcases List.mem_cons.mp h with rfl | h
          · exact htok t rfl
          · exact List.subset_cons_of_subset c (List.Subset.trans (ih rest h) hrest)
  exact hloop _ _ h

end MiniSql
