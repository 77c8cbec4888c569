import Mathlib.Data.List.Basic
import Mathlib.Data.List.DropRight
import Mathlib.Data.Nat.Digits.Defs

/-!
# C strings and the library functions that read them

A C string is the list of the bytes before its terminating NUL, one `Char` for
each byte. The functions below are those of the C standard library, in the "C"
locale, that programs over such strings call, together with the bounded copies
that fixed-size character arrays force on them.

## Main definitions

* `CStr`, `cstr` — a C string, and the string that starts a block of memory.
* `isSpace`, `equalsIgnoreCase`, `strcmp`, `trimSpace` — classification, comparison, trimming.
* `strtol`, `atoi`, `intText` — reading and printing decimal integers.
* `cField` — what a fixed-size array holds after a bounded copy.
-/

namespace CText

/-- A C string: the bytes before the terminating NUL. -/
abbrev CStr := List Char

instance : LawfulBEq CStr := inferInstance

/-- The C string a block of bytes starts with. -/
def cstr (bytes : List Char) : CStr := bytes.takeWhile (· ≠ '\x00')

/-- A string with no NUL byte inside, as every C string is. -/
def NulFree (s : CStr) : Prop := '\x00' ∉ s

instance (s : CStr) : Decidable (NulFree s) := inferInstanceAs (Decidable (_ ∉ _))

@[simp] theorem nulFree_nil : NulFree [] := by simp [NulFree]

@[simp] theorem nulFree_cons {c : Char} {s : CStr} :
    NulFree (c :: s) ↔ c ≠ '\x00' ∧ NulFree s := by
  simp [NulFree, eq_comm]

@[simp] theorem nulFree_append {s t : CStr} : NulFree (s ++ t) ↔ NulFree s ∧ NulFree t := by
  simp [NulFree]

theorem NulFree.sublist {s t : CStr} (h : NulFree t) (hs : s.Sublist t) : NulFree s :=
  fun hmem => h (hs.subset hmem)

theorem cstr_of_nulFree {s : CStr} (h : NulFree s) : cstr s = s := by
  rw [cstr, List.takeWhile_eq_self_iff]
  intro c hc
  simp only [ne_eq, decide_eq_true_eq]
  rintro rfl
  exact h hc

theorem nulFree_cstr (s : List Char) : NulFree (cstr s) := by
  intro hmem
  have := List.mem_takeWhile_imp hmem
  simp at this

/-! ## Characters -/

/-- `isspace` in the "C" locale: blank, or one of tab, newline, VT, FF, CR. -/
def isSpace (c : Char) : Bool := c == ' ' || (9 ≤ c.toNat && c.toNat ≤ 13)

/-- The characters that keep a `word` together: letters, digits, `_`, `.` and `-`. -/
def isWordChar (c : Char) : Bool := c.isAlphanum || c == '_' || c == '.' || c == '-'

/-- `is_ascii_lowercase_word`. -/
def isAsciiLowercaseWord (text : CStr) : Bool :=
  text ≠ [] && text.all fun c => 'a' ≤ c && c ≤ 'z'

theorem not_mem_of_isAsciiLowercaseWord {s : CStr} (h : isAsciiLowercaseWord s = true) {c : Char}
    (hc : ¬ ('a' ≤ c ∧ c ≤ 'z')) : c ∉ s := by
  simp only [isAsciiLowercaseWord, Bool.and_eq_true, List.all_eq_true, decide_eq_true_eq] at h
  exact fun hmem => hc (h.2 c hmem)

/-- Comparison of two strings through `tolower`. -/
def equalsIgnoreCase : CStr → CStr → Bool
  | [], [] => true
  | a :: as, b :: bs => if a.toLower ≠ b.toLower then false else equalsIgnoreCase as bs
  | _, _ => false

theorem equalsIgnoreCase_iff {a b : CStr} :
    equalsIgnoreCase a b = true ↔ a.map Char.toLower = b.map Char.toLower := by
  induction a generalizing b with
  | nil => cases b <;> simp [equalsIgnoreCase]
  | cons x xs ih =>
    cases b with
    | nil => simp [equalsIgnoreCase]
    | cons y ys =>
      by_cases h : x.toLower = y.toLower <;> simp [equalsIgnoreCase, h, ih]

@[simp] theorem equalsIgnoreCase_refl (a : CStr) : equalsIgnoreCase a a = true :=
  equalsIgnoreCase_iff.mpr rfl

theorem equalsIgnoreCase_comm (a b : CStr) : equalsIgnoreCase a b = equalsIgnoreCase b a := by
  rw [Bool.eq_iff_iff, equalsIgnoreCase_iff, equalsIgnoreCase_iff, eq_comm]

theorem equalsIgnoreCase_trans {a b c : CStr} (hab : equalsIgnoreCase a b = true)
    (hbc : equalsIgnoreCase b c = true) : equalsIgnoreCase a c = true := by
  rw [equalsIgnoreCase_iff] at *
  rw [hab, hbc]

theorem length_eq_of_equalsIgnoreCase {a b : CStr} (h : equalsIgnoreCase a b = true) :
    a.length = b.length := by
  have := congrArg List.length (equalsIgnoreCase_iff.mp h)
  simpa using this

/-- `strcmp`: the sign of the first difference, bytes compared as unsigned. -/
def strcmp : CStr → CStr → Int
  | [], [] => 0
  | [], _ :: _ => -1
  | _ :: _, [] => 1
  | a :: as, b :: bs => if a = b then strcmp as bs else if a.toNat < b.toNat then -1 else 1

theorem strcmp_eq_zero {a b : CStr} : strcmp a b = 0 ↔ a = b := by
  induction a generalizing b with
  | nil => cases b <;> simp [strcmp]
  | cons x xs ih =>
    cases b with
    | nil => simp [strcmp]
    | cons y ys =>
      by_cases h : x = y
      · simp [strcmp, h, ih]
      · by_cases hlt : x.toNat < y.toNat <;> simp [strcmp, h, hlt]

theorem strcmp_sign (a b : CStr) : strcmp a b = -1 ∨ strcmp a b = 0 ∨ strcmp a b = 1 := by
  induction a generalizing b with
  | nil => cases b <;> simp [strcmp]
  | cons x xs ih =>
    cases b with
    | nil => simp [strcmp]
    | cons y ys =>
      rw [strcmp]
      split
      · exact ih ys
      · split <;> simp

theorem toNat_lt_or_gt {x y : Char} (h : x ≠ y) : x.toNat < y.toNat ∨ y.toNat < x.toNat := by
  have hne : x.toNat ≠ y.toNat := fun heq => h (Char.toNat_inj.mp heq)
  omega

theorem strcmp_swap (a b : CStr) : strcmp b a = -strcmp a b := by
  induction a generalizing b with
  | nil => cases b <;> simp [strcmp]
  | cons x xs ih =>
    cases b with
    | nil => simp [strcmp]
    | cons y ys =>
      by_cases h : x = y
      · simp [strcmp, h, ih ys]
      · rcases toNat_lt_or_gt h with hlt | hlt
        · simp [strcmp, h, Ne.symm h, hlt, Nat.not_lt_of_lt hlt]
        · simp [strcmp, h, Ne.symm h, hlt, Nat.not_lt_of_lt hlt]

theorem strcmp_trans {a b c : CStr} (hab : strcmp a b < 0) (hbc : strcmp b c < 0) :
    strcmp a c < 0 := by
  induction a generalizing b c with
  | nil =>
    cases c with
    | nil => cases b <;> simp [strcmp] at hab hbc
    | cons z zs => simp [strcmp]
  | cons x xs ih =>
    cases b with
    | nil => simp [strcmp] at hab
    | cons y ys =>
      cases c with
      | nil => simp [strcmp] at hbc
      | cons z zs =>
        rw [strcmp] at hab hbc ⊢
        split at hab
        · rename_i hxy
          subst hxy
          split at hbc
          · rename_i hyz
            rw [if_pos hyz]
            exact ih hab hbc
          · rename_i hyz
            rw [if_neg hyz]
            exact hbc
        · rename_i hxy
          have hlt : x.toNat < y.toNat := by
            by_contra hge
            simp [hge] at hab
          split at hbc
          · rename_i hyz
            subst hyz
            rw [if_neg hxy, if_pos hlt]
            omega
          · have hlt' : y.toNat < z.toNat := by
              by_contra hge
              simp [hge] at hbc
            have hne : x ≠ z := by
              rintro rfl
              omega
            rw [if_neg hne, if_pos (hlt.trans hlt')]
            omega

/-! ## Trimming -/

/-- Remove the blanks at both ends. -/
def trimSpace (s : CStr) : CStr := (s.dropWhile isSpace).rdropWhile isSpace

/-- A string neither of whose ends is a blank. -/
def Trimmed (s : CStr) : Prop :=
  (∀ c, s.head? = some c → isSpace c = false) ∧ (∀ c, s.getLast? = some c → isSpace c = false)

-- through the two ends: a `∀` over all characters is decidable as well, but not in practice
instance (s : CStr) : Decidable (Trimmed s) :=
  @instDecidableAnd _ _ (Option.decidableForallMem s.head?) (Option.decidableForallMem s.getLast?)

theorem trimSpace_of_trimmed {s : CStr} (h : Trimmed s) : trimSpace s = s := by
  have hhead : s.dropWhile isSpace = s := by
    cases s with
    | nil => rfl
    | cons c cs => simp [h.1 c rfl]
  rw [trimSpace, hhead, List.rdropWhile_eq_self_iff]
  intro hne
  simp [h.2 (s.getLast hne) (List.getLast?_eq_getLast_of_ne_nil hne)]

theorem mem_of_mem_trimSpace {s : CStr} {c : Char} (h : c ∈ trimSpace s) : c ∈ s :=
  (List.dropWhile_sublist _).mem ((List.rdropWhile_prefix _ _).sublist.mem h)

theorem trimmed_trimSpace (s : CStr) : Trimmed (trimSpace s) := by
  constructor
  · intro c hc
    obtain ⟨t, ht⟩ : trimSpace s <+: s.dropWhile isSpace := List.rdropWhile_prefix _ _
    have hne : s.dropWhile isSpace ≠ [] := by
      intro hnil
      rw [hnil] at ht
      simp [(List.append_eq_nil_iff.mp ht).1] at hc
    have hhead : (s.dropWhile isSpace).head? = some c := by rw [← ht, List.head?_append, hc]; rfl
    rw [List.head?_eq_some_head hne, Option.some.injEq] at hhead
    rw [← hhead]
    exact Bool.eq_false_iff.mpr (by simpa using List.head_dropWhile_not isSpace hne)
  · intro c hc
    have hne : trimSpace s ≠ [] := by
      intro hnil
      simp [hnil] at hc
    rw [List.getLast?_eq_getLast_of_ne_nil hne, Option.some.injEq] at hc
    rw [← hc]
    exact Bool.eq_false_iff.mpr (List.rdropWhile_last_not isSpace _ hne)

theorem head?_trimSpace {s : CStr} {c : Char} (h : s.head? = some c) (hc : isSpace c = false) :
    (trimSpace s).head? = some c := by
  obtain ⟨cs, rfl⟩ : ∃ cs, s = c :: cs := by
    cases s with
    | nil => simp at h
    | cons d cs => exact ⟨cs, by rw [Option.some.inj h]⟩
  have htrim : trimSpace (c :: cs) = (c :: cs).rdropWhile isSpace := by simp [trimSpace, hc]
  rw [htrim]
  obtain ⟨t, ht⟩ := List.rdropWhile_prefix isSpace (c :: cs)
  cases hpre : (c :: cs).rdropWhile isSpace with
  | nil =>
    have hall := List.rdropWhile_eq_nil_iff.mp hpre c (by simp)
    rw [hc] at hall
    exact absurd hall (by simp)
  | cons d ds =>
    rw [hpre, List.cons_append] at ht
    rw [(List.cons.inj ht).1]
    rfl

/-- A blank at the end does not matter. -/
theorem trimSpace_append_space {c : Char} (hc : isSpace c = true) (s : CStr) :
    trimSpace (s ++ [c]) = trimSpace s := by
  unfold trimSpace
  rw [List.dropWhile_append]
  split
  · rename_i h
    simp [List.isEmpty_iff.mp h, hc]
  · rw [List.rdropWhile_concat_pos _ _ _ hc]

/-! ## Decimal integers -/

/-- The value of a run of decimal digits. -/
def digitsValue (ds : CStr) : ℕ := ds.foldl (fun n c => 10 * n + (c.toNat - 48)) 0

/-- Wrap a value to a 32-bit `int`, as a conversion from `long` does. -/
def toInt32 (n : ℤ) : ℤ := n.bmod (2 ^ 32)

/-- Wrap a value to a 64-bit `long`. -/
def toInt64 (n : ℤ) : ℤ := n.bmod (2 ^ 64)

def intMax : ℤ := 2 ^ 31 - 1
def intMin : ℤ := -2 ^ 31
def longMax : ℤ := 2 ^ 63 - 1
def longMin : ℤ := -2 ^ 63

/-- What `strtol(text, &end, 10)` leaves: the value, the text from `end` on, and
whether `errno` is `ERANGE`. Without a digit, `end` is the start of the text. -/
structure Strtol where
  value : ℤ
  rest : CStr
  erange : Bool

/-- The optional sign of a numeral: whether it is `-`, and the text after it. -/
def signOf : CStr → Bool × CStr
  | '-' :: s => (true, s)
  | '+' :: s => (false, s)
  | s => (false, s)

/-- `strtol` with base 10: blanks, a sign, then as many digits as there are; a value
outside `long` is clamped. -/
def strtol (text : CStr) : Strtol :=
  let (neg, s) := signOf (text.dropWhile isSpace)
  let ds := s.takeWhile Char.isDigit
  if ds = [] then ⟨0, text, false⟩
  else
    let v : ℤ := if neg then -digitsValue ds else digitsValue ds
    if v < longMin then ⟨longMin, s.dropWhile Char.isDigit, true⟩
    else if longMax < v then ⟨longMax, s.dropWhile Char.isDigit, true⟩
    else ⟨v, s.dropWhile Char.isDigit, false⟩

/-- `atoi`, which converts the result of `strtol` to `int`. -/
def atoi (text : CStr) : ℤ := toInt32 (strtol text).value

/-- `"%d"` and `"%ld"`. -/
def intText (n : ℤ) : CStr :=
  if n < 0 then '-' :: Nat.toDigits 10 n.natAbs else Nat.toDigits 10 n.natAbs

/-! ## Printed numbers are read back -/

theorem digitsValue_toDigits (n : ℕ) : digitsValue (Nat.toDigits 10 n) = n :=
  Nat.ofDigitChars_toDigits (by decide) (by decide)

theorem isDigit_of_mem_toDigits {n : ℕ} {c : Char} (h : c ∈ Nat.toDigits 10 n) :
    c.isDigit = true :=
  Nat.isDigit_of_mem_toDigits (by decide) (by decide) h

theorem nulFree_intText (n : ℤ) : NulFree (intText n) := by
  have hdigits : NulFree (Nat.toDigits 10 n.natAbs) :=
    fun h => absurd (isDigit_of_mem_toDigits h) (by decide)
  unfold intText
  split
  · exact nulFree_cons.mpr ⟨by decide, hdigits⟩
  · exact hdigits

/-- A digit is neither a blank nor a sign. -/
theorem digit_spec {c : Char} (h : c.isDigit = true) : isSpace c = false ∧ c ≠ '-' ∧ c ≠ '+' := by
  have hrange : 48 ≤ c.toNat ∧ c.toNat ≤ 57 := by
    simp only [Char.isDigit, Bool.and_eq_true, decide_eq_true_eq] at h
    exact h
  refine ⟨?_, ?_, ?_⟩
  · have hblank : c ≠ ' ' := by
      rintro rfl
      exact absurd hrange (by decide)
    have h13 : ¬ c.toNat ≤ 13 := by omega
    simp [isSpace, hblank, h13]
  · rintro rfl
    exact absurd hrange (by decide)
  · rintro rfl
    exact absurd hrange (by decide)

/-- The sign and the digits of a printed number. -/
theorem signOf_intText (n : ℤ) :
    signOf ((intText n).dropWhile isSpace) = (decide (n < 0), Nat.toDigits 10 n.natAbs) := by
  by_cases hneg : n < 0
  · rw [intText, if_pos hneg, List.dropWhile_cons_of_neg (by decide), signOf]
    simp [hneg]
  · rw [intText, if_neg hneg]
    cases hdigits : Nat.toDigits 10 n.natAbs with
    | nil => exact absurd hdigits Nat.toDigits_ne_nil
    | cons c s =>
      obtain ⟨hspace, hminus, hplus⟩ :=
        digit_spec (isDigit_of_mem_toDigits (hdigits ▸ List.mem_cons_self))
      rw [List.dropWhile_cons_of_neg (by simp [hspace])]
      unfold signOf
      split
      · rename_i heq
        exact absurd (List.cons.inj heq).1 hminus
      · rename_i heq
        exact absurd (List.cons.inj heq).1 hplus
      · simp [hneg]

/-- A printed number is read to its end; one that is no `long` is clamped. -/
theorem strtol_intText_eq (n : ℤ) :
    strtol (intText n) =
      if n < longMin then ⟨longMin, [], true⟩
      else if longMax < n then ⟨longMax, [], true⟩ else ⟨n, [], false⟩ := by
  have hall : ∀ c ∈ Nat.toDigits 10 n.natAbs, c.isDigit = true := fun c => isDigit_of_mem_toDigits
  have hvalue : (if decide (n < 0) = true then -(n.natAbs : ℤ) else n.natAbs) = n := by
    split
    · rename_i hneg
      have := of_decide_eq_true hneg
      omega
    · rename_i hneg
      have := of_decide_eq_false (Bool.eq_false_iff.mpr hneg)
      omega
  have htake : (Nat.toDigits 10 n.natAbs).takeWhile Char.isDigit = Nat.toDigits 10 n.natAbs :=
    List.takeWhile_eq_self_iff.mpr hall
  have hdrop : (Nat.toDigits 10 n.natAbs).dropWhile Char.isDigit = [] :=
    List.dropWhile_eq_nil_iff.mpr hall
  unfold strtol
  rw [signOf_intText]
  dsimp only
  rw [htake, hdrop, if_neg Nat.toDigits_ne_nil, digitsValue_toDigits, hvalue]

theorem strtol_intText {n : ℤ} (hmin : longMin ≤ n) (hmax : n ≤ longMax) :
    strtol (intText n) = ⟨n, [], false⟩ := by
  rw [strtol_intText_eq, if_neg (by omega), if_neg (by omega)]

theorem toInt32_of_mem {n : ℤ} (hmin : intMin ≤ n) (hmax : n ≤ intMax) : toInt32 n = n := by
  simp only [intMin, intMax] at hmin hmax
  rw [toInt32, Int.bmod_def]
  split <;> omega

theorem atoi_intText {n : ℤ} (hmin : intMin ≤ n) (hmax : n ≤ intMax) : atoi (intText n) = n := by
  have hlong : strtol (intText n) = ⟨n, [], false⟩ := by
    refine strtol_intText ?_ ?_
    · simp only [intMin, longMin] at *
      omega
    · simp only [intMax, longMax] at *
      omega
  rw [atoi, hlong, toInt32_of_mem hmin hmax]

/-! ## Fixed-size arrays -/

/-- The string read back from a `char [size]` after `strncpy(array, token, size - 1)`.
`strncpy` writes no terminator when the token fills the `size - 1` bytes; the string
then goes on with the array's `last` byte and the memory `behind` the array, up to a NUL. -/
def cField (size : ℕ) (token : CStr) (last : Char) (behind : CStr) : CStr :=
  if token.length < size - 1 then token else token.take (size - 1) ++ cstr (last :: behind)

theorem cField_of_lt {size : ℕ} {token : CStr} {last : Char} {behind : CStr}
    (h : token.length < size - 1) : cField size token last behind = token := if_pos h

@[simp] theorem cField_nul (size : ℕ) (token behind : CStr) :
    cField size token '\x00' behind = token.take (size - 1) := by
  by_cases h : token.length < size - 1
  · rw [cField_of_lt h, List.take_of_length_le h.le]
  · simp [cField, h, cstr]

theorem nulFree_cField {size : ℕ} {token : CStr} {last : Char} {behind : CStr}
    (h : NulFree token) : NulFree (cField size token last behind) := by
  unfold cField
  split
  · exact h
  · exact nulFree_append.mpr ⟨h.sublist (List.take_sublist ..), nulFree_cstr _⟩

end CText
