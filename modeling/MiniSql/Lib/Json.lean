import Mathlib.Data.List.Basic
import Mathlib.Data.List.DropRight
import Mathlib.Data.List.TakeWhile
import Mathlib.Tactic.Common

/-!
# JSON texts

The grammar of JSON over bytes, and a reader. The encoding of the bytes is not checked; an escape
`\u` stands for the UTF-8 of its code point. Numbers are kept as they are written.

## Main definitions

* `Value`, `JsonText` — a value, and the texts of a value.
* `readJson` — the value of a text.
* `IsJson` — a text of some value.

## Main results

* `readJson_eq_some_iff` — the reader knows the grammar.
* `JsonText.unique` — a text has one value.
* `jsonText_plain`, `jsonText_arr`, `jsonText_obj`, `isNumber_append` — texts without blanks.
-/

namespace Json

/-- A text, one character for each byte. -/
abbrev Text := List Char

/-- A value. -/
inductive Value
  | null
  | bool (b : Bool)
  | num (text : Text)
  | str (s : Text)
  | arr (values : List Value)
  | obj (members : List (Text × Value))

/-- The value of the first member of a name. -/
def Value.field (name : Text) : Value → Option Value
  | .obj members => members.lookup name
  | _ => none

/-! ## Numbers, blanks and literals -/

def isWs (c : Char) : Bool := c = ' ' || c = '\t' || c = '\n' || c = '\r'

/-- The characters that literals and numbers are made of, and all others that no token ends at. -/
def isAtomChar (c : Char) : Bool :=
  !isWs c && c ≠ ',' && c ≠ ':' && c ≠ '[' && c ≠ ']' && c ≠ '{' && c ≠ '}' && c ≠ '"'

/-- `[ minus ]`, and what follows it. -/
def dropMinus : Text → Text
  | '-' :: t => t
  | t => t

/-- The sign of an exponent, and what follows it. -/
def dropSign : Text → Text
  | '-' :: t => t
  | '+' :: t => t
  | t => t

/-- `[ exp ]`. -/
def isExp : Text → Bool
  | [] => true
  | e :: t => (e = 'e' || e = 'E') && dropSign t ≠ [] && (dropSign t).all Char.isDigit

/-- `[ frac ] [ exp ]`. -/
def isFracExp (t : Text) : Bool :=
  match t with
  | '.' :: t => t.takeWhile Char.isDigit ≠ [] && isExp (t.dropWhile Char.isDigit)
  | t => isExp t

/-- `int`: digits, without a zero before other ones. -/
def isInt (ds : Text) : Bool := ds ≠ [] && (ds = ['0'] || ds.head? ≠ some '0')

/-- `number`. -/
def isNumber (t : Text) : Bool :=
  isInt ((dropMinus t).takeWhile Char.isDigit) && isFracExp ((dropMinus t).dropWhile Char.isDigit)

/-! ## Strings -/

/-- What a string is made of: a byte, or a code unit behind `\u`. -/
inductive Item
  | char (c : Char)
  | unit (u : ℕ)

/-- What stands behind the backslash of an escape. -/
def escapeOf : Char → Option Char
  | '"' => some '"'
  | '\\' => some '\\'
  | '/' => some '/'
  | 'b' => some '\x08'
  | 'f' => some '\x0c'
  | 'n' => some '\n'
  | 'r' => some '\r'
  | 't' => some '\t'
  | _ => none

def hexOf (c : Char) : Option ℕ :=
  if '0' ≤ c ∧ c ≤ '9' then some (c.toNat - 48)
  else if 'a' ≤ c ∧ c ≤ 'f' then some (c.toNat - 87)
  else if 'A' ≤ c ∧ c ≤ 'F' then some (c.toNat - 55)
  else none

/-- The code unit of four hexadecimal digits. -/
def unitOf (a b c d : Char) : Option ℕ := do
  let a ← hexOf a
  let b ← hexOf b
  let c ← hexOf c
  let d ← hexOf d
  return ((a * 16 + b) * 16 + c) * 16 + d

/-- The bytes of a code point. -/
def utf8 (u : ℕ) : Text :=
  if u < 0x80 then [Char.ofNat u]
  else if u < 0x800 then [Char.ofNat (0xC0 + u / 64), Char.ofNat (0x80 + u % 64)]
  else if u < 0x10000 then
    [Char.ofNat (0xE0 + u / 4096), Char.ofNat (0x80 + u / 64 % 64), Char.ofNat (0x80 + u % 64)]
  else
    [Char.ofNat (0xF0 + u / 262144), Char.ofNat (0x80 + u / 4096 % 64),
      Char.ofNat (0x80 + u / 64 % 64), Char.ofNat (0x80 + u % 64)]

/-- The bytes of a string. Two surrogates are one code point. -/
def decode : List Item → Text
  | [] => []
  | .char c :: items => c :: decode items
  | .unit u :: .unit v :: items =>
    if 0xD800 ≤ u ∧ u < 0xDC00 ∧ 0xDC00 ≤ v ∧ v < 0xE000 then
      utf8 (0x10000 + (u - 0xD800) * 1024 + (v - 0xDC00)) ++ decode items
    else utf8 u ++ decode (.unit v :: items)
  | .unit u :: items => utf8 u ++ decode items

/-- The text of an item. -/
inductive ItemText : Item → Text → Prop
  | raw {c : Char} (hle : ' ' ≤ c) (hquote : c ≠ '"') (hslash : c ≠ '\\') :
    ItemText (.char c) [c]
  | escape {e c : Char} (h : escapeOf e = some c) : ItemText (.char c) ['\\', e]
  | unit {a b c d : Char} {u : ℕ} (h : unitOf a b c d = some u) :
    ItemText (.unit u) ['\\', 'u', a, b, c, d]

/-! ## The grammar -/

/-- Texts with commas between them. -/
def commaSep : List Text → Text
  | [] => []
  | [t] => t
  | t :: u :: ts => t ++ ',' :: commaSep (u :: ts)

/-- The texts of a value, with blanks around it. -/
inductive JsonText : Value → Text → Prop
  | litNull : JsonText .null "null".toList
  | litTrue : JsonText (.bool true) "true".toList
  | litFalse : JsonText (.bool false) "false".toList
  | num {t : Text} (h : isNumber t = true) : JsonText (.num t) t
  | str {items : List (Item × Text)} (h : ∀ p ∈ items, ItemText p.1 p.2) :
    JsonText (.str (decode (items.map Prod.fst)))
      ('"' :: ((items.map Prod.snd).flatten ++ ['"']))
  | emptyArr {ws : Text} (hws : ∀ c ∈ ws, isWs c = true) : JsonText (.arr []) ('[' :: (ws ++ [']']))
  | arr {items : List (Value × Text)} (hne : items ≠ []) (h : ∀ p ∈ items, JsonText p.1 p.2) :
    JsonText (.arr (items.map Prod.fst)) ('[' :: (commaSep (items.map Prod.snd) ++ [']']))
  | emptyObj {ws : Text} (hws : ∀ c ∈ ws, isWs c = true) : JsonText (.obj []) ('{' :: (ws ++ ['}']))
  | obj {members : List ((Text × Value) × (Text × Text))} (hne : members ≠ [])
    (hkey : ∀ m ∈ members, JsonText (.str m.1.1) m.2.1)
    (hvalue : ∀ m ∈ members, JsonText m.1.2 m.2.2) :
    JsonText (.obj (members.map Prod.fst))
      ('{' :: (commaSep (members.map fun m => m.2.1 ++ ':' :: m.2.2) ++ ['}']))
  | pad {v : Value} {before text after : Text} (hbefore : ∀ c ∈ before, isWs c = true)
    (hafter : ∀ c ∈ after, isWs c = true) (h : JsonText v text) :
    JsonText v (before ++ text ++ after)

/-- A JSON text. -/
def IsJson (t : Text) : Prop := ∃ v, JsonText v t

/-! ## The reader -/

def skipWs (s : Text) : Text := s.dropWhile isWs

/-- An item at the start of a text. -/
def readItem : Text → Option (Item × Text)
  | [] => none
  | c :: s =>
    if c = '\\' then
      match s with
      | [] => none
      | e :: s =>
        if e = 'u' then
          match s with
          | a :: b :: c :: d :: s => (unitOf a b c d).map fun u => (.unit u, s)
          | _ => none
        else (escapeOf e).map fun c => (.char c, s)
    else if ' ' ≤ c ∧ c ≠ '"' then some (.char c, s)
    else none

/-- Items up to a quote. -/
def readItems : ℕ → Text → Option (List Item × Text)
  | 0, _ => none
  | n + 1, s =>
    if s.head? = some '"' then some ([], s.tail)
    else
      match readItem s with
      | none => none
      | some (item, s) => (readItems n s).map fun (items, s) => (item :: items, s)

/-- A literal or a number. -/
def readAtom (s : Text) : Option (Value × Text) :=
  let word := s.takeWhile isAtomChar
  let rest := s.dropWhile isAtomChar
  if word = "null".toList then some (.null, rest)
  else if word = "true".toList then some (.bool true, rest)
  else if word = "false".toList then some (.bool false, rest)
  else if isNumber word then some (.num word, rest)
  else none

/-- Elements up to a bracket. -/
def readElements (read : Text → Option (Value × Text)) : ℕ → Text → Option (List Value × Text)
  | 0, _ => none
  | n + 1, s =>
    match read s with
    | some (v, c :: s) =>
      if c = ',' then (readElements read n s).map fun (vs, s) => (v :: vs, s)
      else if c = ']' then some ([v], s)
      else none
    | _ => none

/-- Members up to a brace. -/
def readMembers (read : Text → Option (Value × Text)) :
    ℕ → Text → Option (List (Text × Value) × Text)
  | 0, _ => none
  | n + 1, s =>
    match read s with
    | some (.str key, ':' :: s) =>
      match read s with
      | some (v, c :: s) =>
        if c = ',' then (readMembers read n s).map fun (ms, s) => ((key, v) :: ms, s)
        else if c = '}' then some ([(key, v)], s)
        else none
      | _ => none
    | _ => none

/-- A value without blanks in front. -/
def readBare (read : Text → Option (Value × Text)) (n : ℕ) (s : Text) : Option (Value × Text) :=
  match s with
  | '"' :: s => (readItems n s).map fun (items, s) => (.str (decode items), s)
  | '[' :: s =>
    if (skipWs s).head? = some ']' then some (.arr [], (skipWs s).tail)
    else (readElements read n s).map fun (vs, s) => (.arr vs, s)
  | '{' :: s =>
    if (skipWs s).head? = some '}' then some (.obj [], (skipWs s).tail)
    else (readMembers read n s).map fun (ms, s) => (.obj ms, s)
  | s => readAtom s

/-- A value with blanks around it. -/
def readValue : ℕ → Text → Option (Value × Text)
  | 0, _ => none
  | n + 1, s => (readBare (readValue n) n (skipWs s)).map fun (v, s) => (v, skipWs s)

/-- The value of a text. -/
def readJson (t : Text) : Option Value :=
  match readValue (t.length + 1) t with
  | some (v, []) => some v
  | _ => none

/-! ## Blanks and atoms -/

variable {s t rest : Text}

theorem skipWs_append {ws : Text} (h : ∀ c ∈ ws, isWs c = true) : skipWs (ws ++ s) = skipWs s := by
  rw [skipWs, skipWs, List.dropWhile_append_of_pos h]

theorem skipWs_cons {c : Char} (h : isWs c = false) : skipWs (c :: s) = c :: s := by
  rw [skipWs, List.dropWhile_cons_of_neg (by simp [h])]

/-- What follows a value does not continue it. -/
def Ends (rest : Text) : Prop := ∀ c, rest.head? = some c → isAtomChar c = false

theorem ends_nil : Ends [] := by simp [Ends]

theorem ends_cons {c : Char} (h : isAtomChar c = false) : Ends (c :: rest) := by
  intro d hd
  rwa [← Option.some.inj hd]

theorem isAtomChar_of_isWs {c : Char} (h : isWs c = true) : isAtomChar c = false := by
  simp [isAtomChar, h]

theorem Ends.append (h : Ends rest) {ws : Text} (hws : ∀ c ∈ ws, isWs c = true) :
    Ends (ws ++ rest) := by
  cases ws with
  | nil => exact h
  | cons c ws => exact ends_cons (isAtomChar_of_isWs (hws c List.mem_cons_self))

theorem isAtomChar_of_isDigit {c : Char} (h : c.isDigit = true) : isAtomChar c = true := by
  have hrange : 48 ≤ c.toNat ∧ c.toNat ≤ 57 := by
    simp only [Char.isDigit, Bool.and_eq_true, decide_eq_true_eq] at h
    exact h
  have hne : ∀ d : Char, ¬ (48 ≤ d.toNat ∧ d.toNat ≤ 57) → c ≠ d := by
    intro d hd heq
    exact hd (heq ▸ hrange)
  simp [isAtomChar, isWs, hne ' ' (by decide), hne '\t' (by decide), hne '\n' (by decide),
    hne '\r' (by decide), hne ',' (by decide), hne ':' (by decide), hne '[' (by decide),
    hne ']' (by decide), hne '{' (by decide), hne '}' (by decide), hne '"' (by decide)]

theorem isAtomChar_of_mem_sign (h : ∀ c ∈ dropSign t, isAtomChar c = true) :
    ∀ c ∈ t, isAtomChar c = true := by
  intro c hc
  unfold dropSign at h
  split at h
  · rcases List.mem_cons.mp hc with rfl | hc
    · decide
    · exact h c hc
  · rcases List.mem_cons.mp hc with rfl | hc
    · decide
    · exact h c hc
  · exact h c hc

theorem isAtomChar_of_isExp (h : isExp t = true) : ∀ c ∈ t, isAtomChar c = true := by
  cases t with
  | nil => simp
  | cons e t =>
    simp only [isExp, Bool.and_eq_true, Bool.or_eq_true, decide_eq_true_eq, List.all_eq_true] at h
    obtain ⟨⟨he, -⟩, hdigits⟩ := h
    have ht := isAtomChar_of_mem_sign fun c hc => isAtomChar_of_isDigit (hdigits c hc)
    intro c hc
    rcases List.mem_cons.mp hc with rfl | hc
    · rcases he with rfl | rfl <;> decide
    · exact ht c hc

theorem isAtomChar_of_parts (h : ∀ c ∈ t.dropWhile Char.isDigit, isAtomChar c = true) :
    ∀ c ∈ t, isAtomChar c = true := by
  intro c hc
  rw [← List.takeWhile_append_dropWhile (p := Char.isDigit) (l := t)] at hc
  rcases List.mem_append.mp hc with hc | hc
  · exact isAtomChar_of_isDigit (List.mem_takeWhile_imp hc)
  · exact h c hc

theorem isAtomChar_of_isFracExp (h : isFracExp t = true) : ∀ c ∈ t, isAtomChar c = true := by
  unfold isFracExp at h
  split at h
  · rename_i t
    obtain ⟨-, hexp⟩ := Bool.and_eq_true_iff.mp h
    have ht := isAtomChar_of_parts (isAtomChar_of_isExp hexp)
    intro c hc
    rcases List.mem_cons.mp hc with rfl | hc
    · decide
    · exact ht c hc
  · exact isAtomChar_of_isExp h

theorem isAtomChar_of_isNumber (h : isNumber t = true) : ∀ c ∈ t, isAtomChar c = true := by
  obtain ⟨-, hfrac⟩ := Bool.and_eq_true_iff.mp h
  have ht := isAtomChar_of_parts (isAtomChar_of_isFracExp hfrac)
  intro c hc
  unfold dropMinus at ht
  split at ht
  · rcases List.mem_cons.mp hc with rfl | hc
    · decide
    · exact ht c hc
  · exact ht c hc

theorem takeWhile_atom (h : ∀ c ∈ t, isAtomChar c = true) (hrest : Ends rest) :
    (t ++ rest).takeWhile isAtomChar = t ∧ (t ++ rest).dropWhile isAtomChar = rest := by
  rw [List.takeWhile_append_of_pos h, List.dropWhile_append_of_pos h]
  cases rest with
  | nil => simp
  | cons c rest => simp [hrest c rfl]

/-! ## Items -/

theorem readItem_append {item : Item} (h : ItemText item t) :
    readItem (t ++ rest) = some (item, rest) := by
  cases h with
  | raw hle hquote hslash => simp [readItem, hle, hquote, hslash]
  | escape hescape =>
    rename_i e c
    have hu : e ≠ 'u' := fun heq => by simp [heq, escapeOf] at hescape
    simp [readItem, hu, hescape]
  | unit hunit => simp [readItem, hunit]

theorem ItemText.head?_ne {item : Item} (h : ItemText item t) : (t ++ rest).head? ≠ some '"' := by
  cases h with
  | raw hle hquote hslash => simpa using hquote
  | escape => simp
  | unit => simp

theorem ItemText.length_pos {item : Item} (h : ItemText item t) : 0 < t.length := by
  cases h <;> simp

theorem readItems_append {items : List (Item × Text)} (h : ∀ p ∈ items, ItemText p.1 p.2) {n : ℕ}
    (hn : (items.map Prod.snd).flatten.length < n) :
    readItems n ((items.map Prod.snd).flatten ++ '"' :: rest) = some (items.map Prod.fst, rest) := by
  induction items generalizing n with
  | nil =>
    obtain ⟨m, rfl⟩ := Nat.exists_eq_add_of_lt hn
    simp [readItems]
  | cons p items ih =>
    have hp := h p List.mem_cons_self
    have hpos := hp.length_pos
    simp only [List.map_cons, List.flatten_cons, List.length_append] at hn ⊢
    obtain ⟨m, rfl⟩ : ∃ m, n = m + 1 := ⟨n - 1, by omega⟩
    rw [readItems, List.append_assoc, if_neg hp.head?_ne, readItem_append hp]
    simp only [ih (fun q hq => h q (List.mem_cons_of_mem _ hq)) (n := m) (by omega), Option.map_some]

theorem readItem_sound {item : Item} (h : readItem s = some (item, rest)) :
    ∃ t, s = t ++ rest ∧ ItemText item t := by
  unfold readItem at h
  split at h
  · exact absurd h (by simp)
  rename_i c s
  by_cases hslash : c = '\\'
  · rw [if_pos hslash] at h
    subst hslash
    split at h
    · exact absurd h (by simp)
    rename_i e s
    by_cases hu : e = 'u'
    · rw [if_pos hu] at h
      subst hu
      split at h
      · rename_i a b c d s
        obtain ⟨u, hunit, hitem⟩ := Option.map_eq_some_iff.mp h
        obtain ⟨rfl, rfl⟩ := Prod.mk.inj hitem
        exact ⟨['\\', 'u', a, b, c, d], rfl, .unit hunit⟩
      · exact absurd h (by simp)
    · rw [if_neg hu] at h
      obtain ⟨c, hescape, hitem⟩ := Option.map_eq_some_iff.mp h
      obtain ⟨rfl, rfl⟩ := Prod.mk.inj hitem
      exact ⟨['\\', e], rfl, .escape hescape⟩
  · rw [if_neg hslash] at h
    by_cases hraw : ' ' ≤ c ∧ c ≠ '"'
    · rw [if_pos hraw] at h
      obtain ⟨rfl, rfl⟩ := Prod.mk.inj (Option.some.inj h)
      exact ⟨[c], rfl, .raw hraw.1 hraw.2 hslash⟩
    · rw [if_neg hraw] at h
      exact absurd h (by simp)

theorem readItems_sound {n : ℕ} {items : List Item} (h : readItems n s = some (items, rest)) :
    ∃ pairs : List (Item × Text), items = pairs.map Prod.fst ∧
      s = (pairs.map Prod.snd).flatten ++ '"' :: rest ∧ ∀ p ∈ pairs, ItemText p.1 p.2 := by
  induction n generalizing s items with
  | zero => exact absurd h (by simp [readItems])
  | succ n ih =>
    rw [readItems] at h
    by_cases hquote : s.head? = some '"'
    · rw [if_pos hquote] at h
      obtain ⟨rfl, rfl⟩ := Prod.mk.inj (Option.some.inj h)
      refine ⟨[], rfl, ?_, by simp⟩
      exact (List.cons_head?_tail hquote).symm
    rw [if_neg hquote] at h
    cases hitem : readItem s with
    | none => simp [hitem] at h
    | some p =>
      obtain ⟨item, s'⟩ := p
      simp only [hitem] at h
      obtain ⟨⟨items', rest'⟩, hitems, heq⟩ := Option.map_eq_some_iff.mp h
      obtain ⟨rfl, rfl⟩ := Prod.mk.inj heq
      obtain ⟨t, rfl, htext⟩ := readItem_sound hitem
      obtain ⟨pairs, rfl, rfl, hpairs⟩ := ih hitems
      refine ⟨(item, t) :: pairs, rfl, by simp, ?_⟩
      intro p hp
      rcases List.mem_cons.mp hp with rfl | hp
      · exact htext
      · exact hpairs p hp

/-! ## Atoms -/

theorem ne_of_isAtomChar {c d : Char} (h : isAtomChar c = true) (hd : isAtomChar d = false) :
    c ≠ d := by
  intro heq
  rw [heq, hd] at h
  exact absurd h (by simp)

theorem isWs_of_isAtomChar {c : Char} (h : isAtomChar c = true) : isWs c = false := by
  cases hws : isWs c with
  | false => rfl
  | true =>
    rw [isAtomChar_of_isWs hws] at h
    exact absurd h (by simp)

/-- A text with no other characters is read as an atom. -/
theorem readBare_atom (read : Text → Option (Value × Text)) (n : ℕ) (hne : t ≠ [])
    (h : ∀ c ∈ t, isAtomChar c = true) : readBare read n (t ++ rest) = readAtom (t ++ rest) := by
  cases t with
  | nil => exact absurd rfl hne
  | cons c t =>
    have hc := h c List.mem_cons_self
    have hquote : c ≠ '"' := ne_of_isAtomChar hc (by decide)
    have harr : c ≠ '[' := ne_of_isAtomChar hc (by decide)
    have hobj : c ≠ '{' := ne_of_isAtomChar hc (by decide)
    rw [List.cons_append]
    unfold readBare
    split
    · rename_i heq
      exact absurd (List.cons.inj heq).1 hquote
    · rename_i heq
      exact absurd (List.cons.inj heq).1 harr
    · rename_i heq
      exact absurd (List.cons.inj heq).1 hobj
    · rfl

theorem readValue_atom {v : Value} {n : ℕ} (hne : t ≠ []) (h : ∀ c ∈ t, isAtomChar c = true)
    (hread : readAtom (t ++ rest) = some (v, rest)) (hn : t.length < n) :
    readValue n (t ++ rest) = some (v, skipWs rest) := by
  obtain ⟨m, rfl⟩ : ∃ m, n = m + 1 := ⟨n - 1, by omega⟩
  have hskip : skipWs (t ++ rest) = t ++ rest := by
    cases t with
    | nil => exact absurd rfl hne
    | cons c t => exact skipWs_cons (isWs_of_isAtomChar (h c List.mem_cons_self))
  rw [readValue, hskip, readBare_atom _ _ hne h, hread]
  rfl

theorem ne_nil_of_isNumber (h : isNumber t = true) : t ≠ [] := by
  intro heq
  subst heq
  exact absurd h (by decide)

theorem readAtom_num (h : isNumber t = true) (hrest : Ends rest) :
    readAtom (t ++ rest) = some (.num t, rest) := by
  obtain ⟨htake, hdrop⟩ := takeWhile_atom (isAtomChar_of_isNumber h) hrest
  have hlit : ∀ word : Text, isNumber word = false → t ≠ word := by
    intro word hword heq
    rw [heq, hword] at h
    exact absurd h (by simp)
  unfold readAtom
  dsimp only
  rw [htake, hdrop, if_neg (hlit _ (by decide)), if_neg (hlit _ (by decide)),
    if_neg (hlit _ (by decide)), if_pos h]

/-! ## What the grammar has is read -/

theorem length_le_commaSep {texts : List Text} (h : t ∈ texts) :
    t.length ≤ (commaSep texts).length := by
  induction texts with
  | nil => exact absurd h (by simp)
  | cons u texts ih =>
    cases texts with
    | nil =>
      rw [List.mem_singleton.mp h]
      exact le_rfl
    | cons w texts =>
      simp only [commaSep, List.length_append, List.length_cons]
      rcases List.mem_cons.mp h with rfl | h
      · omega
      · have := ih h
        omega

theorem length_texts_le (texts : List Text) : texts.length ≤ (commaSep texts).length + 1 := by
  induction texts with
  | nil => simp
  | cons u texts ih =>
    cases texts with
    | nil => simp
    | cons w texts =>
      simp only [commaSep, List.length_append, List.length_cons] at ih ⊢
      omega

/-- The texts between commas are read one after the other. -/
theorem readElements_append {read : Text → Option (Value × Text)} {items : List (Value × Text)}
    (hne : items ≠ [])
    (h : ∀ p ∈ items, ∀ rest, Ends rest → read (p.2 ++ rest) = some (p.1, skipWs rest)) {n : ℕ}
    (hn : items.length ≤ n) :
    readElements read n (commaSep (items.map Prod.snd) ++ ']' :: rest)
      = some (items.map Prod.fst, rest) := by
  induction items generalizing n with
  | nil => exact absurd rfl hne
  | cons p items ih =>
    obtain ⟨m, rfl⟩ : ∃ m, n = m + 1 := ⟨n - 1, by simp at hn; omega⟩
    have hp := h p List.mem_cons_self
    cases items with
    | nil =>
      simp only [List.map_cons, List.map_nil, commaSep]
      rw [readElements, hp _ (ends_cons (by decide)), skipWs_cons (by decide)]
      simp
    | cons q items =>
      have hrest := ih (by simp) (fun r hr => h r (List.mem_cons_of_mem _ hr)) (n := m)
        (by simp at hn ⊢; omega)
      simp only [List.map_cons, commaSep, List.append_assoc, List.cons_append] at hrest ⊢
      rw [readElements, hp _ (ends_cons (by decide)), skipWs_cons (by decide)]
      simp [hrest]

theorem readMembers_append {read : Text → Option (Value × Text)}
    {members : List ((Text × Value) × (Text × Text))} (hne : members ≠ [])
    (hkey : ∀ m ∈ members, ∀ rest, Ends rest →
      read (m.2.1 ++ rest) = some (.str m.1.1, skipWs rest))
    (hvalue : ∀ m ∈ members, ∀ rest, Ends rest → read (m.2.2 ++ rest) = some (m.1.2, skipWs rest))
    {n : ℕ} (hn : members.length ≤ n) :
    readMembers read n (commaSep (members.map fun m => m.2.1 ++ ':' :: m.2.2) ++ '}' :: rest)
      = some (members.map Prod.fst, rest) := by
  induction members generalizing n with
  | nil => exact absurd rfl hne
  | cons p members ih =>
    obtain ⟨m, rfl⟩ : ∃ m, n = m + 1 := ⟨n - 1, by simp at hn; omega⟩
    have hk := hkey p List.mem_cons_self
    have hv := hvalue p List.mem_cons_self
    cases members with
    | nil =>
      simp only [List.map_cons, List.map_nil, commaSep, List.append_assoc, List.cons_append]
      rw [readMembers, hk _ (ends_cons (by decide)), skipWs_cons (by decide)]
      simp only
      rw [hv _ (ends_cons (by decide)), skipWs_cons (by decide)]
      simp
    | cons q members =>
      have hrest := ih (by simp) (fun r hr => hkey r (List.mem_cons_of_mem _ hr))
        (fun r hr => hvalue r (List.mem_cons_of_mem _ hr)) (n := m) (by simp at hn ⊢; omega)
      simp only [List.map_cons, commaSep, List.append_assoc, List.cons_append] at hrest ⊢
      rw [readMembers, hk _ (ends_cons (by decide)), skipWs_cons (by decide)]
      simp only
      rw [hv _ (ends_cons (by decide)), skipWs_cons (by decide)]
      simp [hrest]

/-- The first character of a value is not a bracket or brace that closes. -/
theorem JsonText.head {v : Value} (h : JsonText v t) :
    ∃ c, c ≠ ']' ∧ c ≠ '}' ∧ ∀ rest, (skipWs (t ++ rest)).head? = some c := by
  have hfirst : ∀ c : Char, ∀ t : Text, isWs c = false → c ≠ ']' → c ≠ '}' →
      ∃ d, d ≠ ']' ∧ d ≠ '}' ∧ ∀ rest, (skipWs (c :: t ++ rest)).head? = some d := by
    intro c t hws harr hobj
    refine ⟨c, harr, hobj, fun rest => ?_⟩
    rw [List.cons_append, skipWs_cons hws]
    rfl
  induction h with
  | litNull => exact hfirst 'n' _ (by decide) (by decide) (by decide)
  | litTrue => exact hfirst 't' _ (by decide) (by decide) (by decide)
  | litFalse => exact hfirst 'f' _ (by decide) (by decide) (by decide)
  | num hnum =>
    rename_i t
    have hall := isAtomChar_of_isNumber hnum
    cases t with
    | nil => exact absurd rfl (ne_nil_of_isNumber hnum)
    | cons c t =>
      have hc := hall c List.mem_cons_self
      exact hfirst c t (isWs_of_isAtomChar hc) (ne_of_isAtomChar hc (by decide))
        (ne_of_isAtomChar hc (by decide))
  | str => exact hfirst '"' _ (by decide) (by decide) (by decide)
  | emptyArr => exact hfirst '[' _ (by decide) (by decide) (by decide)
  | arr => exact hfirst '[' _ (by decide) (by decide) (by decide)
  | emptyObj => exact hfirst '{' _ (by decide) (by decide) (by decide)
  | obj => exact hfirst '{' _ (by decide) (by decide) (by decide)
  | pad hbefore _ _ ih =>
    obtain ⟨c, harr, hobj, hc⟩ := ih
    refine ⟨c, harr, hobj, fun rest => ?_⟩
    rw [List.append_assoc, List.append_assoc, skipWs_append hbefore]
    exact hc _

/-- **A text of the grammar is read, with what follows it left.** -/
theorem JsonText.readValue_append {v : Value} (h : JsonText v t) {n : ℕ} (hn : t.length < n)
    (hrest : Ends rest) : readValue n (t ++ rest) = some (v, skipWs rest) := by
  have hstep : ∀ {m : ℕ} {c : Char} {t rest : Text} {v : Value}, isWs c = false →
      readBare (readValue m) m (c :: t ++ rest) = some (v, rest) →
      readValue (m + 1) (c :: t ++ rest) = some (v, skipWs rest) := by
    intro m c t rest v hws hbare
    rw [readValue, List.cons_append, skipWs_cons hws, ← List.cons_append, hbare]
    rfl
  induction h generalizing n rest with
  | litNull =>
    have hatom : ∀ c ∈ "null".toList, isAtomChar c = true := List.all_eq_true.mp (by decide)
    obtain ⟨htake, hdrop⟩ := takeWhile_atom hatom hrest
    refine readValue_atom (by simp) hatom ?_ hn
    unfold readAtom
    dsimp only
    rw [htake, hdrop, if_pos rfl]
  | litTrue =>
    have hatom : ∀ c ∈ "true".toList, isAtomChar c = true := List.all_eq_true.mp (by decide)
    obtain ⟨htake, hdrop⟩ := takeWhile_atom hatom hrest
    refine readValue_atom (by simp) hatom ?_ hn
    unfold readAtom
    dsimp only
    rw [htake, hdrop, if_neg (by decide), if_pos rfl]
  | litFalse =>
    have hatom : ∀ c ∈ "false".toList, isAtomChar c = true := List.all_eq_true.mp (by decide)
    obtain ⟨htake, hdrop⟩ := takeWhile_atom hatom hrest
    refine readValue_atom (by simp) hatom ?_ hn
    unfold readAtom
    dsimp only
    rw [htake, hdrop, if_neg (by decide), if_neg (by decide), if_pos rfl]
  | num hnum =>
    exact readValue_atom (ne_nil_of_isNumber hnum) (isAtomChar_of_isNumber hnum)
      (readAtom_num hnum hrest) hn
  | str hitems =>
    rename_i items
    obtain ⟨m, rfl⟩ : ∃ m, n = m + 1 := ⟨n - 1, by omega⟩
    simp only [List.length_cons, List.length_append, List.length_nil] at hn
    apply hstep (by decide)
    rw [List.cons_append, List.append_assoc]
    unfold readBare
    simp only [List.singleton_append]
    rw [readItems_append hitems (by omega)]
    rfl
  | emptyArr hws =>
    obtain ⟨m, rfl⟩ : ∃ m, n = m + 1 := ⟨n - 1, by omega⟩
    apply hstep (by decide)
    rw [List.cons_append, List.append_assoc]
    unfold readBare
    simp only [List.singleton_append]
    rw [skipWs_append hws, skipWs_cons (by decide)]
    simp
  | arr hne hitems ih =>
    rename_i items
    obtain ⟨m, rfl⟩ : ∃ m, n = m + 1 := ⟨n - 1, by omega⟩
    simp only [List.length_cons, List.length_append, List.length_nil] at hn
    have hlen := length_texts_le (items.map Prod.snd)
    rw [List.length_map] at hlen
    apply hstep (by decide)
    rw [List.cons_append, List.append_assoc]
    unfold readBare
    simp only [List.singleton_append]
    have hhead : (skipWs (commaSep (items.map Prod.snd) ++ ']' :: rest)).head? ≠ some ']' := by
      cases items with
      | nil => exact absurd rfl hne
      | cons p items =>
        obtain ⟨c, harr, -, hc⟩ := (hitems p List.mem_cons_self).head
        cases items with
        | nil =>
          simp only [List.map_cons, List.map_nil, commaSep]
          rw [hc]
          simpa using harr
        | cons q items =>
          simp only [List.map_cons, commaSep, List.append_assoc]
          rw [hc]
          simpa using harr
    rw [if_neg hhead, readElements_append hne ?_ (by omega)]
    · rfl
    · intro p hp rest hrest
      have hle := length_le_commaSep (List.mem_map_of_mem (f := Prod.snd) hp)
      exact ih p hp (by omega) hrest
  | emptyObj hws =>
    obtain ⟨m, rfl⟩ : ∃ m, n = m + 1 := ⟨n - 1, by omega⟩
    apply hstep (by decide)
    rw [List.cons_append, List.append_assoc]
    unfold readBare
    simp only [List.singleton_append]
    rw [skipWs_append hws, skipWs_cons (by decide)]
    simp
  | obj hne hkey hvalue ihkey ihvalue =>
    rename_i members
    obtain ⟨m, rfl⟩ : ∃ m, n = m + 1 := ⟨n - 1, by omega⟩
    simp only [List.length_cons, List.length_append, List.length_nil] at hn
    have hlen := length_texts_le (members.map fun m => m.2.1 ++ ':' :: m.2.2)
    rw [List.length_map] at hlen
    apply hstep (by decide)
    rw [List.cons_append, List.append_assoc]
    unfold readBare
    simp only [List.singleton_append]
    have hhead : (skipWs (commaSep (members.map fun m => m.2.1 ++ ':' :: m.2.2) ++ '}' :: rest)).head?
        ≠ some '}' := by
      cases members with
      | nil => exact absurd rfl hne
      | cons p members =>
        obtain ⟨c, -, hobj, hc⟩ := (hkey p List.mem_cons_self).head
        cases members with
        | nil =>
          simp only [List.map_cons, List.map_nil, commaSep, List.append_assoc]
          rw [hc]
          simpa using hobj
        | cons q members =>
          simp only [List.map_cons, commaSep, List.append_assoc]
          rw [hc]
          simpa using hobj
    have hle : ∀ p ∈ members, p.2.1.length < m ∧ p.2.2.length < m := by
      intro p hp
      have hmem := List.mem_map_of_mem (f := fun m => m.2.1 ++ ':' :: m.2.2) hp
      have hle := length_le_commaSep hmem
      simp only [List.length_append, List.length_cons] at hle
      omega
    rw [if_neg hhead, readMembers_append hne ?_ ?_ (by omega)]
    · rfl
    · intro p hp rest hrest
      exact ihkey p hp (hle p hp).1 hrest
    · intro p hp rest hrest
      exact ihvalue p hp (hle p hp).2 hrest
  | pad hbefore hafter _ ih =>
    rename_i v before text after
    obtain ⟨m, rfl⟩ : ∃ m, n = m + 1 := ⟨n - 1, by omega⟩
    simp only [List.length_append] at hn
    have htext := ih (n := m + 1) (by omega) (hrest.append hafter)
    rw [skipWs_append hafter] at htext
    rw [List.append_assoc, List.append_assoc, readValue, skipWs_append hbefore]
    rw [readValue] at htext
    exact htext

/-! ## What is read is in the grammar -/

theorem split_skipWs (s : Text) : ∃ ws, s = ws ++ skipWs s ∧ ∀ c ∈ ws, isWs c = true :=
  ⟨s.takeWhile isWs, List.takeWhile_append_dropWhile.symm, fun _ => List.mem_takeWhile_imp⟩

theorem readAtom_sound {v : Value} (h : readAtom s = some (v, rest)) :
    ∃ t, s = t ++ rest ∧ JsonText v t := by
  have hsplit : s = s.takeWhile isAtomChar ++ s.dropWhile isAtomChar :=
    List.takeWhile_append_dropWhile.symm
  unfold readAtom at h
  dsimp only at h
  generalize s.takeWhile isAtomChar = word at h hsplit
  generalize s.dropWhile isAtomChar = rest' at h hsplit
  subst hsplit
  have hmk : ∀ {w : Value}, JsonText w word → some (w, rest') = some (v, rest) →
      ∃ t, word ++ rest' = t ++ rest ∧ JsonText v t := by
    intro w hw heq
    obtain ⟨rfl, rfl⟩ := Prod.mk.inj (Option.some.inj heq)
    exact ⟨word, rfl, hw⟩
  by_cases hnull : word = "null".toList
  · rw [if_pos hnull] at h
    exact hmk (hnull ▸ .litNull) h
  rw [if_neg hnull] at h
  by_cases htrue : word = "true".toList
  · rw [if_pos htrue] at h
    exact hmk (htrue ▸ .litTrue) h
  rw [if_neg htrue] at h
  by_cases hfalse : word = "false".toList
  · rw [if_pos hfalse] at h
    exact hmk (hfalse ▸ .litFalse) h
  rw [if_neg hfalse] at h
  by_cases hnum : isNumber word = true
  · rw [if_pos hnum] at h
    exact hmk (.num hnum) h
  · rw [if_neg hnum] at h
    exact absurd h (by simp)

section Sound

variable {read : Text → Option (Value × Text)} {n : ℕ}

theorem readElements_sound
    (hread : ∀ {s v rest}, read s = some (v, rest) → ∃ t, s = t ++ rest ∧ JsonText v t)
    {vs : List Value} (h : readElements read n s = some (vs, rest)) :
    ∃ items : List (Value × Text), items ≠ [] ∧ vs = items.map Prod.fst ∧
      s = commaSep (items.map Prod.snd) ++ ']' :: rest ∧ ∀ p ∈ items, JsonText p.1 p.2 := by
  induction n generalizing s vs with
  | zero => exact absurd h (by simp [readElements])
  | succ n ih =>
    rw [readElements] at h
    split at h
    · rename_i v c s' hv
      obtain ⟨t, rfl, ht⟩ := hread hv
      by_cases hcomma : c = ','
      · rw [if_pos hcomma] at h
        obtain ⟨⟨vs', rest'⟩, hvs, heq⟩ := Option.map_eq_some_iff.mp h
        obtain ⟨rfl, rfl⟩ := Prod.mk.inj heq
        obtain ⟨items, hne, rfl, rfl, hitems⟩ := ih hvs
        refine ⟨(v, t) :: items, by simp, rfl, ?_, ?_⟩
        · cases items with
          | nil => exact absurd rfl hne
          | cons p items => simp [commaSep, hcomma]
        · intro p hp
          rcases List.mem_cons.mp hp with rfl | hp
          · exact ht
          · exact hitems p hp
      rw [if_neg hcomma] at h
      by_cases hclose : c = ']'
      · rw [if_pos hclose] at h
        obtain ⟨rfl, rfl⟩ := Prod.mk.inj (Option.some.inj h)
        exact ⟨[(v, t)], by simp, rfl, by simp [commaSep, hclose], by simpa using ht⟩
      · rw [if_neg hclose] at h
        exact absurd h (by simp)
    · exact absurd h (by simp)

theorem readMembers_sound
    (hread : ∀ {s v rest}, read s = some (v, rest) → ∃ t, s = t ++ rest ∧ JsonText v t)
    {ms : List (Text × Value)} (h : readMembers read n s = some (ms, rest)) :
    ∃ members : List ((Text × Value) × (Text × Text)), members ≠ [] ∧ ms = members.map Prod.fst ∧
      s = commaSep (members.map fun m => m.2.1 ++ ':' :: m.2.2) ++ '}' :: rest ∧
      (∀ m ∈ members, JsonText (.str m.1.1) m.2.1) ∧ ∀ m ∈ members, JsonText m.1.2 m.2.2 := by
  induction n generalizing s ms with
  | zero => exact absurd h (by simp [readMembers])
  | succ n ih =>
    rw [readMembers] at h
    split at h
    · rename_i key s' hk
      obtain ⟨k, rfl, hkey⟩ := hread hk
      split at h
      · rename_i v c s'' hv
        obtain ⟨t, rfl, ht⟩ := hread hv
        by_cases hcomma : c = ','
        · rw [if_pos hcomma] at h
          obtain ⟨⟨ms', rest'⟩, hms, heq⟩ := Option.map_eq_some_iff.mp h
          obtain ⟨rfl, rfl⟩ := Prod.mk.inj heq
          obtain ⟨members, hne, rfl, rfl, hkeys, hvalues⟩ := ih hms
          refine ⟨((key, v), (k, t)) :: members, by simp, rfl, ?_, ?_, ?_⟩
          · cases members with
            | nil => exact absurd rfl hne
            | cons p members => simp [commaSep, hcomma]
          · intro p hp
            rcases List.mem_cons.mp hp with rfl | hp
            · exact hkey
            · exact hkeys p hp
          · intro p hp
            rcases List.mem_cons.mp hp with rfl | hp
            · exact ht
            · exact hvalues p hp
        rw [if_neg hcomma] at h
        by_cases hclose : c = '}'
        · rw [if_pos hclose] at h
          obtain ⟨rfl, rfl⟩ := Prod.mk.inj (Option.some.inj h)
          exact ⟨[((key, v), (k, t))], by simp, rfl, by simp [commaSep, hclose], by simpa using hkey,
            by simpa using ht⟩
        · rw [if_neg hclose] at h
          exact absurd h (by simp)
      · exact absurd h (by simp)
    · exact absurd h (by simp)

theorem readBare_sound
    (hread : ∀ {s v rest}, read s = some (v, rest) → ∃ t, s = t ++ rest ∧ JsonText v t)
    {v : Value} (h : readBare read n s = some (v, rest)) : ∃ t, s = t ++ rest ∧ JsonText v t := by
  have hempty : ∀ {close : Char}, ∀ s : Text, (skipWs s).head? = some close →
      ∃ ws, s = ws ++ close :: (skipWs s).tail ∧ ∀ c ∈ ws, isWs c = true := by
    intro close s hclose
    obtain ⟨ws, hs, hws⟩ := split_skipWs s
    exact ⟨ws, by rw [List.cons_head?_tail hclose, ← hs], hws⟩
  unfold readBare at h
  split at h
  · rename_i s
    obtain ⟨⟨items, rest'⟩, hitems, heq⟩ := Option.map_eq_some_iff.mp h
    obtain ⟨rfl, rfl⟩ := Prod.mk.inj heq
    obtain ⟨pairs, rfl, rfl, hpairs⟩ := readItems_sound hitems
    exact ⟨_, by simp, .str hpairs⟩
  · rename_i s
    by_cases hclose : (skipWs s).head? = some ']'
    · rw [if_pos hclose] at h
      obtain ⟨rfl, rfl⟩ := Prod.mk.inj (Option.some.inj h)
      obtain ⟨ws, hs, hws⟩ := hempty s hclose
      exact ⟨'[' :: (ws ++ [']']), by simp [← hs], .emptyArr hws⟩
    · rw [if_neg hclose] at h
      obtain ⟨⟨vs, rest'⟩, hvs, heq⟩ := Option.map_eq_some_iff.mp h
      obtain ⟨rfl, rfl⟩ := Prod.mk.inj heq
      obtain ⟨items, hne, rfl, rfl, hitems⟩ := readElements_sound hread hvs
      exact ⟨_, by simp, .arr hne hitems⟩
  · rename_i s
    by_cases hclose : (skipWs s).head? = some '}'
    · rw [if_pos hclose] at h
      obtain ⟨rfl, rfl⟩ := Prod.mk.inj (Option.some.inj h)
      obtain ⟨ws, hs, hws⟩ := hempty s hclose
      exact ⟨'{' :: (ws ++ ['}']), by simp [← hs], .emptyObj hws⟩
    · rw [if_neg hclose] at h
      obtain ⟨⟨ms, rest'⟩, hms, heq⟩ := Option.map_eq_some_iff.mp h
      obtain ⟨rfl, rfl⟩ := Prod.mk.inj heq
      obtain ⟨members, hne, rfl, rfl, hkeys, hvalues⟩ := readMembers_sound hread hms
      exact ⟨_, by simp, .obj hne hkeys hvalues⟩
  · exact readAtom_sound h

end Sound

/-- **What is read is a text of the grammar.** -/
theorem readValue_sound {n : ℕ} {v : Value} (h : readValue n s = some (v, rest)) :
    ∃ t, s = t ++ rest ∧ JsonText v t := by
  induction n generalizing s v rest with
  | zero => exact absurd h (by simp [readValue])
  | succ n ih =>
    rw [readValue] at h
    obtain ⟨⟨v', rest'⟩, hbare, heq⟩ := Option.map_eq_some_iff.mp h
    obtain ⟨rfl, rfl⟩ := Prod.mk.inj heq
    obtain ⟨t, ht, htext⟩ := readBare_sound ih hbare
    obtain ⟨before, hs, hbefore⟩ := split_skipWs s
    obtain ⟨after, hrest, hafter⟩ := split_skipWs rest'
    refine ⟨before ++ t ++ after, ?_, .pad hbefore hafter htext⟩
    rw [List.append_assoc, List.append_assoc, ← hrest, ← ht, ← hs]

/-! ## Whole texts -/

/-- **The reader knows the grammar.** -/
theorem readJson_eq_some_iff {v : Value} : readJson t = some v ↔ JsonText v t := by
  unfold readJson
  constructor
  · intro h
    split at h
    · rename_i w hread
      rw [← Option.some.inj h]
      obtain ⟨t', ht, htext⟩ := readValue_sound hread
      rw [ht, List.append_nil]
      exact htext
    · exact absurd h (by simp)
  · intro h
    have hread := @JsonText.readValue_append t [] v h (t.length + 1) (Nat.lt_succ_self _) ends_nil
    rw [List.append_nil] at hread
    rw [hread]
    rfl

/-- **A text has one value.** -/
theorem JsonText.unique {v w : Value} (h : JsonText v t) (h' : JsonText w t) : v = w := by
  rw [← readJson_eq_some_iff] at h h'
  exact Option.some.inj (h.symm.trans h')

theorem isJson_iff : IsJson t ↔ (readJson t).isSome = true := by
  rw [Option.isSome_iff_exists]
  exact exists_congr fun _ => readJson_eq_some_iff.symm

instance (t : Text) : Decidable (IsJson t) := decidable_of_iff _ isJson_iff.symm

/-! ## Texts without blanks -/

/-- A string that needs no escapes. -/
def IsPlain (s : Text) : Prop := ∀ c ∈ s, ' ' ≤ c ∧ c ≠ '"' ∧ c ≠ '\\'

instance (s : Text) : Decidable (IsPlain s) :=
  decidable_of_iff (s.all (fun c => ' ' ≤ c ∧ c ≠ '"' ∧ c ≠ '\\') = true) (by simp [IsPlain])

theorem decode_char (s : Text) : decode (s.map Item.char) = s := by
  induction s with
  | nil => rfl
  | cons c s ih => rw [List.map_cons, decode, ih]

theorem flatten_singletons (s : Text) : (s.map fun c => [c]).flatten = s := by
  induction s with
  | nil => rfl
  | cons c s ih => rw [List.map_cons, List.flatten_cons, ih, List.singleton_append]

theorem jsonText_plain (h : IsPlain s) : JsonText (.str s) ('"' :: (s ++ ['"'])) := by
  have hitems : ∀ p ∈ s.map fun c => (Item.char c, [c]), ItemText p.1 p.2 := by
    intro p hp
    obtain ⟨c, hc, rfl⟩ := List.mem_map.mp hp
    obtain ⟨hle, hquote, hslash⟩ := h c hc
    exact .raw hle hquote hslash
  have hstr := JsonText.str hitems
  rw [List.map_map, List.map_map] at hstr
  have htext : (s.map (Prod.snd ∘ fun c => (Item.char c, [c]))).flatten = s := flatten_singletons s
  have hvalue : decode (s.map (Prod.fst ∘ fun c => (Item.char c, [c]))) = s := decode_char s
  rwa [htext, hvalue] at hstr

/-- The text of an array, from those of its elements. -/
def arrText (texts : List Text) : Text := '[' :: (commaSep texts ++ [']'])

theorem jsonText_arr {items : List (Value × Text)} (h : ∀ p ∈ items, JsonText p.1 p.2) :
    JsonText (.arr (items.map Prod.fst)) (arrText (items.map Prod.snd)) := by
  cases items with
  | nil => exact @JsonText.emptyArr [] (by simp)
  | cons p items => exact .arr (by simp) h

theorem isJson_arr {texts : List Text} (h : ∀ t ∈ texts, IsJson t) : IsJson (arrText texts) := by
  have hvalues : ∃ items : List (Value × Text), items.map Prod.snd = texts ∧
      ∀ p ∈ items, JsonText p.1 p.2 := by
    induction texts with
    | nil => exact ⟨[], rfl, by simp⟩
    | cons t texts ih =>
      obtain ⟨v, hv⟩ := h t List.mem_cons_self
      obtain ⟨items, rfl, hitems⟩ := ih fun t ht => h t (List.mem_cons_of_mem _ ht)
      refine ⟨(v, t) :: items, rfl, fun p hp => ?_⟩
      rcases List.mem_cons.mp hp with rfl | hp
      · exact hv
      · exact hitems p hp
  obtain ⟨items, rfl, hitems⟩ := hvalues
  exact ⟨_, jsonText_arr hitems⟩

/-- The text of an object, from its names and the texts of its members. -/
def objText (members : List (Text × Text)) : Text :=
  '{' :: (commaSep (members.map fun m => '"' :: (m.1 ++ '"' :: ':' :: m.2)) ++ ['}'])

/-- Names without escapes, each with a value and a text of it. -/
def MembersOk : List (Text × Value × Text) → Prop
  | [] => True
  | (name, value, text) :: members => IsPlain name ∧ JsonText value text ∧ MembersOk members

theorem MembersOk.mem {members : List (Text × Value × Text)} (h : MembersOk members) :
    ∀ m ∈ members, IsPlain m.1 ∧ JsonText m.2.1 m.2.2 := by
  induction members with
  | nil => simp
  | cons p members ih =>
    obtain ⟨hplain, htext, hrest⟩ := h
    intro m hm
    rcases List.mem_cons.mp hm with rfl | hm
    · exact ⟨hplain, htext⟩
    · exact ih hrest m hm

theorem MembersOk.of_mem {members : List (Text × Value × Text)}
    (h : ∀ m ∈ members, IsPlain m.1 ∧ JsonText m.2.1 m.2.2) : MembersOk members := by
  induction members with
  | nil => trivial
  | cons m members ih =>
    have hm := h m List.mem_cons_self
    exact ⟨hm.1, hm.2, ih fun p hp => h p (List.mem_cons_of_mem _ hp)⟩

theorem MembersOk.append {members members' : List (Text × Value × Text)} (h : MembersOk members)
    (h' : MembersOk members') : MembersOk (members ++ members') := by
  induction members with
  | nil => exact h'
  | cons p members ih =>
    obtain ⟨hplain, htext, hrest⟩ := h
    exact ⟨hplain, htext, ih hrest⟩

theorem jsonText_obj {members : List (Text × Value × Text)} (hne : members ≠ [])
    (h : MembersOk members) :
    JsonText (.obj (members.map fun m => (m.1, m.2.1))) (objText (members.map fun m => (m.1, m.2.2))) := by
  have hobj := @JsonText.obj
    (members.map fun m => ((m.1, m.2.1), ('"' :: (m.1 ++ ['"']), m.2.2)))
    (by simpa using hne)
    (by
      intro p hp
      obtain ⟨m, hm, rfl⟩ := List.mem_map.mp hp
      exact jsonText_plain (h.mem m hm).1)
    (by
      intro p hp
      obtain ⟨m, hm, rfl⟩ := List.mem_map.mp hp
      exact (h.mem m hm).2)
  rw [List.map_map, List.map_map] at hobj
  have htexts : (members.map ((fun m : (Text × Value) × (Text × Text) => m.2.1 ++ ':' :: m.2.2) ∘
      fun m => ((m.1, m.2.1), ('"' :: (m.1 ++ ['"']), m.2.2))))
      = (members.map fun m => (m.1, m.2.2)).map fun m => '"' :: (m.1 ++ '"' :: ':' :: m.2) := by
    rw [List.map_map]
    refine List.map_congr_left fun m _ => ?_
    simp
  rw [htexts] at hobj
  exact hobj

/-- Digits, and a fraction or an exponent behind them. -/
theorem isNumber_append {ds : Text} (hds : ∀ c ∈ ds, c.isDigit = true) (hint : isInt ds = true)
    (ht : isFracExp t = true) (hhead : ∀ c, t.head? = some c → c.isDigit = false) :
    isNumber (ds ++ t) = true := by
  cases ds with
  | nil => exact absurd hint (by decide)
  | cons d ds =>
    have hminus : d ≠ '-' := by
      intro heq
      have hd := hds d List.mem_cons_self
      rw [heq] at hd
      exact absurd hd (by decide)
    have hdrop : dropMinus (d :: ds ++ t) = d :: ds ++ t := by
      unfold dropMinus
      split
      · rename_i heq
        exact absurd (List.cons.inj heq).1 hminus
      · rfl
    have htake : t.takeWhile Char.isDigit = [] ∧ t.dropWhile Char.isDigit = t := by
      cases t with
      | nil => exact ⟨rfl, rfl⟩
      | cons c t => simp [hhead c rfl]
    unfold isNumber
    rw [hdrop, List.takeWhile_append_of_pos hds, List.dropWhile_append_of_pos hds, htake.1, htake.2,
      List.append_nil, hint, ht]
    rfl

/-! ## The members of an object -/

theorem readBare_bracket (read : Text → Option (Value × Text)) (n : ℕ) (s : Text) :
    readBare read n ('[' :: s) =
      if (skipWs s).head? = some ']' then some (.arr [], (skipWs s).tail)
      else (readElements read n s).map fun (vs, s) => (.arr vs, s) := rfl

theorem readBare_brace (read : Text → Option (Value × Text)) (n : ℕ) (s : Text) :
    readBare read n ('{' :: s) =
      if (skipWs s).head? = some '}' then some (.obj [], (skipWs s).tail)
      else (readMembers read n s).map fun (ms, s) => (.obj ms, s) := rfl

theorem readMembers_name {name : Text} (hname : IsPlain name) {m : ℕ} (hm : name.length + 2 < m)
    (s : Text) : readValue m ('"' :: (name ++ '"' :: ':' :: s)) = some (.str name, ':' :: s) := by
  have hread := @(jsonText_plain hname).readValue_append _ (':' :: s) _ m (by simpa using hm)
    (ends_cons rfl)
  rw [skipWs_cons rfl] at hread
  simpa using hread

/-- The members of a text that is an object. -/
theorem readMembers_of_isJson (hfirst : (skipWs t).head? ≠ some '}') (h : IsJson ('{' :: t)) :
    ∃ ms after, readMembers (readValue (t.length + 1)) (t.length + 1) t = some (ms, after) ∧
      ∀ c ∈ after, isWs c = true := by
  rw [isJson_iff, readJson, List.length_cons, readValue, skipWs_cons rfl, readBare_brace,
    if_neg hfirst] at h
  cases hread : readMembers (readValue (t.length + 1)) (t.length + 1) t with
  | none =>
    rw [hread] at h
    exact absurd h (by simp)
  | some p =>
    refine ⟨p.1, p.2, rfl, ?_⟩
    rw [hread] at h
    cases hskip : skipWs p.2 with
    | nil => exact List.dropWhile_eq_nil_iff.mp hskip
    | cons c rest => simp [hskip] at h

/-! ## A missing element -/

/-- No value starts with a comma or a bracket that closes an array. -/
theorem readValue_eq_none {c : Char} (hc : c = ',' ∨ c = ']') (n : ℕ) (s : Text) :
    readValue n (c :: s) = none := by
  cases n with
  | zero => rfl
  | succ n =>
    have hskip : skipWs (c :: s) = c :: s := skipWs_cons (by rcases hc with rfl | rfl <;> decide)
    have hword : (c :: s).takeWhile isAtomChar = [] :=
      List.takeWhile_cons_of_neg (by rcases hc with rfl | rfl <;> decide)
    have hatom : readAtom (c :: s) = none := by
      unfold readAtom
      rw [hword]
      rfl
    have hbare : readBare (readValue n) n (c :: s) = readAtom (c :: s) := by
      rcases hc with rfl | rfl <;> rfl
    rw [readValue, hskip, hbare, hatom]
    rfl

theorem readElements_missing {texts : List Text} (h : ∀ t ∈ texts, t = [] ∨ IsJson t)
    (hmem : [] ∈ texts) {m : ℕ} (hm : ∀ t ∈ texts, t.length < m) (n : ℕ) :
    readElements (readValue m) n (commaSep texts ++ ']' :: rest) = none := by
  induction texts generalizing n with
  | nil => exact absurd hmem (by simp)
  | cons t texts ih =>
    cases n with
    | zero => rfl
    | succ n =>
      rcases h t List.mem_cons_self with rfl | ⟨v, hv⟩
      · have hnone : readValue m (commaSep ([] :: texts) ++ ']' :: rest) = none := by
          cases texts with
          | nil => exact readValue_eq_none (.inr rfl) ..
          | cons u texts => exact readValue_eq_none (.inl rfl) ..
        rw [readElements, hnone]
      · have hread := fun rest => @hv.readValue_append t rest v m (hm t List.mem_cons_self)
        have hne : t ≠ [] := by
          intro hnil
          subst hnil
          obtain ⟨c, -, -, hc⟩ := hv.head
          exact absurd (hc []) (by simp [skipWs])
        have htexts : [] ∈ texts := (List.mem_cons.mp hmem).resolve_left hne.symm
        cases texts with
        | nil => exact absurd htexts (by simp)
        | cons u texts =>
          have hrest := ih (fun t ht => h t (List.mem_cons_of_mem _ ht)) htexts
            (fun t ht => hm t (List.mem_cons_of_mem _ ht)) n
          rw [commaSep, List.append_assoc, List.cons_append, readElements, hread _ (ends_cons rfl),
            skipWs_cons rfl]
          simp [hrest]

/-- An array of several texts, one of them empty, is not JSON, whatever follows it. -/
theorem readValue_missing {texts : List Text} (h : ∀ t ∈ texts, t = [] ∨ IsJson t)
    (hmem : [] ∈ texts) (hlen : 2 ≤ texts.length) {m : ℕ} (hm : (arrText texts).length ≤ m) :
    readValue m (arrText texts ++ rest) = none := by
  cases m with
  | zero => rfl
  | succ m =>
    simp only [arrText, List.length_cons, List.length_append, List.length_nil] at hm
    have helements : readElements (readValue m) m (commaSep texts ++ ']' :: rest) = none := by
      refine readElements_missing h hmem ?_ m
      intro t ht
      have hle := length_le_commaSep ht
      omega
    have hhead : (skipWs (commaSep texts ++ ']' :: rest)).head? ≠ some ']' := by
      match texts, hlen with
      | t :: u :: texts, _ =>
        rw [commaSep, List.append_assoc]
        rcases h t List.mem_cons_self with rfl | ⟨v, hv⟩
        · rw [List.nil_append, List.cons_append, skipWs_cons rfl]
          simp
        · obtain ⟨c, hc, -, hhead⟩ := hv.head
          rw [hhead]
          simpa using hc
    have hbare : readBare (readValue m) m ('[' :: (commaSep texts ++ ']' :: rest)) = none := by
      rw [readBare_bracket, if_neg hhead, helements]
      rfl
    have htext : arrText texts ++ rest = '[' :: (commaSep texts ++ ']' :: rest) := by
      simp [arrText]
    rw [htext, readValue, skipWs_cons rfl, hbare]
    rfl

/-- Such an array is not the first member of an object. -/
theorem not_isJson_missing {name : Text} (hname : IsPlain name) {texts : List Text}
    (h : ∀ t ∈ texts, t = [] ∨ IsJson t) (hmem : [] ∈ texts) (hlen : 2 ≤ texts.length) :
    ¬ IsJson ('{' :: '"' :: (name ++ '"' :: ':' :: (arrText texts ++ rest))) := by
  intro hjson
  have hfirst : (skipWs ('"' :: (name ++ '"' :: ':' :: (arrText texts ++ rest)))).head? ≠
      some '}' := by
    rw [skipWs_cons rfl]
    simp
  obtain ⟨ms, after, hread, -⟩ := readMembers_of_isJson hfirst hjson
  generalize hm : ('"' :: (name ++ '"' :: ':' :: (arrText texts ++ rest))).length + 1 = m at hread
  simp only [List.length_cons, List.length_append] at hm
  obtain ⟨n, rfl⟩ : ∃ n, m = n + 1 := ⟨m - 1, by omega⟩
  have hvalue := @readValue_missing rest texts h hmem hlen (n + 1) (by omega)
  rw [readMembers, readMembers_name hname (by omega)] at hread
  simp [hvalue] at hread

/-! ## A text between quotes -/

/-- Put between the last quotes of an object, the text leaves an object: it is the inside of a
string, or it ends the string and goes on with members up to the inside of another string. -/
def FillsQuotes (s : Text) : Prop :=
  ∃ (v : Value) (t : Text) (members : List ((Text × Value) × (Text × Text))),
    '"' :: (s ++ ['"']) = commaSep (t :: members.map fun m => m.2.1 ++ ':' :: m.2.2) ∧
    JsonText v t ∧ (∀ m ∈ members, JsonText (.str m.1.1) m.2.1) ∧
    ∀ m ∈ members, JsonText m.1.2 m.2.2

/-- The text of a member. -/
def memberText (m : Text × Text) : Text := '"' :: (m.1 ++ '"' :: ':' :: m.2)

/-- Members that are known are read. -/
theorem readMembers_known {before : List (Text × Value × Text)} (h : MembersOk before) {m : ℕ}
    (hm : ∀ p ∈ before, p.1.length + 2 < m ∧ p.2.2.length < m) (n : ℕ) (last : Text) :
    readMembers (readValue m) (before.length + n)
        (commaSep ((before.map fun p => memberText (p.1, p.2.2)) ++ [last]) ++ rest) =
      (readMembers (readValue m) n (last ++ rest)).map fun (ms, s) =>
        (before.map (fun p => (p.1, p.2.1)) ++ ms, s) := by
  induction before with
  | nil => simp [commaSep]
  | cons p before ih =>
    obtain ⟨name, v, t⟩ := p
    obtain ⟨hname, ht, hbefore⟩ := h
    obtain ⟨hlen, hlen'⟩ := hm _ List.mem_cons_self
    have hrest := ih hbefore fun p hp => hm p (List.mem_cons_of_mem _ hp)
    obtain ⟨u, us, hus⟩ := List.exists_cons_of_ne_nil
      (show (before.map fun p => memberText (p.1, p.2.2)) ++ [last] ≠ [] by simp)
    rw [hus] at hrest
    have hvalue := @ht.readValue_append _ (',' :: (commaSep (u :: us) ++ rest)) _ m hlen'
      (ends_cons rfl)
    rw [skipWs_cons rfl] at hvalue
    have htext : commaSep (memberText (name, t) :: u :: us) ++ rest =
        '"' :: (name ++ '"' :: ':' :: (t ++ ',' :: (commaSep (u :: us) ++ rest))) := by
      simp [commaSep, memberText]
    rw [List.map_cons, List.cons_append, hus, htext, List.length_cons, Nat.add_right_comm]
    simp only [readMembers, readMembers_name hname hlen, hvalue, hrest]
    cases readMembers (readValue m) n (last ++ rest) <;> rfl

theorem objText_eq (members : List (Text × Text)) :
    objText members = '{' :: (commaSep (members.map memberText) ++ ['}']) := rfl

theorem commaSep_cons_append (p t : Text) (ts : List Text) :
    commaSep ((p ++ t) :: ts) = p ++ commaSep (t :: ts) := by
  cases ts with
  | nil => rfl
  | cons u ts => rw [commaSep, commaSep, List.append_assoc]

/-- Texts at the end can be put together first. -/
theorem commaSep_append (us : List Text) (t : Text) (ts : List Text) :
    commaSep (us ++ t :: ts) = commaSep (us ++ [commaSep (t :: ts)]) := by
  induction us with
  | nil => rfl
  | cons u us ih =>
    cases us with
    | nil => rfl
    | cons w us =>
      simp only [List.cons_append] at ih ⊢
      rw [commaSep, commaSep, ih]

/-- The end of an object, behind the text that is between quotes. -/
theorem eq_of_append_brace {x y after : Text} (h : x ++ ['}'] = y ++ '}' :: after)
    (hafter : ∀ c ∈ after, isWs c = true) : x = y := by
  cases after using List.reverseRecOn with
  | nil => exact List.append_cancel_right h
  | append_singleton after c =>
    have hlast : '}' = c := by
      have hlast := congrArg List.getLast? h
      rw [← List.cons_append, ← List.append_assoc, List.getLast?_concat, List.getLast?_concat] at hlast
      exact Option.some.inj hlast
    exact absurd (hafter c (by simp)) (by rw [← hlast]; decide)

/-- What is read behind a name is there. -/
theorem readMembers_value {name : Text} (hname : IsPlain name) {m : ℕ} (hm : name.length + 2 < m)
    {n : ℕ} {ms : List (Text × Value)}
    (h : readMembers (readValue m) (n + 1) ('"' :: (name ++ '"' :: ':' :: s)) = some (ms, rest)) :
    ∃ (v : Value) (t : Text) (members : List ((Text × Value) × (Text × Text))),
      s = commaSep (t :: members.map fun m => m.2.1 ++ ':' :: m.2.2) ++ '}' :: rest ∧
      JsonText v t ∧ (∀ m ∈ members, JsonText (.str m.1.1) m.2.1) ∧
      ∀ m ∈ members, JsonText m.1.2 m.2.2 := by
  rw [readMembers, readMembers_name hname hm] at h
  cases hread : readValue m s with
  | none => simp [hread] at h
  | some p =>
    obtain ⟨v, tail⟩ := p
    obtain ⟨t, hsplit, hv⟩ := readValue_sound hread
    cases tail with
    | nil => simp [hread] at h
    | cons c tail =>
      simp only [hread] at h
      by_cases hcomma : c = ','
      · rw [if_pos hcomma] at h
        obtain ⟨⟨ms', rest'⟩, hms, heq⟩ := Option.map_eq_some_iff.mp h
        obtain ⟨-, rfl⟩ := Prod.mk.inj heq
        obtain ⟨members, hne, -, rfl, hkeys, hvalues⟩ := readMembers_sound readValue_sound hms
        refine ⟨v, t, members, ?_, hv, hkeys, hvalues⟩
        cases members with
        | nil => exact absurd rfl hne
        | cons p members => rw [hsplit, hcomma, List.map_cons, commaSep, List.append_assoc]; rfl
      rw [if_neg hcomma] at h
      by_cases hclose : c = '}'
      · rw [if_pos hclose] at h
        obtain ⟨-, rfl⟩ := Prod.mk.inj (Option.some.inj h)
        exact ⟨v, t, [], by rw [hsplit, hclose]; rfl, hv, by simp, by simp⟩
      · rw [if_neg hclose] at h
        exact absurd h (by simp)

/-- **An object that ends with a text between quotes.** -/
theorem isJson_fill {before : List (Text × Value × Text)} (h : MembersOk before) {name : Text}
    (hname : IsPlain name) : IsJson (objText ((before.map fun p => (p.1, p.2.2)) ++
      [(name, '"' :: (s ++ ['"']))])) ↔ FillsQuotes s := by
  have hmap : ((before.map fun p => (p.1, p.2.2)) ++ [(name, '"' :: (s ++ ['"']))]).map memberText =
      (before.map fun p => memberText (p.1, p.2.2)) ++ [memberText (name, '"' :: (s ++ ['"']))] := by
    rw [List.map_append, List.map_map]
    rfl
  rw [objText_eq, hmap]
  constructor
  · intro hjson
    generalize htext : commaSep ((before.map fun p => memberText (p.1, p.2.2)) ++
      [memberText (name, '"' :: (s ++ ['"']))]) ++ ['}'] = text at hjson
    have hlen : ∀ u ∈ (before.map fun p => memberText (p.1, p.2.2)) ++
        [memberText (name, '"' :: (s ++ ['"']))], u.length < text.length := by
      intro u hu
      have hle := length_le_commaSep hu
      rw [← htext, List.length_append, List.length_singleton]
      omega
    have hcount : before.length < text.length := by
      have hle := length_texts_le ((before.map fun p => memberText (p.1, p.2.2)) ++
        [memberText (name, '"' :: (s ++ ['"']))])
      rw [List.length_append, List.length_map, List.length_singleton] at hle
      rw [← htext, List.length_append, List.length_singleton]
      omega
    have hbefore : ∀ p ∈ before, p.1.length + 2 < text.length + 1 ∧ p.2.2.length < text.length + 1 := by
      intro p hp
      have hle := hlen _ (List.mem_append_left _ (List.mem_map_of_mem hp))
      simp only [memberText, List.length_cons, List.length_append] at hle
      omega
    have hname' : name.length + 2 < text.length + 1 := by
      have hle := hlen _ (List.mem_append_right _ (List.mem_singleton_self _))
      simp only [memberText, List.length_cons, List.length_append] at hle
      omega
    have hfirst : (skipWs text).head? = some '"' := by
      rw [← htext]
      cases before with
      | nil => simp [commaSep, memberText, skipWs_cons (c := '"') rfl]
      | cons p before =>
        obtain ⟨u, us, hus⟩ := List.exists_cons_of_ne_nil
          (show (before.map fun p => memberText (p.1, p.2.2)) ++
            [memberText (name, '"' :: (s ++ ['"']))] ≠ [] by simp)
        rw [List.map_cons, List.cons_append, hus, commaSep, memberText, List.cons_append,
          List.cons_append, skipWs_cons rfl]
        rfl
    obtain ⟨ms, after, hread, hafter⟩ := readMembers_of_isJson (by simp [hfirst]) hjson
    obtain ⟨m, hm⟩ : ∃ m, text.length + 1 = m := ⟨_, rfl⟩
    obtain ⟨n, hn⟩ : ∃ n, before.length + (n + 1) = m := ⟨text.length - before.length, by omega⟩
    rw [hm] at hbefore hname' hread
    have hknown := @readMembers_known ['}'] before h m hbefore (n + 1)
      (memberText (name, '"' :: (s ++ ['"'])))
    have hlast : memberText (name, '"' :: (s ++ ['"'])) ++ ['}'] =
        '"' :: (name ++ '"' :: ':' :: ('"' :: (s ++ ['"']) ++ ['}'])) := by
      simp [memberText]
    rw [htext, hn, hread, hlast] at hknown
    obtain ⟨⟨ms', after'⟩, hread', heq⟩ := Option.map_eq_some_iff.mp hknown.symm
    obtain ⟨-, rfl⟩ := Prod.mk.inj heq
    obtain ⟨v, t, members, hsplit, hok⟩ := readMembers_value hname hname' hread'
    exact ⟨v, t, members, eq_of_append_brace hsplit hafter, hok⟩
  · rintro ⟨v, t, members, htext, hv, hkeys, hvalues⟩
    have hobj := @JsonText.obj
      ((before.map fun p => ((p.1, p.2.1), ('"' :: (p.1 ++ ['"']), p.2.2))) ++
        ((name, v), ('"' :: (name ++ ['"']), t)) :: members) (by simp)
      (by
        intro q hq
        rcases List.mem_append.mp hq with hq | hq
        · obtain ⟨p, hp, rfl⟩ := List.mem_map.mp hq
          exact jsonText_plain (h.mem p hp).1
        · rcases List.mem_cons.mp hq with rfl | hq
          · exact jsonText_plain hname
          · exact hkeys q hq)
      (by
        intro q hq
        rcases List.mem_append.mp hq with hq | hq
        · obtain ⟨p, hp, rfl⟩ := List.mem_map.mp hq
          exact (h.mem p hp).2
        · rcases List.mem_cons.mp hq with rfl | hq
          · exact hv
          · exact hvalues q hq)
    have hlast : memberText (name, '"' :: (s ++ ['"'])) = commaSep
        (('"' :: (name ++ ['"']) ++ ':' :: t) :: members.map fun m => m.2.1 ++ ':' :: m.2.2) := by
      have hsplit : '"' :: (name ++ ['"']) ++ ':' :: t = '"' :: (name ++ ['"']) ++ [':'] ++ t := by simp
      rw [memberText, hsplit, commaSep_cons_append, ← htext]
      simp
    have hmembers : ((before.map fun p => ((p.1, p.2.1), ('"' :: (p.1 ++ ['"']), p.2.2))) ++
          ((name, v), ('"' :: (name ++ ['"']), t)) :: members).map
        (fun m => m.2.1 ++ ':' :: m.2.2) = (before.map fun p => memberText (p.1, p.2.2)) ++
          ('"' :: (name ++ ['"']) ++ ':' :: t) :: members.map fun m => m.2.1 ++ ':' :: m.2.2 := by
      rw [List.map_append, List.map_cons, List.map_map]
      congr 1
      exact List.map_congr_left fun p _ => by simp [memberText]
    rw [hmembers] at hobj
    rw [hlast, ← commaSep_append]
    exact ⟨_, hobj⟩

end Json
