import MiniSql.Repl.Session

/-!
# The statement of `\\e`

`url_escape_min` escapes what would end a parameter, but not the percent sign, and the server cuts
the query off. So the server explains the statement that was typed exactly if there is room for it
and nothing in it looks like an escape.

## Main definitions

* `urlEscape` — the escapes of a text for which there is room.
* `NoEscape` — nothing in a text looks like an escape.

## Main results

* `urlDecodeLoop_urlEscape` — such a text comes back.
* `prefix_of_decoded` — no other one does.
* `explained_eq_iff` — which statement is explained.
-/

namespace MiniSql
open CText

/-! ## Escapes -/

/-- The escapes of a text. -/
def urlEscape (s : CStr) : CStr := s.flatMap escapeByte

theorem urlEscape_cons (c : Char) (s : CStr) : urlEscape (c :: s) = escapeByte c ++ urlEscape s :=
  List.flatMap_cons

/-- Nothing in the text looks like an escape. -/
def NoEscape (s : CStr) : Prop := ∀ t, t <:+ s → percentByte t = none

theorem noEscape_cons {c : Char} {s : CStr} :
    NoEscape (c :: s) ↔ percentByte (c :: s) = none ∧ NoEscape s := by
  constructor
  · intro h
    exact ⟨h _ List.suffix_rfl, fun t ht => h t (ht.trans (List.suffix_cons c s))⟩
  · rintro ⟨hhead, htail⟩ t ht
    rcases List.suffix_cons_iff.mp ht with rfl | ht
    · exact hhead
    · exact htail t ht

theorem percentByte_of_ne {c : Char} (hc : c ≠ '%') (s : CStr) : percentByte (c :: s) = none := by
  unfold percentByte
  split
  · rename_i heq
    exact absurd (List.cons.inj heq).1 hc
  · rfl

theorem fromHex_hexDigit {n : ℕ} (h : n < 16) : fromHex (hexDigit n) = some n := by
  have hall : ∀ i : Fin 16, fromHex (hexDigit (i : ℕ)) = some (i : ℕ) := by decide
  exact hall ⟨n, h⟩

/-- A byte stands for itself, or for an escape that is undone whatever is behind it. -/
theorem escapeByte_cases (c : Char) :
    (escapeByte c = [c] ∧ c ≠ '+') ∨
      (c ≠ '%' ∧ fromHex c = none ∧ ∃ a b, escapeByte c = ['%', a, b] ∧
        ∀ s, percentByte ('%' :: a :: b :: s) = some (c, s)) := by
  have hescape : ∀ n : ℕ, n = c.toNat → n < 256 → ∀ s : CStr,
      percentByte ('%' :: hexDigit (n / 16 % 16) :: hexDigit (n % 16) :: s) = some (c, s) := by
    intro n hn hlt s
    have hvalue : 16 * (n / 16 % 16) + n % 16 = n := by omega
    rw [percentByte, fromHex_hexDigit (Nat.mod_lt _ (by decide)),
      fromHex_hexDigit (Nat.mod_lt _ (by decide))]
    simp only [Option.bind_eq_bind, Option.bind_some, Option.pure_def, hvalue]
    rw [hn, Char.ofNat_toNat]
  unfold escapeByte
  split
  · rename_i hblank
    subst hblank
    exact .inr ⟨by decide, by decide, _, _, rfl, hescape 32 rfl (by decide)⟩
  · split
    · rename_i hspecial
      have hsmall : c ≠ '%' ∧ fromHex c = none ∧ c.toNat < 256 := by
        rcases hspecial with hcontrol | rfl | rfl | rfl | rfl | rfl
        · have hle : ∀ d : Char, 0x20 ≤ d.toNat → ¬ d ≤ c := by
            intro d hd hle
            have hnat : d.toNat ≤ c.toNat := Char.le_def.mp hle
            omega
          refine ⟨?_, ?_, by omega⟩
          · rintro rfl
            exact absurd hcontrol (by decide)
          · rw [fromHex, if_neg fun h => hle '0' (by decide) h.1,
              if_neg fun h => hle 'a' (by decide) h.1, if_neg fun h => hle 'A' (by decide) h.1]
        all_goals decide
      exact .inr ⟨hsmall.1, hsmall.2.1, _, _, rfl, hescape _ rfl hsmall.2.2⟩
    · rename_i hplain
      simp only [not_or] at hplain
      exact .inl ⟨rfl, hplain.2.2.2.2.2⟩

theorem length_escapeByte_le (c : Char) : (escapeByte c).length ≤ 3 := by
  rcases escapeByte_cases c with ⟨h, -⟩ | ⟨-, -, a, b, h, -⟩ <;> simp [h]

/-- With room for three bytes for each, everything is escaped. -/
theorem urlEscapeLoop_eq {cap : ℕ} {s out : CStr} (h : out.length + 3 * s.length + 2 ≤ cap) :
    urlEscapeLoop cap s out = out ++ urlEscape s := by
  induction s generalizing out with
  | nil => simp [urlEscapeLoop, urlEscape]
  | cons c s ih =>
    have hbyte := length_escapeByte_le c
    rw [List.length_cons] at h
    have hroom : (out ++ escapeByte c).length + 3 * s.length + 2 ≤ cap := by
      rw [List.length_append]
      omega
    rw [urlEscapeLoop, if_neg (by omega), ih hroom, urlEscape_cons, List.append_assoc]

/-- The hexadecimal digits are not escaped. -/
theorem escapeByte_of_fromHex {c : Char} {n : ℕ} (h : fromHex c = some n) : escapeByte c = [c] := by
  rcases escapeByte_cases c with ⟨hplain, -⟩ | ⟨-, hnone, -⟩
  · exact hplain
  · exact absurd (hnone.symm.trans h) (by simp)

theorem eq_percent {c : Char} {s : CStr} {found : Char × CStr}
    (h : percentByte (c :: s) = some found) : c = '%' := by
  by_contra hne
  rw [percentByte_of_ne hne] at h
  exact absurd h (by simp)

theorem percentByte_eq_some {s rest : CStr} {d : Char} (h : percentByte ('%' :: s) = some (d, rest)) :
    ∃ a b hi lo, s = a :: b :: rest ∧ fromHex a = some hi ∧ fromHex b = some lo := by
  unfold percentByte at h
  split at h
  · rename_i a b t heq
    obtain rfl : s = a :: b :: t := (List.cons.inj heq).2
    obtain ⟨hi, hhi, h⟩ := Option.bind_eq_some_iff.mp h
    obtain ⟨lo, hlo, h⟩ := Option.bind_eq_some_iff.mp h
    obtain rfl : t = rest := (Prod.mk.inj (Option.some.inj h)).2
    exact ⟨a, b, hi, lo, rfl, hhi, hlo⟩
  · exact absurd h (by simp)

theorem length_le_urlEscape (s : CStr) : s.length ≤ (urlEscape s).length := by
  induction s with
  | nil => exact Nat.zero_le _
  | cons c s ih =>
    have hpos : 0 < (escapeByte c).length := by
      rcases escapeByte_cases c with ⟨h, -⟩ | ⟨-, -, a, b, h, -⟩ <;> simp [h]
    rw [urlEscape_cons, List.length_append, List.length_cons]
    omega

/-- Decoding makes no text longer. -/
theorem length_urlDecodeLoop_le (room : ℕ) (s : CStr) : (urlDecodeLoop room s).length ≤ s.length := by
  induction room generalizing s with
  | zero => exact Nat.zero_le _
  | succ room ih =>
    cases s with
    | nil => exact Nat.zero_le _
    | cons c s =>
      rw [urlDecodeLoop]
      split
      · rename_i d rest hfound
        have hrest : rest.length ≤ s.length := by
          obtain rfl := eq_percent hfound
          obtain ⟨a, b, -, -, rfl, -, -⟩ := percentByte_eq_some hfound
          simp only [List.length_cons]
          omega
        exact Nat.succ_le_succ ((ih rest).trans hrest)
      · exact Nat.succ_le_succ (ih s)

/-! ## What comes back -/

/-- Behind a percent sign, a digit that is left of an escaped text is one of the text. -/
theorem take_urlEscape_cons {k n : ℕ} {s t : CStr} {a : Char} (ha : fromHex a = some n)
    (h : (urlEscape s).take k = a :: t) :
    ∃ s', s = a :: s' ∧ 0 < k ∧ t = (urlEscape s').take (k - 1) := by
  cases k with
  | zero => exact absurd h (by simp)
  | succ k =>
    cases s with
    | nil => exact absurd h (by simp [urlEscape])
    | cons c s =>
      rw [urlEscape_cons] at h
      rcases escapeByte_cases c with ⟨hc, -⟩ | ⟨-, -, b, b', hc, -⟩
      · rw [hc, List.singleton_append, List.take_succ_cons] at h
        obtain ⟨rfl, rfl⟩ := List.cons.inj h
        exact ⟨s, rfl, Nat.succ_pos k, rfl⟩
      · rw [hc, List.cons_append, List.take_succ_cons] at h
        obtain rfl : '%' = a := (List.cons.inj h).1
        have hnone : fromHex '%' = none := by decide
        exact absurd (hnone.symm.trans ha) (by simp)

/-- What looks like an escape in an escaped text looks like one in the text. -/
theorem percentByte_take {k : ℕ} {s rest : CStr} {d : Char}
    (h : percentByte ('%' :: (urlEscape s).take k) = some (d, rest)) :
    ∃ a b s', s = a :: b :: s' ∧ percentByte ('%' :: s) = some (d, s') ∧
      rest = (urlEscape s').take (k - 2) := by
  obtain ⟨a, b, hi, lo, htake, ha, hb⟩ := percentByte_eq_some h
  obtain ⟨s₁, rfl, hpos, hrest⟩ := take_urlEscape_cons ha htake
  obtain ⟨s₂, rfl, hpos', hrest'⟩ := take_urlEscape_cons hb hrest.symm
  refine ⟨a, b, s₂, rfl, ?_, by rw [hrest']; rfl⟩
  rw [htake, percentByte, ha, hb] at h
  rw [percentByte, ha, hb]
  have hd : Char.ofNat (16 * hi + lo) = d := (Prod.mk.inj (Option.some.inj h)).1
  exact congrArg (fun d => some (d, s₂)) hd

/-- A text in which nothing looks like an escape comes back. -/
theorem urlDecodeLoop_urlEscape {s : CStr} (h : NoEscape s) {room : ℕ} (hroom : s.length ≤ room) :
    urlDecodeLoop room (urlEscape s) = s := by
  induction s generalizing room with
  | nil => cases room <;> rfl
  | cons c s ih =>
    obtain ⟨hhead, htail⟩ := noEscape_cons.mp h
    cases room with
    | zero => exact absurd hroom (by simp)
    | succ room =>
      have hrest := ih htail (Nat.le_of_succ_le_succ hroom)
      rw [urlEscape_cons]
      rcases escapeByte_cases c with ⟨hc, hplus⟩ | ⟨-, -, a, b, hc, hbyte⟩
      · have hnone : percentByte (c :: urlEscape s) = none := by
          by_cases hpercent : c = '%'
          · subst hpercent
            cases hsome : percentByte ('%' :: urlEscape s) with
            | none => rfl
            | some found =>
              obtain ⟨d, rest⟩ := found
              rw [← List.take_length (l := urlEscape s)] at hsome
              obtain ⟨a, b, s', -, hfound, -⟩ := percentByte_take hsome
              exact absurd (hhead.symm.trans hfound) (by simp)
          · exact percentByte_of_ne hpercent _
        rw [hc, List.singleton_append, urlDecodeLoop, hnone]
        dsimp only
        rw [if_neg hplus, hrest]
      · rw [hc, List.cons_append, List.cons_append, List.singleton_append, urlDecodeLoop, hbyte]
        dsimp only
        rw [hrest]

/-- An escaped text that is cut off is decoded to at most one byte more than the text has. -/
theorem length_urlDecodeLoop_take (n : ℕ) : ∀ {s : CStr}, s.length ≤ n → ∀ k room : ℕ,
    (urlDecodeLoop room ((urlEscape s).take k)).length ≤ s.length + 1 := by
  -- an escape that is cut off leaves two bytes for one, but nothing is behind it
  induction n with
  | zero =>
    intro s hs k room
    obtain rfl : s = [] := List.length_eq_zero_iff.mp (Nat.le_zero.mp hs)
    cases room <;> simp [urlEscape, urlDecodeLoop]
  | succ n ih =>
    intro s hs k room
    cases room with
    | zero => simp [urlDecodeLoop]
    | succ room =>
      cases s with
      | nil => simp [urlEscape, urlDecodeLoop]
      | cons c s =>
        rw [List.length_cons] at hs ⊢
        have hs' : s.length ≤ n := Nat.le_of_succ_le_succ hs
        have hone : ∀ k, (urlDecodeLoop room ((urlEscape s).take k)).length + 1 ≤ s.length + 1 + 1 :=
          fun k => Nat.succ_le_succ (ih hs' k room)
        cases k with
        | zero => simp [urlDecodeLoop]
        | succ k =>
          rw [urlEscape_cons]
          rcases escapeByte_cases c with ⟨hc, -⟩ | ⟨-, -, a, b, hc, hbyte⟩
          · rw [hc, List.singleton_append, List.take_succ_cons, urlDecodeLoop]
            split
            · rename_i d rest hfound
              obtain rfl := eq_percent hfound
              obtain ⟨a, b, s', rfl, -, rfl⟩ := percentByte_take hfound
              have hlen : s'.length ≤ n := by
                simp only [List.length_cons] at hs'
                omega
              have hrest := ih hlen (k - 2) room
              simp only [List.length_cons]
              omega
            · exact hone k
          · by_cases hshort : k < 2
            · have hdecoded := length_urlDecodeLoop_le (room + 1)
                ((escapeByte c ++ urlEscape s).take (k + 1))
              rw [List.length_take] at hdecoded
              omega
            · obtain ⟨k, rfl⟩ : ∃ j, k = j + 2 := ⟨k - 2, by omega⟩
              rw [hc, List.cons_append, List.cons_append, List.singleton_append,
                List.take_succ_cons, List.take_succ_cons, List.take_succ_cons, urlDecodeLoop, hbyte]
              exact hone k

/-- **No other text comes back**, not even as the beginning of what is decoded. -/
theorem prefix_of_decoded {s : CStr} {k room : ℕ} (hroom : k ≤ room)
    (h : s <+: urlDecodeLoop room ((urlEscape s).take k)) :
    (urlEscape s).length ≤ k ∧ NoEscape s := by
  induction s generalizing k room with
  | nil =>
    refine ⟨Nat.zero_le _, fun t ht => ?_⟩
    obtain rfl := List.suffix_nil.mp ht
    rfl
  | cons c s ih =>
    obtain ⟨k, rfl⟩ : ∃ j, k = j + 1 := by
      refine ⟨k - 1, (Nat.sub_add_cancel (Nat.pos_of_ne_zero ?_)).symm⟩
      rintro rfl
      have hlen := h.length_le
      have hdecoded := length_urlDecodeLoop_le room ((urlEscape (c :: s)).take 0)
      simp at hlen hdecoded
      rw [hdecoded] at hlen
      simp at hlen
    obtain ⟨room, rfl⟩ : ∃ j, room = j + 1 := ⟨room - 1, by omega⟩
    rw [urlEscape_cons] at h ⊢
    rcases escapeByte_cases c with ⟨hc, hplus⟩ | ⟨hpercent, -, a, b, hc, hbyte⟩
    · rw [hc, List.singleton_append, List.take_succ_cons, urlDecodeLoop] at h
      split at h
      · rename_i d rest hfound
        obtain rfl := eq_percent hfound
        obtain ⟨a, b, s', rfl, -, rfl⟩ := percentByte_take hfound
        have hlen := h.length_le
        have hdecoded := length_urlDecodeLoop_take s'.length le_rfl (k - 2) room
        simp only [List.length_cons] at hlen
        omega
      · rename_i hnone
        obtain ⟨-, hrest⟩ := List.cons_prefix_cons.mp h
        obtain ⟨hlen, htail⟩ := ih (Nat.le_of_succ_le_succ hroom) hrest
        rw [hc, List.singleton_append, List.length_cons, noEscape_cons]
        refine ⟨Nat.succ_le_succ hlen, ?_, htail⟩
        rw [List.take_of_length_le hlen] at hnone
        by_cases hpercent : c = '%'
        · subst hpercent
          cases hfound : percentByte ('%' :: s) with
          | none => rfl
          | some found =>
            obtain ⟨a, b, hi, lo, rfl, ha, hb⟩ := @percentByte_eq_some s found.2 found.1 hfound
            rw [urlEscape_cons, urlEscape_cons, escapeByte_of_fromHex ha,
              escapeByte_of_fromHex hb] at hnone
            simp [percentByte, ha, hb] at hnone
        · exact percentByte_of_ne hpercent _
    · by_cases hshort : k < 2
      · -- the escape is cut off, and its percent sign stands there
        exfalso
        have hnone : percentByte ((escapeByte c ++ urlEscape s).take (k + 1)) = none := by
          rw [hc]
          have hcases : k = 0 ∨ k = 1 := by omega
          rcases hcases with rfl | rfl <;> rfl
        rw [hc, List.cons_append, List.take_succ_cons] at h hnone
        rw [urlDecodeLoop, hnone] at h
        exact hpercent (List.cons_prefix_cons.mp h).1
      · obtain ⟨k, rfl⟩ : ∃ j, k = j + 2 := ⟨k - 2, by omega⟩
        rw [hc, List.cons_append, List.cons_append, List.singleton_append, List.take_succ_cons,
          List.take_succ_cons, List.take_succ_cons, urlDecodeLoop, hbyte] at h
        obtain ⟨-, hrest⟩ := List.cons_prefix_cons.mp h
        obtain ⟨hlen, htail⟩ := @ih k room (by omega) hrest
        rw [hc, List.length_append, noEscape_cons]
        simp only [List.length_cons, List.length_nil]
        exact ⟨by omega, percentByte_of_ne hpercent _, htail⟩

/-- **The server explains the statement that was typed exactly if its escapes have at most 507 bytes
and nothing in it looks like an escape.** -/
theorem explained_eq_iff {sql : CStr} (hnul : NulFree sql) (hlen : sql.length < maxLine) :
    Turn.explained sql = sql ↔ (urlEscape sql).length ≤ 507 ∧ NoEscape sql := by
  have hescape : urlEscapeMin sql (maxLine * 3) = urlEscape sql := by
    have hroom : ([] : CStr).length + 3 * sql.length + 2 ≤ maxLine * 3 := by
      rw [List.length_nil]
      omega
    rw [urlEscapeMin, urlEscapeLoop_eq hroom, List.nil_append]
  have hexplained : Turn.explained sql = cstr (urlDecodeLoop 1023 ((urlEscape sql).take 507)) := by
    rw [Turn.explained, hescape]
    rfl
  rw [hexplained]
  constructor
  · intro h
    refine @prefix_of_decoded sql 507 1023 (by decide) ?_
    have hpre : cstr (urlDecodeLoop 1023 ((urlEscape sql).take 507)) <+:
        urlDecodeLoop 1023 ((urlEscape sql).take 507) := List.takeWhile_prefix _
    rwa [h] at hpre
  · rintro ⟨hshort, hno⟩
    have hroom : sql.length ≤ 1023 := by
      have hle : sql.length ≤ (urlEscape sql).length := length_le_urlEscape sql
      omega
    rw [List.take_of_length_le hshort, urlDecodeLoop_urlEscape hno hroom, cstr_of_nulFree hnul]

/-- A pattern that begins with two hexadecimal digits is lost. -/
theorem explained_eq_iff_like :
    ¬ (Turn.explained "SELECT * FROM t WHERE w LIKE '%cafe'".toList =
      "SELECT * FROM t WHERE w LIKE '%cafe'".toList) := by
  rw [explained_eq_iff (by decide) (by decide)]
  rintro ⟨-, hno⟩
  exact absurd (hno "%cafe'".toList (by decide)) (by decide)

end MiniSql
