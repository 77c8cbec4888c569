import MiniSql.RouterJson

/-!
# The fields of a JSON body

`json_get_string_field` looks for `"name"` in the text of an object. The engine writes strings with
`jb_append_json_string`.

## Main definitions

* `objectText` — the text of an object of strings, as the engine writes it.
* `Printable`, `Findable` — the values and the names that are found.

## Main results

* `jsonGetStringField_plain` — what is found under a name without escapes.
* `jsonGetStringField_iff` — the names under which every printable value is found, and that no
  other value is.
-/

namespace MiniSql
open CText

/-! ## The text of an object -/

/-- The text of a member. -/
def memberText (member : CStr × CStr) : CStr :=
  jbAppendJsonString member.1 ++ ':' :: jbAppendJsonString member.2

/-- The text of an object of strings. -/
def objectText (members : List (CStr × CStr)) : CStr :=
  '{' :: (commaLoop true (members.map memberText) ++ ['}'])

/-- Without a character that JSON writes as an escape for its code. -/
def Printable (s : CStr) : Prop := ∀ c ∈ s, 0x20 ≤ c.toNat

instance (s : CStr) : Decidable (Printable s) :=
  decidable_of_iff ((s.all fun c => 0x20 ≤ c.toNat) = true) (by simp [Printable])

/-- What the string is made of between its quotes. -/
def escaped (s : CStr) : CStr := s.flatMap jsonByte

theorem jbAppendJsonString_append (s t : CStr) :
    jbAppendJsonString s ++ t = '"' :: (escaped s ++ '"' :: t) := by
  simp [jbAppendJsonString, escaped]

/-- The three kinds of bytes: a quote or backslash, a control character, any other. -/
theorem jsonByte_cases (c : Char) :
    (jsonByte c = ['\\', c] ∧ (c = '"' ∨ c = '\\') ∧ 0x20 ≤ c.toNat) ∨
      (∃ e t, jsonByte c = '\\' :: e :: t ∧ c.toNat < 0x20 ∧ '"' ∉ e :: t ∧
        ∀ d, jsonUnescape e = some d → d.toNat < 0x20) ∨
      (jsonByte c = [c] ∧ c ≠ '"' ∧ c ≠ '\\' ∧ 0x20 ≤ c.toNat) := by
  unfold jsonByte
  split
  · exact .inl ⟨rfl, .inl rfl, by decide⟩
  · exact .inl ⟨rfl, .inr rfl, by decide⟩
  · exact .inr (.inl ⟨'n', [], rfl, by decide, by decide, by simp [jsonUnescape]⟩)
  · exact .inr (.inl ⟨'r', [], rfl, by decide, by decide, by simp [jsonUnescape]⟩)
  · exact .inr (.inl ⟨'t', [], rfl, by decide, by decide, by simp [jsonUnescape]⟩)
  · rename_i hquote hslash _ _ _
    split
    · rename_i hlt
      refine .inr (.inl ⟨'u', hex4 c.toNat, rfl, hlt, ?_, by simp [jsonUnescape]⟩)
      have hdigit : ∀ n, '"' ≠ Nat.digitChar (n % 16) := by
        intro n
        have hall : ∀ k < 16, '"' ≠ Nat.digitChar k := by decide
        exact hall _ (Nat.mod_lt n (by decide))
      simp only [hex4, List.mem_cons, List.not_mem_nil, or_false, not_or]
      exact ⟨by decide, hdigit _, hdigit _, hdigit _, hdigit _⟩
    · rename_i hge
      exact .inr (.inr ⟨rfl, hquote, hslash, by omega⟩)

/-! ## Reading a string -/

/-- The reader undoes the escape of a character, and rejects it if it is a control character. -/
theorem jsonReadLoop_jsonByte (size : ℕ) (c : Char) (s out : CStr) :
    jsonReadLoop size (jsonByte c ++ s) out =
      if c.toNat < 0x20 ∨ size ≤ out.length + 1 then none
      else jsonReadLoop size s (out ++ [c]) := by
  rcases jsonByte_cases c with ⟨hbyte, hesc, -⟩ | ⟨e, t, hbyte, hlt, -, hunescape⟩ |
    ⟨hbyte, hquote, hslash, -⟩
  · have hunescape : jsonUnescape c = some c := by rcases hesc with rfl | rfl <;> rfl
    rw [hbyte]
    change jsonReadLoop size ('\\' :: c :: s) out = _
    rw [jsonReadLoop, hunescape]
  · rw [hbyte, if_pos (.inl hlt)]
    change jsonReadLoop size ('\\' :: e :: (t ++ s)) out = _
    rw [jsonReadLoop]
    cases hd : jsonUnescape e with
    | none => rfl
    | some d => exact if_pos (.inl (hunescape d hd))
  · rw [hbyte]
    change jsonReadLoop size (c :: s) out = _
    rw [jsonReadLoop]
    · exact fun h => absurd h hquote
    · exact fun h _ => absurd h hslash
    · exact fun _ _ h _ => absurd h hslash

/-- The reader undoes the escapes of a printable string that fits, and takes no other. -/
theorem jsonReadLoop_escaped {size : ℕ} {out : CStr} (hout : out.length < size) (s t : CStr) :
    jsonReadLoop size (escaped s ++ '"' :: t) out =
      if Printable s ∧ out.length + s.length < size then some (out ++ s, t) else none := by
  induction s generalizing out with
  | nil => simp [escaped, jsonReadLoop, Printable, hout]
  | cons c s ih =>
    have hsplit : escaped (c :: s) ++ '"' :: t = jsonByte c ++ (escaped s ++ '"' :: t) := by
      simp [escaped]
    have hcons : Printable (c :: s) ↔ 0x20 ≤ c.toNat ∧ Printable s := by simp [Printable]
    rw [hsplit, jsonReadLoop_jsonByte, List.length_cons]
    by_cases hc : c.toNat < 0x20 ∨ size ≤ out.length + 1
    · rw [if_pos hc, if_neg]
      rintro ⟨hprint, hlen⟩
      have := (hcons.mp hprint).1
      omega
    · have hfit : (out ++ [c]).length < size := by
        rw [List.length_append, List.length_singleton]
        omega
      rw [if_neg hc, ih hfit, List.append_assoc]
      refine if_congr ?_ rfl rfl
      rw [hcons, List.length_append, List.length_singleton]
      constructor
      · rintro ⟨hprint, hlen⟩
        exact ⟨⟨by omega, hprint⟩, by omega⟩
      · rintro ⟨⟨-, hprint⟩, hlen⟩
        exact ⟨hprint, by omega⟩

/-- What the reader accepts is printable. -/
theorem printable_jsonReadLoop {size : ℕ} {s out value rest : CStr} (hout : Printable out)
    (h : jsonReadLoop size s out = some (value, rest)) : Printable value := by
  have hgrow : ∀ {out : CStr} {c : Char}, Printable out →
      ¬ (c.toNat < 0x20 ∨ size ≤ out.length + 1) → Printable (out ++ [c]) := by
    intro out c hprint hroom d hd
    rcases List.mem_append.mp hd with hd | hd
    · exact hprint d hd
    · rw [List.mem_singleton.mp hd]
      omega
  fun_induction jsonReadLoop size s out with
  | case1 | case3 | case4 | case5 | case7 => exact absurd h (by simp)
  | case2 s out =>
    obtain ⟨rfl, rfl⟩ := Prod.mk.inj (Option.some.inj h)
    exact hout
  | case6 out e s c hc hroom ih => exact ih (hgrow hout hroom) h
  | case8 =>
    rename_i hroom ih
    exact ih (hgrow hout hroom) h

/-! ## The search -/

/-- `json_get_string_field` from a place in the body on. -/
def scan (needle : CStr) (size : ℕ) (s : CStr) : Option CStr :=
  getFieldLoop needle size (s.length + 1) s

/-- What the reader makes of the text behind a name. -/
def readMember (size : ℕ) (s : CStr) : Option CStr :=
  (jsonReadStringAt (s.dropWhile isSpace) size).map Prod.fst

theorem length_afterFirst {needle s t : CStr} (hne : needle ≠ [])
    (h : afterFirst needle s = some t) : t.length < s.length := by
  induction s with
  | nil => exact absurd h (by simp [afterFirst])
  | cons c s ih =>
    rw [afterFirst] at h
    split at h
    · rename_i hstarts
      rw [← Option.some.inj h, List.length_drop]
      have hpos := List.length_pos_iff.mpr hne
      have hlen := (List.isPrefixOf_iff_prefix.mp hstarts).length_le
      omega
    · exact Nat.lt_succ_of_lt (ih h)

theorem getFieldLoop_eq_scan {needle : CStr} (hne : needle ≠ []) (size : ℕ) {n : ℕ} {s : CStr}
    (hn : s.length < n) : getFieldLoop needle size n s = scan needle size s := by
  have key : ∀ (m n : ℕ) (s : CStr), s.length < m → s.length < n →
      getFieldLoop needle size n s = getFieldLoop needle size m s := by
    intro m
    induction m with
    | zero => intro n s hm; exact absurd hm (Nat.not_lt_zero _)
    | succ m ih =>
      intro n s hm hn
      obtain ⟨n, rfl⟩ : ∃ k, n = k + 1 := ⟨n - 1, by omega⟩
      rw [getFieldLoop, getFieldLoop]
      cases hafter : afterFirst needle s with
      | none => rfl
      | some t =>
        have hlt := length_afterFirst hne hafter
        have hskip : (t.dropWhile isSpace).length ≤ t.length :=
          (List.dropWhile_suffix isSpace).length_le
        dsimp only
        split
        · rfl
        · exact ih n _ (by omega) (by omega)
  exact key _ _ _ (Nat.lt_succ_self _) hn

/-- The name as it is looked for. -/
def needleOf (f : CStr) : CStr := '"' :: (f ++ ['"'])

theorem needleOf_ne_nil (f : CStr) : needleOf f ≠ [] := List.cons_ne_nil _ _

variable {f : CStr} {size : ℕ}

theorem match_not_colon {α : Type} (hit miss : CStr → α) {u : CStr} :
    (¬ ∃ p, u = ':' :: p) → (match u with
      | ':' :: p => hit p
      | p => miss p) = miss u := by
  intro h
  split
  · exact absurd ⟨_, rfl⟩ h
  · rfl

theorem scan_eq (s : CStr) : scan (needleOf f) size s =
    match afterFirst (needleOf f) s with
    | none => none
    | some t =>
      match t.dropWhile isSpace with
      | ':' :: p => readMember size p
      | p => scan (needleOf f) size p := by
  rw [scan, getFieldLoop]
  cases hafter : afterFirst (needleOf f) s with
  | none => rfl
  | some t =>
    have hlt := length_afterFirst (needleOf_ne_nil f) hafter
    have hskip : (t.dropWhile isSpace).length ≤ t.length :=
      (List.dropWhile_suffix isSpace).length_le
    dsimp only
    generalize t.dropWhile isSpace = u at hskip
    have hloop : getFieldLoop (needleOf f) size s.length u = scan (needleOf f) size u :=
      getFieldLoop_eq_scan (needleOf_ne_nil f) size (by omega)
    by_cases hcolon : ∃ p, u = ':' :: p
    · obtain ⟨p, rfl⟩ := hcolon
      rfl
    · exact (match_not_colon _ _ hcolon).trans (hloop.trans (match_not_colon _ _ hcolon).symm)

@[simp] theorem scan_nil : scan (needleOf f) size [] = none := by
  rw [scan_eq]
  rfl

/-- A place where the name does not stand. -/
theorem scan_skip {c : Char} {s : CStr} (h : ¬ needleOf f <+: c :: s) :
    scan (needleOf f) size (c :: s) = scan (needleOf f) size s := by
  rw [scan_eq, scan_eq, afterFirst, if_neg]
  rw [List.isPrefixOf_iff_prefix]
  exact h

/-- A name starts with a quote. -/
theorem scan_skip_of_ne {c : Char} (hc : c ≠ '"') (s : CStr) :
    scan (needleOf f) size (c :: s) = scan (needleOf f) size s := by
  refine scan_skip ?_
  intro hstarts
  exact hc (List.cons_prefix_cons.mp hstarts).1.symm

theorem scan_append {u : CStr} (hu : '"' ∉ u) (s : CStr) :
    scan (needleOf f) size (u ++ s) = scan (needleOf f) size s := by
  induction u with
  | nil => rfl
  | cons c u ih =>
    have hc : c ≠ '"' := fun h => hu (by simp [h])
    rw [List.cons_append, scan_skip_of_ne hc, ih fun h => hu (List.mem_cons_of_mem c h)]

theorem afterFirst_needleOf (s : CStr) :
    afterFirst (needleOf f) ('"' :: (f ++ '"' :: s)) = some s := by
  have hsplit : '"' :: (f ++ '"' :: s) = needleOf f ++ s := by simp [needleOf]
  have hstarts : (needleOf f).isPrefixOf ('"' :: (f ++ '"' :: s)) = true := by
    rw [List.isPrefixOf_iff_prefix, hsplit]
    exact List.prefix_append _ _
  rw [afterFirst, if_pos hstarts, hsplit, List.drop_left]

/-- The name stands in front of a colon. -/
theorem scan_hit {s p : CStr} (h : s.dropWhile isSpace = ':' :: p) :
    scan (needleOf f) size ('"' :: (f ++ '"' :: s)) = readMember size p := by
  rw [scan_eq, afterFirst_needleOf]
  dsimp only
  rw [h]
  rfl

/-- The name stands elsewhere. -/
theorem scan_miss {s : CStr} (h : ∀ p, s.dropWhile isSpace ≠ ':' :: p) :
    scan (needleOf f) size ('"' :: (f ++ '"' :: s)) = scan (needleOf f) size s := by
  have hblank : '"' ∉ s.takeWhile isSpace := by
    intro hmem
    exact absurd (List.mem_takeWhile_imp hmem) (by decide)
  have hskip := @scan_append f size _ hblank (s.dropWhile isSpace)
  rw [List.takeWhile_append_dropWhile] at hskip
  rw [scan_eq, afterFirst_needleOf, hskip]
  dsimp only
  split
  · rename_i p hp
    exact absurd hp (h p)
  · rfl

theorem takeWhile_ne_quote {w : CStr} (hw : '"' ∉ w) (s : CStr) :
    (w ++ '"' :: s).takeWhile (· ≠ '"') = w := by
  rw [List.takeWhile_append_of_pos]
  · simp
  · intro c hc
    simp only [decide_eq_true_eq]
    rintro rfl
    exact hw hc

/-- Between two quotes stands something else. -/
theorem scan_quote {w : CStr} (hf : '"' ∉ f) (hw : '"' ∉ w) (hne : w ≠ f) (s : CStr) :
    scan (needleOf f) size ('"' :: (w ++ '"' :: s)) = scan (needleOf f) size ('"' :: s) := by
  rw [scan_skip, scan_append hw]
  intro hstarts
  obtain ⟨t, ht⟩ := (List.cons_prefix_cons.mp hstarts).2
  rw [List.append_assoc] at ht
  have htake := congrArg (List.takeWhile (· ≠ '"')) ht
  rw [takeWhile_ne_quote hw] at htake
  exact hne (htake.symm.trans (takeWhile_ne_quote hf t))

/-! ## Names without escapes -/

theorem length_jsonByte_pos (c : Char) : 0 < (jsonByte c).length := by
  rcases jsonByte_cases c with ⟨h, -⟩ | ⟨e, t, h, -⟩ | ⟨h, -⟩ <;> rw [h] <;> simp

theorem length_le_escaped (s : CStr) : s.length ≤ (escaped s).length := by
  induction s with
  | nil => exact le_rfl
  | cons c s ih =>
    have hpos := length_jsonByte_pos c
    rw [escaped, List.flatMap_cons, List.length_append, List.length_cons]
    rw [escaped] at ih
    omega

/-- A string without escapes has neither quotes nor backslashes. -/
theorem not_mem_of_escaped_eq (hf : escaped f = f) : '"' ∉ f ∧ '\\' ∉ f := by
  induction f with
  | nil => simp
  | cons c s ih =>
    rw [escaped, List.flatMap_cons] at hf
    have hle := length_le_escaped s
    rcases jsonByte_cases c with ⟨h, -⟩ | ⟨e, t, h, -⟩ | ⟨h, hquote, hslash, -⟩
    · have := congrArg List.length hf
      rw [h, List.length_append, List.length_cons] at this
      rw [escaped] at hle
      simp only [List.length_cons, List.length_nil] at this
      omega
    · have := congrArg List.length hf
      rw [h, List.length_append, List.length_cons] at this
      rw [escaped] at hle
      simp only [List.length_cons] at this
      omega
    · rw [h] at hf
      obtain ⟨hq, hs⟩ := ih (List.cons.inj hf).2
      simp [hq, hs, Ne.symm hquote, Ne.symm hslash]

/-- A string whose escaped form has no backslash has no escapes. -/
theorem escaped_eq_of_not_mem {s : CStr} (hs : '\\' ∉ escaped s) : escaped s = s := by
  induction s with
  | nil => rfl
  | cons c s ih =>
    rw [escaped, List.flatMap_cons, List.mem_append, not_or] at hs
    rcases jsonByte_cases c with ⟨h, -⟩ | ⟨e, t, h, -⟩ | ⟨h, -⟩
    · exact absurd (by rw [h]; simp) hs.1
    · exact absurd (by rw [h]; simp) hs.1
    · rw [escaped, List.flatMap_cons, h, ← escaped, ih hs.2]
      rfl

/-- The text behind the last quote of a string. -/
def lastPart (s : CStr) : CStr := s.rtakeWhile (· ≠ '"')

/-- A string that ends in a quote is passed. -/
theorem scan_escaped_quote (hf : escaped f = f) (u : CStr) {w : CStr} (hw : '"' ∉ w) (s : CStr) :
    scan (needleOf f) size ('"' :: (w ++ (escaped (u ++ ['"']) ++ s))) =
      scan (needleOf f) size ('"' :: s) := by
  obtain ⟨hquote, hslash⟩ := not_mem_of_escaped_eq hf
  -- the text between two quotes of a string ends in a backslash
  have hpass : ∀ {w : CStr}, '"' ∉ w → ∀ s, scan (needleOf f) size
      ('"' :: (w ++ '\\' :: '"' :: s)) = scan (needleOf f) size ('"' :: s) := by
    intro w hw s
    have hmem : '"' ∉ w ++ ['\\'] := by simp [hw]
    have hne : w ++ ['\\'] ≠ f := by
      rintro rfl
      exact hslash (by simp)
    have := @scan_quote f size (w ++ ['\\']) hquote hmem hne s
    rwa [List.append_assoc] at this
  induction u generalizing w with
  | nil => exact hpass hw s
  | cons c u ih =>
    have hsplit : escaped (c :: u ++ ['"']) ++ s = jsonByte c ++ (escaped (u ++ ['"']) ++ s) := by
      simp [escaped]
    rw [hsplit]
    have hother : '"' ∉ jsonByte c → scan (needleOf f) size
        ('"' :: (w ++ (jsonByte c ++ (escaped (u ++ ['"']) ++ s)))) =
          scan (needleOf f) size ('"' :: s) := by
      intro hbyte
      rw [← List.append_assoc]
      exact ih (by simp [hw, hbyte])
    rcases jsonByte_cases c with ⟨h, rfl | rfl, -⟩ | ⟨e, t, h, -, hmem, -⟩ | ⟨h, hne, -⟩
    · rw [h]
      exact (hpass hw _).trans (@ih [] (by simp))
    · exact hother (by rw [h]; decide)
    · exact hother (by rw [h]; simpa using hmem)
    · exact hother (by rw [h]; simpa using hne.symm)

/-- Of a string only the text behind its last quote can be taken for the name. -/
theorem scan_escaped (hf : escaped f = f) (k s : CStr) :
    scan (needleOf f) size ('"' :: (escaped k ++ '"' :: s)) =
      if lastPart k = f then scan (needleOf f) size ('"' :: (f ++ '"' :: s))
      else scan (needleOf f) size ('"' :: s) := by
  have hsplit : k.rdropWhile (· ≠ '"') ++ lastPart k = k := List.rdropWhile_append_rtakeWhile
  have hlast : '"' ∉ lastPart k := by
    intro hmem
    have := List.mem_rtakeWhile_imp hmem
    simp at this
  generalize lastPart k = t at hsplit hlast
  -- the part in front ends in a quote, if there is one
  have hfront : scan (needleOf f) size ('"' :: (escaped k ++ '"' :: s)) =
      scan (needleOf f) size ('"' :: (escaped t ++ '"' :: s)) := by
    rcases List.eq_nil_or_concat (k.rdropWhile (· ≠ '"')) with hnil | ⟨u, d, hu⟩
    · rw [hnil, List.nil_append] at hsplit
      rw [hsplit]
    · have hd : d = '"' := by
        have hne : k.rdropWhile (· ≠ '"') ≠ [] := by
          rw [hu]
          simp
        have hnot := List.rdropWhile_last_not (· ≠ '"') k hne
        simp only [hu] at hnot
        simpa using hnot
      rw [hd] at hu
      have hk : escaped k ++ '"' :: s = escaped (u ++ ['"']) ++ (escaped t ++ '"' :: s) := by
        rw [← hsplit, hu]
        simp [escaped]
      rw [hk]
      exact @scan_escaped_quote f size hf u [] (by simp) _
  have hquoteless : '"' ∉ escaped t := by
    intro hmem
    obtain ⟨c, hc, hcq⟩ := List.mem_flatMap.mp hmem
    rcases jsonByte_cases c with ⟨h, rfl | rfl, -⟩ | ⟨e, t, h, -, hmem, -⟩ | ⟨h, hne, -⟩
    · exact hlast hc
    · rw [h] at hcq
      exact absurd hcq (by decide)
    · rw [h] at hcq
      exact hmem (by simpa using hcq)
    · rw [h] at hcq
      exact hne (List.mem_singleton.mp hcq).symm
  obtain ⟨hquote, hslash⟩ := not_mem_of_escaped_eq hf
  rw [hfront]
  by_cases ht : t = f
  · rw [if_pos ht, ht, hf]
  · rw [if_neg ht, scan_quote hquote hquoteless]
    intro heq
    have : escaped t = t := escaped_eq_of_not_mem (by rw [heq]; exact hslash)
    exact ht (this.symm.trans heq)

/-! ## Members -/

/-- The text behind a member. -/
def membersTail (members : List (CStr × CStr)) : CStr :=
  commaLoop false (members.map memberText) ++ ['}']

theorem membersTail_cons (m : CStr × CStr) (members : List (CStr × CStr)) :
    membersTail (m :: members) = ',' :: (memberText m ++ membersTail members) := by
  simp [membersTail, commaLoop]

theorem objectText_cons (m : CStr × CStr) (members : List (CStr × CStr)) :
    objectText (m :: members) = '{' :: (memberText m ++ membersTail members) := by
  simp [objectText, membersTail, commaLoop]

theorem memberText_append (k v s : CStr) : memberText (k, v) ++ s =
    '"' :: (escaped k ++ '"' :: ':' :: '"' :: (escaped v ++ '"' :: s)) := by
  rw [memberText, List.append_assoc, jbAppendJsonString_append, List.cons_append,
    jbAppendJsonString_append]

/-- What the reader makes of a value. -/
theorem readMember_value (hsize : 0 < size) (v s : CStr) :
    readMember size ('"' :: (escaped v ++ '"' :: s)) =
      if Printable v ∧ v.length < size then some v else none := by
  have hblank : ('"' :: (escaped v ++ '"' :: s)).dropWhile isSpace =
      '"' :: (escaped v ++ '"' :: s) := List.dropWhile_cons_of_neg (by decide)
  rw [readMember, hblank, jsonReadStringAt, jsonReadLoop_escaped hsize]
  by_cases h : Printable v ∧ v.length < size
  · rw [if_pos (by simpa using h), if_pos h]
    rfl
  · rw [if_neg (by simpa using h), if_neg h]
    rfl

/-- A value is passed, with the separator behind it. -/
theorem scan_value (hf : escaped f = f) (hcomma : f ≠ [',']) (v : CStr)
    (members : List (CStr × CStr)) :
    scan (needleOf f) size ('"' :: (escaped v ++ '"' :: membersTail members)) =
      scan (needleOf f) size (membersTail members) := by
  obtain ⟨hquote, -⟩ := not_mem_of_escaped_eq hf
  rw [scan_escaped hf]
  split
  · refine scan_miss ?_
    intro p
    cases members with
    | nil => simp [membersTail, commaLoop, isSpace]
    | cons m members => rw [membersTail_cons]; simp [isSpace]
  · cases members with
    | nil =>
      refine scan_skip ?_
      rintro hstarts
      have := (List.cons_prefix_cons.mp hstarts).2.sublist.subset (a := '"') (by simp)
      exact absurd this (by decide)
    | cons m members =>
      obtain ⟨k, v⟩ := m
      rw [membersTail_cons, memberText_append]
      have hsep := @scan_quote f size [','] hquote (by decide) (Ne.symm hcomma)
      rw [scan_skip_of_ne (c := ',') (by decide)]
      exact hsep _

/-- **Under a name without escapes the value of the first key that has it behind its last quote is
found.** -/
theorem scan_members (hf : escaped f = f) (hcomma : f ≠ [',']) (hcolon : f ≠ [':'])
    (hsize : 0 < size) (members : List (CStr × CStr)) :
    scan (needleOf f) size (membersTail members) =
      (members.find? fun m => lastPart m.1 = f).bind fun m =>
        if Printable m.2 ∧ m.2.length < size then some m.2 else none := by
  obtain ⟨hquote, -⟩ := not_mem_of_escaped_eq hf
  induction members with
  | nil =>
    have hnil : '"' ∉ membersTail [] := by decide
    have := @scan_append f size _ hnil []
    rwa [List.append_nil, scan_nil] at this
  | cons m members ih =>
    obtain ⟨k, v⟩ := m
    rw [membersTail_cons, scan_skip_of_ne (by decide), memberText_append, scan_escaped hf]
    by_cases hk : lastPart k = f
    · rw [if_pos hk, scan_hit rfl, readMember_value hsize,
        List.find?_cons_of_pos (by simpa using hk)]
      rfl
    · have hsep := @scan_quote f size [':'] hquote (by decide) (Ne.symm hcolon)
      rw [if_neg hk, List.find?_cons_of_neg (by simpa using hk), ← ih]
      exact (hsep _).trans (scan_value hf hcomma v members)

theorem scan_objectText (members : List (CStr × CStr)) :
    scan (needleOf f) size (objectText members) = scan (needleOf f) size (membersTail members) := by
  cases members with
  | nil => exact scan_skip_of_ne (by decide) _
  | cons m members =>
    rw [objectText_cons, membersTail_cons, scan_skip_of_ne (by decide), scan_skip_of_ne (by decide)]

theorem jsonGetStringField_eq_scan (body : CStr) (hf : f.length ≤ 93) :
    jsonGetStringField body f size = scan (needleOf f) size body := by
  rw [jsonGetStringField, if_neg (by omega)]
  rfl

/-- **What is found under a name without escapes.** -/
theorem jsonGetStringField_plain (hf : escaped f = f) (hcomma : f ≠ [',']) (hcolon : f ≠ [':'])
    (hlen : f.length ≤ 93) (hsize : 0 < size) (members : List (CStr × CStr)) :
    jsonGetStringField (objectText members) f size =
      (members.find? fun m => lastPart m.1 = f).bind fun m =>
        if Printable m.2 ∧ m.2.length < size then some m.2 else none := by
  rw [jsonGetStringField_eq_scan _ hlen, scan_objectText, scan_members hf hcomma hcolon hsize]

/-- The first key is found, whatever the separators are. -/
theorem jsonGetStringField_first (hf : escaped f = f) (hlen : f.length ≤ 93) (hsize : 0 < size)
    (v : CStr) (members : List (CStr × CStr)) :
    jsonGetStringField (objectText ((f, v) :: members)) f size =
      if Printable v ∧ v.length < size then some v else none := by
  rw [jsonGetStringField_eq_scan _ hlen, objectText_cons, scan_skip_of_ne (by decide),
    memberText_append, hf, scan_hit rfl, readMember_value hsize]

/-- What is found is read behind a colon. -/
theorem exists_of_scan {s value : CStr} (h : scan (needleOf f) size s = some value) :
    ∃ a t p, s = a ++ needleOf f ++ t ∧ t.dropWhile isSpace = ':' :: p ∧
      readMember size p = some value := by
  have hfirst : ∀ {s t : CStr}, afterFirst (needleOf f) s = some t →
      ∃ a, s = a ++ needleOf f ++ t := by
    intro s t hafter
    induction s with
    | nil => exact absurd hafter (by simp [afterFirst])
    | cons c s ih =>
      rw [afterFirst] at hafter
      split at hafter
      · rename_i hstarts
        obtain ⟨t', ht'⟩ := List.isPrefixOf_iff_prefix.mp hstarts
        rw [← ht', List.drop_left] at hafter
        exact ⟨[], by rw [← ht', Option.some.inj hafter]; rfl⟩
      · obtain ⟨a, ha⟩ := ih hafter
        exact ⟨c :: a, by rw [ha]; rfl⟩
  induction hn : s.length using Nat.strong_induction_on generalizing s with
  | _ n ih =>
    rw [scan_eq] at h
    cases hafter : afterFirst (needleOf f) s with
    | none =>
      rw [hafter] at h
      exact absurd h (by simp)
    | some t =>
      have hlt := length_afterFirst (needleOf_ne_nil f) hafter
      obtain ⟨a, ha⟩ := hfirst hafter
      rw [hafter] at h
      dsimp only at h
      split at h
      · rename_i p hp
        exact ⟨a, t, p, ha, hp, h⟩
      · have hskip : (t.dropWhile isSpace).length ≤ t.length :=
          (List.dropWhile_suffix isSpace).length_le
        obtain ⟨a', t', p, ht', hp, hread⟩ := ih _ (by omega) h rfl
        refine ⟨a ++ needleOf f ++ t.takeWhile isSpace ++ a', t', p, ?_, hp, hread⟩
        calc s = a ++ needleOf f ++ t := ha
          _ = a ++ needleOf f ++ (t.takeWhile isSpace ++ (a' ++ needleOf f ++ t')) := by
            rw [← ht', List.takeWhile_append_dropWhile]
          _ = _ := by simp only [List.append_assoc]

theorem exists_of_readMember {p value : CStr} (h : readMember size p = some value) :
    ∃ r rest, p.dropWhile isSpace = '"' :: r ∧ jsonReadLoop size r [] = some (value, rest) := by
  obtain ⟨⟨v, rest⟩, hread, rfl⟩ := Option.map_eq_some_iff.mp h
  unfold jsonReadStringAt at hread
  split at hread
  · rename_i r hr
    exact ⟨r, rest, hr, hread⟩
  · exact absurd hread (by simp)

/-- A value with a control character is never found. -/
theorem printable_of_jsonGetStringField {body value : CStr}
    (h : jsonGetStringField body f size = some value) : Printable value := by
  rw [jsonGetStringField] at h
  split at h
  · exact absurd h (by simp)
  · obtain ⟨_, _, _, -, -, hread⟩ := exists_of_scan h
    obtain ⟨r, rest, -, hloop⟩ := exists_of_readMember hread
    exact printable_jsonReadLoop (by simp [Printable]) hloop

/-! ## Names with escapes -/

theorem prefix_of_jsonReadLoop {s out value rest : CStr}
    (h : jsonReadLoop size s out = some (value, rest)) : out <+: value := by
  fun_induction jsonReadLoop size s out with
  | case1 | case3 | case4 | case5 | case7 => exact absurd h (by simp)
  | case2 s out =>
    obtain ⟨rfl, rfl⟩ := Prod.mk.inj (Option.some.inj h)
    exact List.prefix_rfl
  | case6 e s out c hc hroom ih => exact (List.prefix_append out [c]).trans (ih h)
  | case8 =>
    rename_i hroom ih
    exact (List.prefix_append _ _).trans (ih h)

/-- A run of `x` is written as it is. -/
theorem eq_of_jsonReadLoop_replicate {s out rest : CStr} {n : ℕ}
    (h : jsonReadLoop size s out = some (out ++ List.replicate n 'x', rest)) :
    s = List.replicate n 'x' ++ '"' :: rest := by
  -- a character that is read is the first one of the run
  have hnext : ∀ {s out rest : CStr} {c : Char} {n : ℕ},
      jsonReadLoop size s (out ++ [c]) = some (out ++ List.replicate n 'x', rest) →
        ∃ m, n = m + 1 ∧ c = 'x' ∧
          jsonReadLoop size s (out ++ [c]) = some (out ++ [c] ++ List.replicate m 'x', rest) := by
    intro s out rest c n h
    have hstarts := (List.prefix_append_right_inj out).mp (prefix_of_jsonReadLoop h)
    cases n with
    | zero => exact absurd hstarts (by simp)
    | succ m =>
      have hc : c = 'x' := (List.cons_prefix_cons.mp hstarts).1
      refine ⟨m, rfl, hc, ?_⟩
      rw [h, hc, List.append_assoc]
      rfl
  fun_induction jsonReadLoop size s out generalizing n with
  | case1 | case3 | case4 | case5 | case7 => exact absurd h (by simp)
  | case2 s out =>
    obtain ⟨hout, rfl⟩ := Prod.mk.inj (Option.some.inj h)
    have hn : List.replicate n 'x' = [] := List.append_cancel_left (hout.symm.trans (by simp))
    rw [hn]
    rfl
  | case6 e s out c hc hroom ih =>
    obtain ⟨m, -, hx, -⟩ := hnext h
    rw [hx] at hc
    unfold jsonUnescape at hc
    split at hc <;> exact absurd hc (by decide)
  | case8 =>
    rename_i c s out _ _ hroom ih
    obtain ⟨m, rfl, rfl, hrest⟩ := hnext h
    rw [ih hrest]
    rfl

/-- A long run of `x` between two quotes stands in one place. -/
theorem append_inj_replicate {a A r C : CStr} {n : ℕ} (hA : A.length < n) (hC : C.length < n)
    (h : a ++ '"' :: (List.replicate n 'x' ++ '"' :: r) =
      A ++ '"' :: (List.replicate n 'x' ++ '"' :: C)) : a = A := by
  -- a quote behind `m` characters of the run
  have hinside : ∀ {m : ℕ} {b s t : CStr}, b.length = m → m < n →
      List.replicate n 'x' ++ s ≠ b ++ '"' :: t := by
    intro m b s t hb hm heq
    have hget := congrArg (fun l => l[m]?) heq
    simp [List.getElem?_append, hb, hm] at hget
  rcases List.append_eq_append_iff.mp h with ⟨b, hb, hrun⟩ | ⟨b, hb, hrun⟩
  · cases b with
    | nil => rw [hb, List.append_nil]
    | cons c b =>
      have hlen := congrArg List.length hb
      rw [List.length_append, List.length_cons] at hlen
      exact absurd (List.cons.inj hrun).2 (hinside rfl (by omega))
  · cases b with
    | nil => rw [hb, List.append_nil]
    | cons c b =>
      have hrest : List.replicate n 'x' ++ '"' :: C =
          b ++ '"' :: (List.replicate n 'x' ++ '"' :: r) := (List.cons.inj hrun).2
      by_cases hlt : b.length < n
      · exact absurd hrest (hinside rfl hlt)
      · have hlen := congrArg List.length hrest
        simp only [List.length_append, List.length_replicate, List.length_cons] at hlen
        omega

/-- Escapes bring no quotes. -/
theorem count_escaped (s : CStr) : (escaped s).count '"' = s.count '"' := by
  induction s with
  | nil => rfl
  | cons c s ih =>
    rw [escaped, List.flatMap_cons, List.count_append, ← escaped, ih]
    rcases jsonByte_cases c with ⟨h, hesc, -⟩ | ⟨e, t, h, hlt, hmem, -⟩ | ⟨h, -⟩
    · rw [h]
      rcases hesc with rfl | rfl <;> simp [Nat.add_comm]
    · have hc : c ≠ '"' := by
        rintro rfl
        exact absurd hlt (by decide)
      have hzero : ('\\' :: e :: t).count '"' = 0 :=
        List.count_eq_zero.mpr (by simpa using hmem)
      rw [h, hzero, List.count_cons_of_ne hc, Nat.zero_add]
    · rw [h, List.count_cons, List.count_cons, List.count_nil]
      omega

/-- A name with escapes does not stand in front of its value. -/
theorem ne_of_escaped_ne (hf : escaped f ≠ f) (a A : CStr) :
    a ++ needleOf f ≠ A ++ '"' :: (escaped f ++ ['"']) := by
  intro heq
  have hsplit : a ++ ['"'] ++ f = A ++ ['"'] ++ escaped f := by
    have hcut : a ++ ['"'] ++ f ++ ['"'] = A ++ ['"'] ++ escaped f ++ ['"'] := by
      simpa [needleOf] using heq
    exact List.append_cancel_right hcut
  have hle := length_le_escaped f
  rcases List.append_eq_append_iff.mp hsplit with ⟨b, hb, hrest⟩ | ⟨b, hb, hrest⟩
  · have hlen := congrArg List.length hrest
    rw [List.length_append] at hlen
    have hnil : b = [] := List.length_eq_zero_iff.mp (by omega)
    rw [hnil] at hrest
    exact hf hrest.symm
  · rcases List.eq_nil_or_concat' b with rfl | ⟨b, d, rfl⟩
    · exact hf hrest
    · have hd : d = '"' := by
        rw [← List.append_assoc] at hb
        exact (List.singleton_inj.mp (List.append_inj_right' hb rfl)).symm
      have hcount := congrArg (List.count '"') hrest
      rw [hd, count_escaped, List.count_append, List.count_append] at hcount
      simp at hcount

/-- The text in front of a member and behind it. -/
theorem objectText_split (pre : List (CStr × CStr)) (k : CStr) (post : List (CStr × CStr)) :
    ∃ A, ∀ v, objectText (pre ++ (k, v) :: post) =
      A ++ '"' :: (escaped k ++ ['"']) ++ ':' :: '"' :: (escaped v ++ '"' :: membersTail post) := by
  have htail : ∀ pre : List (CStr × CStr), ∃ A, ∀ v, membersTail (pre ++ (k, v) :: post) =
      A ++ (memberText (k, v) ++ membersTail post) := by
    intro pre
    induction pre with
    | nil => exact ⟨[','], fun v => membersTail_cons _ _⟩
    | cons m pre ih =>
      obtain ⟨A, hA⟩ := ih
      refine ⟨',' :: (memberText m ++ A), ?_⟩
      intro v
      rw [List.cons_append, membersTail_cons, hA, List.cons_append, List.append_assoc]
  cases pre with
  | nil =>
    refine ⟨['{'], ?_⟩
    intro v
    rw [List.nil_append, objectText_cons, memberText_append]
    simp
  | cons m pre =>
    obtain ⟨A, hA⟩ := htail pre
    refine ⟨'{' :: (memberText m ++ A), ?_⟩
    intro v
    rw [List.cons_append, objectText_cons, hA, memberText_append k v]
    simp

theorem escaped_replicate (n : ℕ) : escaped (List.replicate n 'x') = List.replicate n 'x' := by
  refine escaped_eq_of_not_mem ?_
  intro hmem
  obtain ⟨c, hc, hbyte⟩ := List.mem_flatMap.mp hmem
  rw [List.eq_of_mem_replicate hc] at hbyte
  exact absurd hbyte (by decide)

/-- Under a name with escapes there is a value that is not found. -/
theorem exists_not_found (hf : escaped f ≠ f) (pre post : List (CStr × CStr)) :
    ∃ v, Printable v ∧ ∀ size,
      jsonGetStringField (objectText (pre ++ (f, v) :: post)) f size ≠ some v := by
  obtain ⟨A, hA⟩ := objectText_split pre f post
  set n := (A ++ '"' :: (escaped f ++ ['"']) ++ [':']).length + (membersTail post).length + 1 with hn
  refine ⟨List.replicate n 'x', ?_, ?_⟩
  · intro c hc
    rw [List.eq_of_mem_replicate hc]
    decide
  intro size hfound
  rw [jsonGetStringField] at hfound
  split at hfound
  · exact absurd hfound (by simp)
  obtain ⟨a, t, p, hbody, hcolon, hread⟩ := exists_of_scan hfound
  obtain ⟨r, rest, hr, hloop⟩ := exists_of_readMember hread
  have hrun := @eq_of_jsonReadLoop_replicate size r [] rest n hloop
  -- the value is read where it stands
  have hplace : a ++ needleOf f ++ (t.takeWhile isSpace ++ ':' :: p.takeWhile isSpace) =
      A ++ '"' :: (escaped f ++ ['"']) ++ [':'] := by
    have hjoin : a ++ needleOf f ++ (t.takeWhile isSpace ++ ':' :: p.takeWhile isSpace) ++
        '"' :: (List.replicate n 'x' ++ '"' :: rest) =
          A ++ '"' :: (escaped f ++ ['"']) ++ [':'] ++
            '"' :: (List.replicate n 'x' ++ '"' :: membersTail post) := by
      calc _ = a ++ needleOf f ++ (t.takeWhile isSpace ++ ':' :: (p.takeWhile isSpace ++
              '"' :: (List.replicate n 'x' ++ '"' :: rest))) := by simp
        _ = a ++ needleOf f ++ t := by
          rw [← hrun, ← hr, List.takeWhile_append_dropWhile, ← hcolon,
            List.takeWhile_append_dropWhile]
        _ = objectText (pre ++ (f, List.replicate n 'x') :: post) := hbody.symm
        _ = _ := by
          rw [hA, escaped_replicate]
          simp
    exact append_inj_replicate (by omega) (by omega) hjoin
  -- the name stands in front of the colon, without blanks
  have hblank : ∀ {l w m : CStr} {c : Char}, isSpace c = false →
      l ++ w.takeWhile isSpace = m ++ [c] → w.takeWhile isSpace = [] := by
    intro l w m c hc heq
    rcases List.eq_nil_or_concat' (w.takeWhile isSpace) with hnil | ⟨b, d, hw⟩
    · exact hnil
    · rw [hw, ← List.append_assoc] at heq
      have hd : d = c := List.singleton_inj.mp (List.append_inj_right' heq rfl)
      have hspace : isSpace d = true := List.mem_takeWhile_imp (by rw [hw]; simp)
      rw [hd, hc] at hspace
      exact absurd hspace (by decide)
  have hp : p.takeWhile isSpace = [] := by
    rw [List.append_cons, ← List.append_assoc] at hplace
    exact hblank (by decide) hplace
  rw [hp, ← List.append_assoc] at hplace
  have hname : a ++ needleOf f ++ t.takeWhile isSpace = A ++ '"' :: (escaped f ++ ['"']) :=
    List.append_cancel_right hplace
  have ht : t.takeWhile isSpace = [] := by
    refine @hblank (a ++ needleOf f) t (A ++ '"' :: escaped f) '"' (by decide) ?_
    rw [hname]
    simp
  rw [ht, List.append_nil] at hname
  exact ne_of_escaped_ne hf a A hname

/-! ## The separators as names -/

/-- Behind the blanks of a string stands its end, a colon, or something else. -/
theorem dropWhile_escaped (k s : CStr) :
    (escaped k ++ '"' :: s).dropWhile isSpace = '"' :: s ∨
      (∃ k', (escaped k ++ '"' :: s).dropWhile isSpace = ':' :: (escaped k' ++ '"' :: s)) ∨
      ∃ c t, (escaped k ++ '"' :: s).dropWhile isSpace = c :: t ∧ c ≠ '"' ∧ c ≠ ':' := by
  induction k with
  | nil => exact .inl (List.dropWhile_cons_of_neg (by decide))
  | cons c k ih =>
    have hsplit : escaped (c :: k) ++ '"' :: s = jsonByte c ++ (escaped k ++ '"' :: s) := by
      simp [escaped]
    rw [hsplit]
    have hslash : ∀ t, ('\\' :: t).dropWhile isSpace = '\\' :: t :=
      fun t => List.dropWhile_cons_of_neg (by decide)
    rcases jsonByte_cases c with ⟨h, -⟩ | ⟨e, t, h, -⟩ | ⟨h, hquote, -⟩
    · exact .inr (.inr ⟨'\\', _, by rw [h]; exact hslash _, by decide, by decide⟩)
    · exact .inr (.inr ⟨'\\', _, by rw [h]; exact hslash _, by decide, by decide⟩)
    · rw [h, List.singleton_append]
      by_cases hspace : isSpace c = true
      · rw [List.dropWhile_cons_of_pos hspace]
        exact ih
      · rw [List.dropWhile_cons_of_neg hspace]
        by_cases hcolon : c = ':'
        · exact .inr (.inl ⟨k, by rw [hcolon]⟩)
        · exact .inr (.inr ⟨c, _, rfl, hquote, hcolon⟩)

theorem readMember_value_ne {v w : CStr} (hw : w ≠ v) (hsize : 0 < size) (s : CStr) :
    readMember size ('"' :: (escaped w ++ '"' :: s)) ≠ some v := by
  rw [readMember_value hsize]
  split
  · exact fun h => hw (Option.some.inj h)
  · exact fun h => absurd h (by simp)

/-- The colon between a name and its value is taken for a name. -/
theorem colon_not_found (hsize : 0 < size) (k : CStr) (m : CStr × CStr)
    (members : List (CStr × CStr)) :
    jsonGetStringField (objectText ((k, [':']) :: m :: members)) [':'] size ≠ some ['x'] := by
  have hcolon : escaped [':'] = [':'] := by decide
  rw [jsonGetStringField_eq_scan _ (by decide), objectText_cons, scan_skip_of_ne (by decide),
    memberText_append, scan_escaped hcolon]
  split
  · rw [scan_hit rfl]
    exact readMember_value_ne (by decide) hsize _
  · have hhit := @scan_hit [':'] size (':' :: '"' :: membersTail (m :: members)) _ rfl
    obtain ⟨k', v'⟩ := m
    rw [hcolon]
    refine ne_of_eq_of_ne hhit ?_
    rw [membersTail_cons, memberText_append]
    exact @readMember_value_ne size ['x'] [','] (by decide) hsize _

/-- What is read from within a key is not `x`. -/
theorem readMember_escaped_ne (hsize : 0 < size) (k s : CStr) :
    readMember size (escaped k ++ '"' :: ':' :: '"' :: s) ≠ some ['x'] := by
  rw [readMember]
  rcases dropWhile_escaped k (':' :: '"' :: s) with hend | ⟨k', hcolon⟩ | ⟨c, t, hother, hc, -⟩
  · have hvalue := @readMember_value_ne size ['x'] [':'] (by decide) hsize s
    rw [readMember, List.dropWhile_cons_of_neg (by decide)] at hvalue
    rw [hend]
    exact hvalue
  · rw [hcolon]
    simp [jsonReadStringAt]
  · rw [hother]
    simp [jsonReadStringAt, hc]

/-- The members of an object in which `x` stands under a comma and nothing under the other keys. -/
def UnderComma (members : List (CStr × CStr)) : Prop :=
  ∀ m ∈ members, m.1 = [','] ∧ m.2 = ['x'] ∨ m.1 ≠ [','] ∧ m.2 = []

/-- Behind a key, only the text behind the value is left. -/
theorem scan_underComma {v : CStr} (hv : v = ['x'] ∨ v = []) (s : CStr) :
    scan (needleOf [',']) size ('"' :: ':' :: '"' :: (escaped v ++ '"' :: s)) =
      scan (needleOf [',']) size ('"' :: s) := by
  have hcolon := @scan_quote [','] size [':'] (by decide) (by decide) (by decide)
  refine (hcolon _).trans ?_
  rcases hv with rfl | rfl
  · exact @scan_quote [','] size ['x'] (by decide) (by decide) (by decide) s
  · exact @scan_quote [','] size [] (by decide) (by decide) (by decide) s

/-- A key is passed, or the empty value under it is found. -/
theorem scan_key_underComma (hsize : 0 < size) (k : CStr) {v : CStr} (hv : v = []) {s : CStr} 
    (hs : scan (needleOf [',']) size ('"' :: s) ≠ some ['x']) :
    scan (needleOf [',']) size ('"' :: (escaped k ++ '"' :: ':' :: '"' :: (escaped v ++ '"' :: s))) ≠
      some ['x'] := by
  rw [scan_escaped (by decide)]
  split
  · rw [scan_hit rfl]
    exact readMember_value_ne (by rw [hv]; decide) hsize _
  · rw [scan_underComma (.inr hv)]
    exact hs

/-- A key does not start with the name and a quote. -/
theorem not_prefix_comma {k : CStr} (hk : k ≠ [',']) (s : CStr) :
    ¬ needleOf [','] <+: '"' :: (escaped k ++ '"' :: s) := by
  intro hstarts
  have hkey : [',', '"'] <+: escaped k ++ '"' :: s := (List.cons_prefix_cons.mp hstarts).2
  -- the escaped form of a character does not start with a quote
  have hhead : ∀ (c d : Char) (u t : CStr), d :: u <+: jsonByte c ++ t → d ≠ '"' ∧
      (d ≠ '\\' → c = d ∧ u <+: t) := by
    intro c d u t hstarts
    rcases jsonByte_cases c with ⟨h, -⟩ | ⟨e, r, h, -⟩ | ⟨h, hquote, -⟩ <;> rw [h] at hstarts <;>
      obtain ⟨rfl, hrest⟩ := List.cons_prefix_cons.mp hstarts
    · exact ⟨by decide, fun hne => absurd rfl hne⟩
    · exact ⟨by decide, fun hne => absurd rfl hne⟩
    · exact ⟨hquote, fun _ => ⟨rfl, hrest⟩⟩
  have hsplit : ∀ (c : Char) (k : CStr), escaped (c :: k) ++ '"' :: s =
      jsonByte c ++ (escaped k ++ '"' :: s) := by
    intro c k
    simp [escaped]
  cases k with
  | nil => exact absurd (List.cons_prefix_cons.mp hkey).1 (by decide)
  | cons c k =>
    rw [hsplit] at hkey
    obtain ⟨rfl, hrest⟩ := (hhead _ _ _ _ hkey).2 (by decide)
    cases k with
    | nil => exact hk rfl
    | cons c k =>
      rw [hsplit] at hrest
      exact (hhead _ _ _ _ hrest).1 rfl

/-- The comma in front of a key is taken for a name, and its quote with it. -/
theorem comma_tail (hsize : 0 < size) {members : List (CStr × CStr)} (h : UnderComma members) :
    scan (needleOf [',']) size ('"' :: membersTail members) ≠ some ['x'] := by
  induction members with
  | nil =>
    have hnil : scan (needleOf [',']) size ('"' :: membersTail []) = none := by
      refine (scan_skip (by decide)).trans ?_
      exact (@scan_append [','] size (membersTail []) (by decide) []).trans scan_nil
    rw [hnil]
    simp
  | cons m members ih =>
    obtain ⟨k, v⟩ := m
    have htail := ih fun m hm => h m (List.mem_cons_of_mem _ hm)
    have hkv := h (k, v) (by simp)
    rw [membersTail_cons, memberText_append]
    change scan (needleOf [',']) size ('"' :: ([','] ++ '"' :: (escaped k ++ '"' :: ':' :: '"' ::
      (escaped v ++ '"' :: membersTail members)))) ≠ some ['x']
    -- the key without the quote in front of it
    have hinside : scan (needleOf [',']) size (escaped k ++ '"' :: ':' :: '"' ::
        (escaped v ++ '"' :: membersTail members)) ≠ some ['x'] := by
      rcases hkv with ⟨hk, hv⟩ | ⟨hk, hv⟩
      · dsimp only at hk hv
        rw [hk]
        refine ne_of_eq_of_ne (scan_skip_of_ne (c := ',') (by decide) _) ?_
        exact ne_of_eq_of_ne (scan_underComma (.inl hv) _) htail
      · have hkey := scan_key_underComma hsize k hv htail
        rwa [scan_skip (not_prefix_comma hk _)] at hkey
    rcases dropWhile_escaped k (':' :: '"' :: (escaped v ++ '"' :: membersTail members)) with
      hend | ⟨k', hcolon⟩ | ⟨c, t, hother, -, hc⟩
    · rw [scan_miss (by rw [hend]; simp)]
      exact hinside
    · rw [scan_hit hcolon]
      exact readMember_escaped_ne hsize k' _
    · rw [scan_miss (by rw [hother]; simp [hc])]
      exact hinside

/-- Under a comma that is not the first key there is a value that is not found. -/
theorem comma_not_found (hsize : 0 < size) (k : CStr) {members : List (CStr × CStr)}
    (h : UnderComma members) :
    jsonGetStringField (objectText ((k, []) :: members)) [','] size ≠ some ['x'] := by
  rw [jsonGetStringField_eq_scan _ (by decide), objectText_cons, scan_skip_of_ne (by decide),
    memberText_append]
  exact scan_key_underComma hsize k rfl (comma_tail hsize h)

/-! ## The names that are found -/

/-- A name of at most 93 bytes, without escapes, is found if it is the first key. Elsewhere it must
not be a separator, and no key before it may end in a quote and the name. -/
def Findable (keys : List CStr) (f : CStr) : Prop :=
  f.length ≤ 93 ∧ escaped f = f ∧
    (keys.head? = some f ∨
      f ≠ [','] ∧ f ≠ [':'] ∧ ∀ k ∈ keys.takeWhile (· ≠ f), lastPart k ≠ f)

instance (keys : List CStr) (f : CStr) : Decidable (Findable keys f) :=
  inferInstanceAs (Decidable (_ ∧ _))

theorem lastPart_of_escaped_eq (hf : escaped f = f) : lastPart f = f := by
  refine List.rtakeWhile_eq_self_iff.mpr ?_
  intro c hc
  have hquote := (not_mem_of_escaped_eq hf).1
  simp only [decide_eq_true_eq]
  rintro rfl
  exact hquote hc

/-- A key has one value. -/
theorem value_eq {members : List (CStr × CStr)} {v w : CStr}
    (hnodup : (((f, w) :: members).map Prod.fst).Nodup) (hmem : (f, v) ∈ (f, w) :: members) :
    w = v := by
  rcases List.mem_cons.mp hmem with heq | hmem
  · exact (Prod.mk.inj heq).2.symm
  · exact absurd (List.mem_map.mpr ⟨_, hmem, rfl⟩) (List.nodup_cons.mp hnodup).1

/-- Under a findable name every printable value that fits is found. -/
theorem found_of_findable {members : List (CStr × CStr)} {v : CStr}
    (h : Findable (members.map Prod.fst) f) (hnodup : (members.map Prod.fst).Nodup)
    (hmem : (f, v) ∈ members) (hfit : v.length < size) (hprint : Printable v) :
    jsonGetStringField (objectText members) f size = some v := by
  obtain ⟨hlen, hf, hplace⟩ := h
  have hsize : 0 < size := Nat.zero_lt_of_lt hfit
  rcases hplace with hfirst | ⟨hcomma, hcolon, hbefore⟩
  · cases members with
    | nil => exact absurd hmem (by simp)
    | cons m members =>
      obtain ⟨k, w⟩ := m
      obtain rfl : k = f := by simpa using hfirst
      rw [jsonGetStringField_first hf hlen hsize, value_eq hnodup hmem, if_pos ⟨hprint, hfit⟩]
  · have hfind : members.find? (fun m => lastPart m.1 = f) = some (f, v) := by
      induction members with
      | nil => exact absurd hmem (by simp)
      | cons m members ih =>
        obtain ⟨k, w⟩ := m
        by_cases hk : k = f
        · subst hk
          rw [List.find?_cons_of_pos (by simpa using lastPart_of_escaped_eq hf),
            value_eq hnodup hmem]
        · have htake : (((k, w) :: members).map Prod.fst).takeWhile (· ≠ f) =
              k :: (members.map Prod.fst).takeWhile (· ≠ f) :=
            List.takeWhile_cons_of_pos (by simpa using hk)
          rw [htake] at hbefore
          have hne : lastPart k ≠ f := hbefore k (by simp)
          rw [List.find?_cons_of_neg (by simpa using hne)]
          refine ih (List.nodup_cons.mp hnodup).2 ?_ fun k' hk' =>
            hbefore k' (List.mem_cons_of_mem k hk')
          rcases List.mem_cons.mp hmem with heq | hmem
          · exact absurd (Prod.mk.inj heq).1.symm hk
          · exact hmem
    rw [jsonGetStringField_plain hf hcomma hcolon hlen hsize, hfind, Option.bind_some,
      if_pos ⟨hprint, hfit⟩]

/-- An object in which the other keys have the value `u`. -/
def assign (keys : List CStr) (f v u : CStr) : List (CStr × CStr) :=
  keys.map fun k => (k, if k = f then v else u)

theorem assign_fst (keys : List CStr) (f v u : CStr) :
    (assign keys f v u).map Prod.fst = keys := by
  rw [assign, List.map_map]
  exact List.map_id keys

theorem mem_assign {keys : List CStr} (hf : f ∈ keys) (v u : CStr) :
    (f, v) ∈ assign keys f v u :=
  List.mem_map.mpr ⟨f, hf, by rw [if_pos rfl]⟩

theorem underComma_assign (keys : List CStr) : UnderComma (assign keys [','] ['x'] []) := by
  intro m hm
  obtain ⟨k, -, rfl⟩ := List.mem_map.mp hm
  by_cases hk : k = [','] <;> simp [hk]

/-- A key that ends in a quote and the name is found first. -/
theorem find?_assign {keys : List CStr} {v u : CStr}
    (h : ∃ k ∈ keys.takeWhile (· ≠ f), lastPart k = f) :
    ∃ k, (assign keys f v u).find? (fun m => lastPart m.1 = f) = some (k, u) := by
  induction keys with
  | nil => obtain ⟨k, hk, -⟩ := h; exact absurd hk (by simp)
  | cons k keys ih =>
    obtain ⟨k', hk', hlast⟩ := h
    by_cases hk : k = f
    · rw [List.takeWhile_cons_of_neg (by simpa using hk)] at hk'
      exact absurd hk' (by simp)
    · rw [List.takeWhile_cons_of_pos (by simpa using hk)] at hk'
      have hassign : assign (k :: keys) f v u = (k, u) :: assign keys f v u := by
        simp [assign, hk]
      rw [hassign]
      by_cases hlast' : lastPart k = f
      · exact ⟨k, List.find?_cons_of_pos (by simpa using hlast')⟩
      · rw [List.find?_cons_of_neg (by simpa using hlast')]
        refine ih ⟨k', (List.mem_cons.mp hk').resolve_left ?_, hlast⟩
        rintro rfl
        exact hlast' hlast

/-- The values of a key with escapes. -/
theorem assign_append {s t : List CStr} (hs : f ∉ s) (ht : f ∉ t) (v u : CStr) :
    assign (s ++ f :: t) f v u = s.map (fun k => (k, u)) ++ (f, v) :: t.map fun k => (k, u) := by
  have hother : ∀ {l : List CStr}, f ∉ l → assign l f v u = l.map fun k => (k, u) := by
    intro l hl
    refine List.map_congr_left ?_
    intro k hk
    rw [if_neg]
    rintro rfl
    exact hl hk
  have hsplit : assign (s ++ f :: t) f v u = assign s f v u ++ (f, v) :: assign t f v u := by
    simp [assign]
  rw [hsplit, hother hs, hother ht]

/-- Under a name that is not findable there is a printable value that is not found. -/
theorem not_found_of_not_findable {keys : List CStr} (hnodup : keys.Nodup) (hmem : f ∈ keys)
    (h : ¬ Findable keys f) :
    ∃ v u, Printable v ∧
      jsonGetStringField (objectText (assign keys f v u)) f (v.length + 1) ≠ some v := by
  have hx : Printable ['x'] := by decide
  by_cases hlen : f.length ≤ 93
  · by_cases hf : escaped f = f
    · obtain ⟨hfirst, hsep⟩ := not_or.mp fun hplace => h ⟨hlen, hf, hplace⟩
      obtain ⟨k, keys, rfl⟩ := List.exists_cons_of_ne_nil (List.ne_nil_of_mem hmem)
      have hk : k ≠ f := fun hk => hfirst (by rw [hk]; rfl)
      have hassign : ∀ v u, assign (k :: keys) f v u = (k, u) :: assign keys f v u := by
        intro v u
        simp [assign, hk]
      by_cases hcomma : f = [',']
      · subst hcomma
        refine ⟨['x'], [], hx, ?_⟩
        rw [hassign]
        exact comma_not_found (by decide) k (underComma_assign keys)
      by_cases hcolon : f = [':']
      · subst hcolon
        refine ⟨['x'], [':'], hx, ?_⟩
        have hmem' : [':'] ∈ keys := (List.mem_cons.mp hmem).resolve_left (Ne.symm hk)
        obtain ⟨k', keys, rfl⟩ := List.exists_cons_of_ne_nil (List.ne_nil_of_mem hmem')
        rw [hassign]
        exact colon_not_found (by decide) k _ _
      · have hbefore : ∃ k' ∈ (k :: keys).takeWhile (· ≠ f), lastPart k' = f := by
          by_contra hno
          exact hsep ⟨hcomma, hcolon, fun k' hk' hlast => hno ⟨k', hk', hlast⟩⟩
        obtain ⟨k', hfind⟩ := @find?_assign f _ ['x'] [] hbefore
        refine ⟨['x'], [], hx, ?_⟩
        rw [jsonGetStringField_plain hf hcomma hcolon hlen (by decide), hfind, Option.bind_some]
        split <;> simp
    · obtain ⟨s, t, rfl⟩ := List.append_of_mem hmem
      obtain ⟨hs, ht⟩ : f ∉ s ∧ f ∉ t := by
        have hhead := (List.nodup_cons.mp (List.nodup_middle.mp hnodup)).1
        rwa [List.mem_append, not_or] at hhead
      obtain ⟨v, hprint, hne⟩ := exists_not_found hf (s.map fun k => (k, [])) (t.map fun k => (k, []))
      refine ⟨v, [], hprint, ?_⟩
      rw [assign_append hs ht]
      exact hne _
  · refine ⟨[], [], by simp [Printable], ?_⟩
    rw [jsonGetStringField, if_pos (by omega)]
    simp

/-- **Under which names the values are found.** With the given keys, every printable value that fits
is found exactly under the findable names; a value with a control character is never found. -/
theorem jsonGetStringField_iff {keys : List CStr} (hnodup : keys.Nodup) (hmem : f ∈ keys) :
    ((∀ members size v, members.map Prod.fst = keys → (f, v) ∈ members → v.length < size →
        Printable v → jsonGetStringField (objectText members) f size = some v) ↔
      Findable keys f) ∧
    ∀ members size v, members.map Prod.fst = keys → (f, v) ∈ members → v.length < size →
      ¬ Printable v → jsonGetStringField (objectText members) f size ≠ some v := by
  refine ⟨⟨?_, ?_⟩, ?_⟩
  · intro hall
    by_contra hnot
    obtain ⟨v, u, hprint, hne⟩ := not_found_of_not_findable hnodup hmem hnot
    exact hne (hall _ _ v (assign_fst keys f v u) (mem_assign hmem v u) (Nat.lt_succ_self _) hprint)
  · rintro h members size v rfl hv hfit hprint
    exact found_of_findable h hnodup hv hfit hprint
  · intro members size v _ _ _ hcontrol hfound
    exact hcontrol (printable_of_jsonGetStringField hfound)

/-- The two keys of an insertion. -/
theorem jsonGetStringField_iff_insert :
    ((∀ members size v, members.map Prod.fst = ["english".toList, "korean".toList] →
        ("korean".toList, v) ∈ members → v.length < size → Printable v →
          jsonGetStringField (objectText members) "korean".toList size = some v) ↔
      Findable ["english".toList, "korean".toList] "korean".toList) ∧
    ∀ members size v, members.map Prod.fst = ["english".toList, "korean".toList] →
      ("korean".toList, v) ∈ members → v.length < size → ¬ Printable v →
        jsonGetStringField (objectText members) "korean".toList size ≠ some v :=
  jsonGetStringField_iff (by decide) (by decide)

/-- A line break is written as an escape that the reader undoes and then rejects. -/
theorem jsonGetStringField_newline :
    jsonGetStringField (objectText [("note".toList, "a\nb".toList)]) "note".toList 16 ≠
      some "a\nb".toList := by
  decide +kernel

end MiniSql
