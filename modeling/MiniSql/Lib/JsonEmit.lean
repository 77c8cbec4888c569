import MiniSql.Lib.Json

/-!
# JSON texts from parts

A scanner that knows only where the strings of a text are. It ends outside of strings on every JSON
text, and stops at a control character within a string, which JSON does not allow. Arrays and
objects are put together from texts that end outside of strings, and are JSON if the scanner passes these.

## Main definitions

* `Lexer` — the scanner.
* `Closed`, `Clean` — texts that end outside of strings, and texts that the scanner passes.
* `Emits` — a text that is one of a value if the scanner passes it.
* `Value.Distinct` — no object has two members of one name.

## Main results

* `JsonText.clean` — the scanner passes every JSON text.
* `emits_arr`, `emits_obj` — arrays and objects from such texts.
-/

namespace Json

/-- Outside of strings, within one, and behind a backslash within one. -/
inductive Lexer
  | out | str | esc
  deriving DecidableEq

namespace Lexer

/-- The state behind one more character. -/
def step : Lexer → Char → Option Lexer
  | out, c => some (if c = '"' then str else out)
  | str, c =>
    if c = '"' then some out else if c = '\\' then some esc
    else if ' ' ≤ c then some str else none
  | esc, _ => some str

/-- The state behind a text, if no control character stands in a string. -/
def run : Lexer → Text → Option Lexer
  | l, [] => some l
  | l, c :: t => (l.step c).bind fun l' => run l' t

@[simp] theorem run_nil (l : Lexer) : l.run [] = some l := rfl

theorem run_append (l : Lexer) (s t : Text) :
    l.run (s ++ t) = (l.run s).bind fun l' => l'.run t := by
  induction s generalizing l with
  | nil => rfl
  | cons c s ih =>
    rw [List.cons_append, run, run, Option.bind_assoc]
    exact congrArg _ (funext fun l' => ih l')

end Lexer

/-- A text that ends outside of strings, if no control character stands in one. -/
def Closed (t : Text) : Prop := ∀ l, Lexer.run .out t = some l → l = .out

/-- A text that ends outside of strings, without control characters in them. -/
def Clean (t : Text) : Prop := Lexer.run .out t = some .out

instance (t : Text) : Decidable (Clean t) := inferInstanceAs (Decidable (_ = _))

variable {s t : Text}

theorem Clean.closed (h : Clean t) : Closed t := by
  intro l hl
  exact Option.some.inj (hl.symm.trans h)

theorem clean_append (hs : Closed s) : Clean (s ++ t) ↔ Clean s ∧ Clean t := by
  unfold Clean
  rw [Lexer.run_append]
  cases hrun : Lexer.run .out s with
  | none => simp
  | some l =>
    obtain rfl := hs l hrun
    simp

theorem Closed.append (hs : Closed s) (ht : Closed t) : Closed (s ++ t) := by
  intro l hl
  rw [Lexer.run_append] at hl
  cases hrun : Lexer.run .out s with
  | none =>
    rw [hrun] at hl
    exact absurd hl (by simp)
  | some l' =>
    obtain rfl := hs l' hrun
    rw [hrun] at hl
    exact ht l hl

/-- Nothing happens outside of strings. -/
theorem clean_of_no_quote (h : '"' ∉ t) : Clean t := by
  induction t with
  | nil => rfl
  | cons c t ih =>
    obtain ⟨hc, ht⟩ := not_or.mp (List.mem_cons.not.mp h)
    rw [Clean, Lexer.run, Lexer.step, if_neg fun heq => hc heq.symm]
    exact ih ht

theorem clean_cons {c : Char} (hc : c ≠ '"') : Clean (c :: t) ↔ Clean t := by
  have hone : Clean [c] := clean_of_no_quote (by simpa using hc.symm)
  rw [← List.singleton_append, clean_append hone.closed, and_iff_right hone]

theorem Closed.cons {c : Char} (hc : c ≠ '"') (ht : Closed t) : Closed (c :: t) := by
  have hone : Clean [c] := clean_of_no_quote (by simpa using hc.symm)
  exact hone.closed.append ht

/-! ## Strings -/

/-- A string without control characters, as it is written with its quotes. -/
theorem run_str {body : Text} (h : Lexer.run .str body = some .str) :
    Clean ('"' :: (body ++ ['"'])) := by
  rw [Clean, Lexer.run, Lexer.step, if_pos rfl, Option.bind_some, Lexer.run_append, h]
  rfl

theorem hexOf_spec {c : Char} {n : ℕ} (h : hexOf c = some n) : c ≠ '"' ∧ c ≠ '\\' ∧ ' ' ≤ c := by
  have hquote : hexOf '"' = none := by decide
  have hslash : hexOf '\\' = none := by decide
  refine ⟨?_, ?_, ?_⟩
  · rintro rfl
    exact absurd (hquote.symm.trans h) (by simp)
  · rintro rfl
    exact absurd (hslash.symm.trans h) (by simp)
  · unfold hexOf at h
    split_ifs at h with h₁ h₂ h₃
    · exact Char.le_trans (by decide) h₁.1
    · exact Char.le_trans (by decide) h₂.1
    · exact Char.le_trans (by decide) h₃.1

/-- An item leaves the scanner within the string. -/
theorem ItemText.run {item : Item} (h : ItemText item t) : Lexer.run .str t = some .str := by
  cases h with
  | @raw c hle hquote hslash =>
    rw [Lexer.run, Lexer.step, if_neg hquote, if_neg hslash, if_pos hle]
    rfl
  | escape h => rfl
  | @unit a b c d u h =>
    have hhex : ∃ n m k j, hexOf a = some n ∧ hexOf b = some m ∧ hexOf c = some k ∧
        hexOf d = some j := by
      simp only [unitOf, bind, Option.bind_eq_some_iff] at h
      obtain ⟨n, ha, m, hb, k, hc, j, hd, -⟩ := h
      exact ⟨n, m, k, j, ha, hb, hc, hd⟩
    obtain ⟨n, m, k, j, ha, hb, hc, hd⟩ := hhex
    have hstep : ∀ {e : Char} {i : ℕ}, hexOf e = some i → Lexer.step .str e = some .str := by
      intro e i he
      obtain ⟨hquote, hslash, hlow⟩ := hexOf_spec he
      rw [Lexer.step, if_neg hquote, if_neg hslash, if_pos hlow]
    have hescape : Lexer.run .str ['\\', 'u', a, b, c, d] = Lexer.run .str [a, b, c, d] := rfl
    rw [hescape, Lexer.run, hstep ha, Option.bind_some, Lexer.run, hstep hb, Option.bind_some,
      Lexer.run, hstep hc, Option.bind_some, Lexer.run, hstep hd]
    rfl

theorem run_items {items : List (Item × Text)} (h : ∀ p ∈ items, ItemText p.1 p.2) :
    Lexer.run .str (items.map Prod.snd).flatten = some .str := by
  induction items with
  | nil => rfl
  | cons p items ih =>
    rw [List.map_cons, List.flatten_cons, Lexer.run_append, (h p (by simp)).run, Option.bind_some]
    exact ih fun q hq => h q (by simp [hq])

/-! ## Every JSON text -/

theorem closed_commaSep {texts : List Text} (h : ∀ t ∈ texts, Closed t) :
    Closed (commaSep texts) := by
  induction texts with
  | nil => exact (clean_of_no_quote (by simp [commaSep])).closed
  | cons t texts ih =>
    have ht := h t (by simp)
    have hrest := ih fun u hu => h u (List.mem_cons_of_mem _ hu)
    cases texts with
    | nil => exact ht
    | cons u texts => exact ht.append (hrest.cons (by decide))

theorem clean_commaSep {texts : List Text} (h : ∀ t ∈ texts, Closed t) :
    Clean (commaSep texts) ↔ ∀ t ∈ texts, Clean t := by
  induction texts with
  | nil => exact iff_of_true (clean_of_no_quote (by simp [commaSep])) (by simp)
  | cons t texts ih =>
    have ht := h t (by simp)
    have hrest := ih fun u hu => h u (List.mem_cons_of_mem _ hu)
    cases texts with
    | nil => simp [commaSep]
    | cons u texts =>
      rw [commaSep, clean_append ht, clean_cons (by decide), hrest,
        List.forall_mem_cons (l := u :: texts)]

/-- A text between brackets or braces. -/
theorem clean_enclosed {opening closing : Char} (hopening : opening ≠ '"')
    (hclosing : closing ≠ '"') (ht : Closed t) : Clean (opening :: (t ++ [closing])) ↔ Clean t := by
  have hlast : Clean [closing] := clean_of_no_quote (by simpa using hclosing.symm)
  rw [clean_cons hopening, clean_append ht, and_iff_left hlast]

theorem Closed.enclosed {opening closing : Char} (hopening : opening ≠ '"')
    (hclosing : closing ≠ '"') (ht : Closed t) : Closed (opening :: (t ++ [closing])) := by
  have hlast : Clean [closing] := clean_of_no_quote (by simpa using hclosing.symm)
  exact (ht.append hlast.closed).cons hopening

theorem no_quote_of_isWs {ws : Text} (h : ∀ c ∈ ws, isWs c = true) : '"' ∉ ws :=
  fun hmem => absurd (h _ hmem) (by decide)

/-- **The scanner passes every JSON text.** -/
theorem JsonText.clean {v : Value} (h : JsonText v t) : Clean t := by
  induction h with
  | litNull => decide
  | litTrue => decide
  | litFalse => decide
  | num h =>
    apply clean_of_no_quote
    intro hmem
    exact absurd (isAtomChar_of_isNumber h _ hmem) (by decide)
  | str h => exact run_str (run_items h)
  | emptyArr hws =>
    have hclean := clean_of_no_quote (no_quote_of_isWs hws)
    exact (clean_enclosed (by decide) (by decide) hclean.closed).mpr hclean
  | @arr items hne h ih =>
    have htexts : ∀ t ∈ items.map Prod.snd, Clean t := by
      intro t ht
      obtain ⟨p, hp, rfl⟩ := List.mem_map.mp ht
      exact ih p hp
    have hclosed := fun t ht => (htexts t ht).closed
    rw [clean_enclosed (by decide) (by decide) (closed_commaSep hclosed), clean_commaSep hclosed]
    exact htexts
  | emptyObj hws =>
    have hclean := clean_of_no_quote (no_quote_of_isWs hws)
    exact (clean_enclosed (by decide) (by decide) hclean.closed).mpr hclean
  | @obj members hne hkey hvalue ihkey ihvalue =>
    have htexts : ∀ t ∈ members.map fun m => m.2.1 ++ ':' :: m.2.2, Clean t := by
      intro t ht
      obtain ⟨m, hm, rfl⟩ := List.mem_map.mp ht
      rw [clean_append (ihkey m hm).closed, clean_cons (by decide)]
      exact ⟨ihkey m hm, ihvalue m hm⟩
    have hclosed := fun t ht => (htexts t ht).closed
    rw [clean_enclosed (by decide) (by decide) (closed_commaSep hclosed), clean_commaSep hclosed]
    exact htexts
  | pad hbefore hafter h ih =>
    have hfirst := clean_of_no_quote (no_quote_of_isWs hbefore)
    rw [clean_append (hfirst.closed.append ih.closed), clean_append hfirst.closed]
    exact ⟨⟨hfirst, ih⟩, clean_of_no_quote (no_quote_of_isWs hafter)⟩

/-! ## Texts from parts -/

/-- A text that ends outside of strings, and is one of the value if no control character stands in a
string. -/
structure Emits (v : Value) (t : Text) : Prop where
  closed : Closed t
  text : Clean t → JsonText v t

variable {v : Value}

theorem JsonText.emits (h : JsonText v t) : Emits v t := ⟨h.clean.closed, fun _ => h⟩

theorem clean_arrText {texts : List Text} (h : ∀ t ∈ texts, Closed t) :
    Clean (arrText texts) ↔ ∀ t ∈ texts, Clean t := by
  rw [arrText, clean_enclosed (by decide) (by decide) (closed_commaSep h), clean_commaSep h]

/-- An array from the texts of its elements. -/
theorem emits_arr {items : List (Value × Text)} (h : ∀ p ∈ items, Emits p.1 p.2) :
    Emits (.arr (items.map Prod.fst)) (arrText (items.map Prod.snd)) := by
  have hclosed : ∀ t ∈ items.map Prod.snd, Closed t := by
    intro t ht
    obtain ⟨p, hp, rfl⟩ := List.mem_map.mp ht
    exact (h p hp).closed
  refine ⟨(closed_commaSep hclosed).enclosed (by decide) (by decide), fun hclean => ?_⟩
  rw [clean_arrText hclosed] at hclean
  apply jsonText_arr
  intro p hp
  exact (h p hp).text (hclean p.2 (List.mem_map_of_mem hp))

/-- A member with a plain name. -/
theorem closed_memberText {m : Text × Text} (hname : IsPlain m.1) (h : Closed m.2) :
    Closed (memberText m) := by
  have hkey := (jsonText_plain hname).clean.closed
  have hmember := hkey.append (h.cons (c := ':') (by decide))
  rw [memberText]
  simpa using hmember

theorem clean_memberText {m : Text × Text} (hname : IsPlain m.1) :
    Clean (memberText m) ↔ Clean m.2 := by
  have hkey := (jsonText_plain hname).clean
  have hmember : memberText m = '"' :: (m.1 ++ ['"']) ++ ':' :: m.2 := by
    rw [memberText]
    simp
  rw [hmember, clean_append hkey.closed, and_iff_right hkey, clean_cons (by decide)]

theorem clean_objText {members : List (Text × Text)} (h : ∀ m ∈ members, IsPlain m.1 ∧ Closed m.2) :
    Clean (objText members) ↔ ∀ m ∈ members, Clean m.2 := by
  have hclosed : ∀ t ∈ members.map memberText, Closed t := by
    intro t ht
    obtain ⟨m, hm, rfl⟩ := List.mem_map.mp ht
    exact closed_memberText (h m hm).1 (h m hm).2
  rw [objText_eq, clean_enclosed (by decide) (by decide) (closed_commaSep hclosed),
    clean_commaSep hclosed, List.forall_mem_map]
  exact forall₂_congr fun m hm => clean_memberText (h m hm).1

theorem closed_objText {members : List (Text × Text)}
    (h : ∀ m ∈ members, IsPlain m.1 ∧ Closed m.2) :
    Closed (objText members) := by
  have hclosed : ∀ t ∈ members.map memberText, Closed t := by
    intro t ht
    obtain ⟨m, hm, rfl⟩ := List.mem_map.mp ht
    exact closed_memberText (h m hm).1 (h m hm).2
  rw [objText_eq]
  exact (closed_commaSep hclosed).enclosed (by decide) (by decide)

/-- **An object from plain names and the texts of its members.** -/
theorem emits_obj {members : List (Text × Value × Text)} (hne : members ≠ [])
    (h : ∀ m ∈ members, IsPlain m.1 ∧ Emits m.2.1 m.2.2) :
    Emits (.obj (members.map fun m => (m.1, m.2.1)))
      (objText (members.map fun m => (m.1, m.2.2))) := by
  have hmembers : ∀ m ∈ members.map fun m => (m.1, m.2.2), IsPlain m.1 ∧ Closed m.2 := by
    intro p hp
    obtain ⟨m, hm, rfl⟩ := List.mem_map.mp hp
    exact ⟨(h m hm).1, (h m hm).2.closed⟩
  refine ⟨closed_objText hmembers, fun hclean => ?_⟩
  rw [clean_objText hmembers, List.forall_mem_map] at hclean
  apply jsonText_obj hne
  exact MembersOk.of_mem fun m hm => ⟨(h m hm).1, (h m hm).2.text (hclean m hm)⟩

/-! ## Names -/

/-- No object within the value has two members of one name. -/
inductive Value.Distinct : Value → Prop
  | null : Distinct .null
  | bool (b : Bool) : Distinct (.bool b)
  | num (t : Text) : Distinct (.num t)
  | str (s : Text) : Distinct (.str s)
  | arr {values : List Value} (h : ∀ v ∈ values, Distinct v) : Distinct (.arr values)
  | obj {members : List (Text × Value)} (hnames : (members.map Prod.fst).Nodup)
    (h : ∀ m ∈ members, Distinct m.2) : Distinct (.obj members)

end Json
