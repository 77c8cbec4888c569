import MiniSql.RouterJson

/-!
# Parameters of a query

A form sends its fields as `key=value`, joined with `&`, and escapes what the values may contain.
`query_param` cuts the query at each `&`, looks for the first piece that starts with the key and a
`=`, and undoes the escapes.

## Main definitions

* `EncodedByte`, `EncodedValue` — the ways to escape a byte and a value.
* `FormField`, `formQuery` — a field of a form, and the query that the form sends.

## Main results

* `urlDecodeLoop_encoded` — `url_decode` undoes the escapes.
* `queryParam_formQuery` — `query_param` finds the first value with a key.
-/

namespace MiniSql
open CText

/-! ## Escapes -/

/-- The characters that need no escape. -/
def isUnreserved (c : Char) : Bool := c.isAlphanum || c == '-' || c == '.' || c == '_' || c == '~'

/-- The digit of a hexadecimal number, in either case. -/
def HexDigit (n : ℕ) (c : Char) : Prop :=
  "0123456789abcdef".toList[n]? = some c ∨ "0123456789ABCDEF".toList[n]? = some c

/-- The ways to write a byte. -/
inductive EncodedByte : Char → CStr → Prop
  | plain {c : Char} (h : isUnreserved c = true) : EncodedByte c [c]
  | space : EncodedByte ' ' ['+']
  | escape {c a b : Char} {hi lo : ℕ} (ha : HexDigit hi a) (hb : HexDigit lo b)
      (hc : c.toNat = 16 * hi + lo) : EncodedByte c ['%', a, b]

/-- The ways to write a value. -/
inductive EncodedValue : CStr → CStr → Prop
  | nil : EncodedValue [] []
  | cons {c : Char} {e value encoded : CStr} (hbyte : EncodedByte c e)
      (hrest : EncodedValue value encoded) : EncodedValue (c :: value) (e ++ encoded)

theorem fromHex_of_hexDigit {n : ℕ} {c : Char} (h : HexDigit n c) : fromHex c = some n := by
  have hlower : ∀ i : Fin 16, ("0123456789abcdef".toList[(i : ℕ)]?).bind fromHex = some (i : ℕ) := by
    decide
  have hupper : ∀ i : Fin 16, ("0123456789ABCDEF".toList[(i : ℕ)]?).bind fromHex = some (i : ℕ) := by
    decide
  rcases h with h | h
  · have hlt : n < 16 := (List.getElem?_eq_some_iff.mp h).1
    have hn := hlower ⟨n, hlt⟩
    rw [h] at hn
    exact hn
  · have hlt : n < 16 := (List.getElem?_eq_some_iff.mp h).1
    have hn := hupper ⟨n, hlt⟩
    rw [h] at hn
    exact hn

theorem HexDigit.ne_of_notMem {n : ℕ} {c d : Char} (h : HexDigit n c)
    (hlower : d ∉ "0123456789abcdef".toList) (hupper : d ∉ "0123456789ABCDEF".toList) : c ≠ d := by
  intro heq
  rw [heq] at h
  rcases h with h | h
  · exact hlower (List.mem_of_getElem? h)
  · exact hupper (List.mem_of_getElem? h)

/-- A character that needs an escape is another one. -/
theorem ne_of_isUnreserved {c d : Char} (h : isUnreserved c = true) (hd : isUnreserved d = false) :
    c ≠ d := by
  intro heq
  rw [heq, hd] at h
  exact absurd h (by simp)

/-- An escaped byte contains no separator. -/
theorem EncodedByte.ne_of_mem {c : Char} {e : CStr} (h : EncodedByte c e) :
    ∀ d ∈ e, d ≠ '&' ∧ d ≠ '=' := by
  intro d hd
  cases h with
  | plain h =>
    obtain rfl : d = c := by simpa using hd
    exact ⟨ne_of_isUnreserved h (by decide), ne_of_isUnreserved h (by decide)⟩
  | space =>
    obtain rfl : d = '+' := by simpa using hd
    exact ⟨by decide, by decide⟩
  | @escape _ a b _ _ ha hb _ =>
    have hcases : d = '%' ∨ d = a ∨ d = b := by simpa using hd
    rcases hcases with rfl | rfl | rfl
    · exact ⟨by decide, by decide⟩
    · exact ⟨ha.ne_of_notMem (by decide) (by decide), ha.ne_of_notMem (by decide) (by decide)⟩
    · exact ⟨hb.ne_of_notMem (by decide) (by decide), hb.ne_of_notMem (by decide) (by decide)⟩

theorem EncodedValue.ne_of_mem {value encoded : CStr} (h : EncodedValue value encoded) :
    ∀ d ∈ encoded, d ≠ '&' ∧ d ≠ '=' := by
  induction h with
  | nil => simp
  | cons hbyte _ ih =>
    intro d hd
    rcases List.mem_append.mp hd with hd | hd
    · exact hbyte.ne_of_mem d hd
    · exact ih d hd

/-- `url_decode` gives an escaped byte back, whatever is behind it. -/
theorem urlDecodeLoop_byte {c : Char} {e : CStr} (h : EncodedByte c e) (room : ℕ) (s : CStr) :
    urlDecodeLoop (room + 1) (e ++ s) = c :: urlDecodeLoop room s := by
  have hplain : ∀ d : Char, d ≠ '%' → percentByte (d :: s) = none := by
    intro d hd
    unfold percentByte
    split
    · rename_i heq
      exact absurd (List.cons.inj heq).1 hd
    · rfl
  cases h with
  | plain h =>
    rw [List.singleton_append, urlDecodeLoop, hplain c (ne_of_isUnreserved h (by decide))]
    dsimp only
    rw [if_neg (ne_of_isUnreserved h (by decide))]
  | space =>
    rw [List.singleton_append, urlDecodeLoop, hplain '+' (by decide)]
    rfl
  | @escape _ a b hi lo ha hb hc =>
    have hbyte : percentByte ('%' :: a :: b :: s) = some (Char.ofNat (16 * hi + lo), s) := by
      rw [percentByte, fromHex_of_hexDigit ha, fromHex_of_hexDigit hb]
      rfl
    rw [List.cons_append, List.cons_append, List.singleton_append, urlDecodeLoop, hbyte]
    dsimp only
    rw [← hc, Char.ofNat_toNat]

/-- **`url_decode` undoes the escapes of a value that it has room for.** -/
theorem urlDecodeLoop_encoded {value encoded : CStr} (h : EncodedValue value encoded) {room : ℕ}
    (hroom : value.length ≤ room) : urlDecodeLoop room encoded = value := by
  induction h generalizing room with
  | nil => cases room <;> rfl
  | cons hbyte _ ih =>
    cases room with
    | zero => exact absurd hroom (by simp)
    | succ room =>
      rw [urlDecodeLoop_byte hbyte, ih (Nat.le_of_succ_le_succ hroom)]

/-! ## Forms -/

/-- A field of a form, with its value as it is sent. -/
structure FormField where
  key : CStr
  value : CStr
  encoded : CStr
  key_ok : ∀ c ∈ key, c.isAlphanum = true
  nulFree : NulFree value
  encodes : EncodedValue value encoded

/-- The field as it is sent. -/
def FormField.piece (f : FormField) : CStr := f.key ++ '=' :: f.encoded

/-- The query that a form sends. -/
def formQuery (fields : List FormField) : CStr := ['&'].intercalate (fields.map FormField.piece)

/-- A parameter that is looked up is the first one with its key. -/
structure ReadsForm (fields : List FormField) : Prop where
  found : ∀ (key : CStr) (size : ℕ) [NeZero size] (f : FormField),
    (fields.find? fun f => f.key = key) = some f → f.encoded.length ≤ 1023 →
    f.value.length < size →
    ∃ param, queryParam (formQuery fields) key size = some param ∧ param.1 = f.value
  missing : ∀ (key : CStr) (size : ℕ) [NeZero size], (∀ f ∈ fields, f.key ≠ key) →
    queryParam (formQuery fields) key size = none

theorem FormField.ne_of_mem_key (f : FormField) : ∀ c ∈ f.key, c ≠ '&' ∧ c ≠ '=' := by
  intro c hc
  have hplain : isUnreserved c = true := by simp [isUnreserved, f.key_ok c hc]
  exact ⟨ne_of_isUnreserved hplain (by decide), ne_of_isUnreserved hplain (by decide)⟩

theorem FormField.notMem_piece (f : FormField) : '&' ∉ f.piece := by
  intro h
  rcases List.mem_append.mp h with h | h
  · exact (f.ne_of_mem_key _ h).1 rfl
  · rcases List.mem_cons.mp h with h | h
    · exact absurd h (by decide)
    · exact (f.encodes.ne_of_mem _ h).1 rfl

/-- Two keys in front of a `=` end there: the rest has none, and the key that is sent neither. -/
theorem FormField.isPrefixOf_piece_iff (f : FormField) (key : CStr) :
    (key ++ ['=']).isPrefixOf f.piece = true ↔ f.key = key := by
  rw [List.isPrefixOf_iff_prefix]
  constructor
  · intro h
    obtain ⟨rest, hrest⟩ := h
    rw [piece, List.append_assoc, List.singleton_append, List.append_eq_append_iff] at hrest
    rcases hrest with ⟨mid, hkey, hmid⟩ | ⟨mid, hkey, hmid⟩
    · cases mid with
      | nil => rw [hkey, List.append_nil]
      | cons d mid =>
        obtain rfl : '=' = d := (List.cons.inj hmid).1
        exact absurd rfl (f.ne_of_mem_key '=' (by simp [hkey])).2
    · cases mid with
      | nil => rw [hkey, List.append_nil]
      | cons d mid =>
        have hin : '=' ∈ f.encoded := by
          rw [(List.cons.inj hmid).2]
          simp
        exact absurd rfl (f.encodes.ne_of_mem '=' hin).2
  · rintro rfl
    exact ⟨f.encoded, by rw [piece, List.append_assoc, List.singleton_append]⟩

/-- The piece that is found is that of the first field with the key. -/
theorem find?_formQuery (fields : List FormField) (key : CStr) :
    ((formQuery fields).splitOn '&').find? (fun piece => (key ++ ['=']).isPrefixOf piece) =
      (fields.find? fun f => f.key = key).map FormField.piece := by
  cases hfields : fields with
  | nil =>
    have hempty : (key ++ ['=']).isPrefixOf [] = false := by cases key <;> rfl
    simp [formQuery, hempty]
  | cons f₀ rest =>
    rw [← hfields, formQuery, List.splitOn_intercalate, List.find?_map]
    · congr 2
      funext f
      rw [Bool.eq_iff_iff, decide_eq_true_iff]
      exact f.isPrefixOf_piece_iff key
    · intro piece hpiece
      obtain ⟨f, -, rfl⟩ := List.mem_map.mp hpiece
      exact f.notMem_piece
    · simp [hfields]

/-- **`query_param` reads what a form sends: the first value with the key, and nothing where no
field has it.** -/
theorem queryParam_formQuery (fields : List FormField) : ReadsForm fields where
  found key size _ f hfind hencoded hsize := by
    have hkey : f.key = key := by simpa using List.find?_some hfind
    unfold queryParam
    rw [find?_formQuery, hfind]
    refine ⟨_, rfl, ?_⟩
    have hdrop : f.piece.drop (key.length + 1) = f.encoded := by
      rw [FormField.piece, hkey, List.drop_append, List.drop_of_length_le (by omega)]
      simp
    have hpos : 0 < size := Nat.pos_of_neZero size
    unfold urlDecode
    dsimp only
    rw [hdrop, List.take_of_length_le hencoded, urlDecodeLoop_encoded f.encodes (by omega)]
    exact cstr_of_nulFree f.nulFree
  missing key size _ hmissing := by
    unfold queryParam
    rw [find?_formQuery, List.find?_eq_none.mpr]
    · rfl
    · intro f hf
      simpa using hmissing f hf

end MiniSql
