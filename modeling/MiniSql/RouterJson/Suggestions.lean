import MiniSql.RouterJson.Bodies
import MiniSql.RouterJson.Fields

/-!
# The suggestions from a result

`build_suggestions_array` looks for `"rows":[` in the document of the engine, reads the first cell
of each row, and skips the others. Brackets and quotes inside of cells do not lead it astray, and
where it runs out of room it fails.

## Main definitions

* `firstCells` — the first cells of the rows of a result.
* `Suggests` — what the function makes of a document.

## Main results

* `afterFirst_rows` — the place that `strstr` finds.
* `suggestionsLoop_rows` — the loop over the rows.
* `suggests_select` — the array for a `SELECT`.
-/

namespace MiniSql
open CText Json

/-! ## Skipping a string -/

theorem escaped_cons (c : Char) (k s : CStr) :
    escaped (c :: k) ++ s = jsonByte c ++ (escaped k ++ s) := by
  simp [escaped]

theorem skipJsonString_cons {c : Char} (hquote : c ≠ '"') (hslash : c ≠ '\\') (s : CStr) :
    skipJsonString (c :: s) = skipJsonString s := by
  rw [skipJsonString]
  · exact fun h => absurd h hquote
  · exact fun h _ => absurd h hslash
  · exact fun _ _ h _ => absurd h hslash

/-- The escape of a byte is skipped as a whole. -/
theorem skipJsonString_jsonByte (c : Char) (s : CStr) :
    skipJsonString (jsonByte c ++ s) = skipJsonString s := by
  unfold jsonByte
  split
  · rfl
  · rfl
  · rfl
  · rfl
  · rfl
  · rename_i hquote hslash _ _ _
    by_cases hlow : c.toNat < 0x20
    · have hdigit : ∀ (n : ℕ) (s : CStr),
          skipJsonString (Nat.digitChar (n % 16) :: s) = skipJsonString s := by
        intro n s
        have hall : ∀ k < 16, Nat.digitChar k ≠ '"' ∧ Nat.digitChar k ≠ '\\' := by decide
        have hk := hall (n % 16) (Nat.mod_lt n (by decide))
        exact skipJsonString_cons hk.1 hk.2 s
      rw [if_pos hlow, hex4]
      change skipJsonString ('\\' :: 'u' :: _ :: _ :: _ :: _ :: s) = _
      rw [skipJsonString, hdigit, hdigit, hdigit, hdigit]
    · rw [if_neg hlow, List.singleton_append]
      exact skipJsonString_cons hquote hslash s

/-- `skip_json_string` ends behind the quote that closes the string. -/
theorem skipJsonString_escaped (k s : CStr) : skipJsonString (escaped k ++ '"' :: s) = some s := by
  induction k with
  | nil => rfl
  | cons c k ih => rw [escaped_cons, skipJsonString_jsonByte, ih]

/-! ## The place of the rows -/

/-- `strstr` for a text that starts with a quote does not look at a text without one. -/
theorem afterFirst_append {needle u : CStr} (hu : '"' ∉ u) (s : CStr) :
    afterFirst ('"' :: needle) (u ++ s) = afterFirst ('"' :: needle) s := by
  induction u with
  | nil => rfl
  | cons c u ih =>
    have hc : '"' ≠ c := fun h => hu (List.mem_cons.mpr (Or.inl h))
    rw [List.cons_append, afterFirst, if_neg (by simp [List.isPrefixOf, hc]),
      ih fun h => hu (List.mem_cons_of_mem c h)]

/-- Nor does it stay at a quote behind which something else stands. -/
theorem afterFirst_quote {needle s : CStr} (h : ¬ needle <+: s) :
    afterFirst ('"' :: needle) ('"' :: s) = afterFirst ('"' :: needle) s := by
  rw [afterFirst, if_neg]
  rw [List.isPrefixOf_iff_prefix, List.cons_prefix_cons]
  exact fun hstarts => h hstarts.2

/-- Inside of a string, and at its end, there is no member. -/
theorem not_starts_member {w : CStr} (hquote : '"' ∉ w) (hslash : '\\' ∉ w) (v k : CStr) {d : Char}
    (hd : d ≠ ':') (s : CStr) : ¬ w ++ '"' :: ':' :: v <+: escaped k ++ '"' :: d :: s := by
  induction w generalizing k with
  | nil =>
    intro h
    cases k with
    | nil =>
      obtain ⟨-, h⟩ := List.cons_prefix_cons.mp h
      exact hd (List.cons_prefix_cons.mp h).1.symm
    | cons c k =>
      rw [escaped_cons] at h
      rcases jsonByte_cases c with ⟨hbyte, -⟩ | ⟨e, t, hbyte, -⟩ | ⟨hbyte, hc, -⟩
      · rw [hbyte] at h
        exact absurd (List.cons_prefix_cons.mp h).1 (by decide)
      · rw [hbyte] at h
        exact absurd (List.cons_prefix_cons.mp h).1 (by decide)
      · rw [hbyte] at h
        exact hc (List.cons_prefix_cons.mp h).1.symm
  | cons a w ih =>
    intro h
    have ha : a ≠ '"' ∧ a ≠ '\\' := ⟨fun h => hquote (by simp [h]), fun h => hslash (by simp [h])⟩
    cases k with
    | nil => exact ha.1 (List.cons_prefix_cons.mp h).1
    | cons c k =>
      rw [escaped_cons] at h
      rcases jsonByte_cases c with ⟨hbyte, -⟩ | ⟨e, t, hbyte, -⟩ | ⟨hbyte, -⟩
      · rw [hbyte] at h
        exact ha.2 (List.cons_prefix_cons.mp h).1
      · rw [hbyte] at h
        exact ha.2 (List.cons_prefix_cons.mp h).1
      · rw [hbyte] at h
        exact ih (fun h => hquote (List.mem_cons_of_mem a h)) (fun h => hslash (List.mem_cons_of_mem a h))
          k (List.cons_prefix_cons.mp h).2

/-- What `strstr` looks for, behind its first quote. -/
def rowsNeedle : CStr := "rows\":[".toList

theorem not_rowsNeedle (k : CStr) {d : Char} (hd : d ≠ ':') (s : CStr) :
    ¬ rowsNeedle <+: escaped k ++ '"' :: d :: s :=
  @not_starts_member "rows".toList (by decide) (by decide) ['['] k d hd s

/-- `strstr` passes a string that is not the name of a member. -/
theorem afterFirst_string (k : CStr) {d : Char} (hd : d ≠ ':') (s : CStr) :
    afterFirst ('"' :: rowsNeedle) (escaped k ++ '"' :: d :: s) =
      afterFirst ('"' :: rowsNeedle) ('"' :: d :: s) := by
  induction k with
  | nil => rfl
  | cons c k ih =>
    rw [escaped_cons]
    rcases jsonByte_cases c with ⟨hbyte, hc | hc, -⟩ | ⟨e, t, hbyte, -, hmem, -⟩ | ⟨hbyte, hc, -⟩
    · have hsplit : jsonByte c ++ (escaped k ++ '"' :: d :: s) =
          ['\\'] ++ '"' :: (escaped k ++ '"' :: d :: s) := by
        rw [hbyte, hc]
        rfl
      rw [hsplit, afterFirst_append (by decide), afterFirst_quote (not_rowsNeedle k hd s), ih]
    · rw [afterFirst_append (by rw [hbyte, hc]; decide), ih]
    · rw [afterFirst_append (by rw [hbyte]; simpa using hmem), ih]
    · rw [afterFirst_append (by rw [hbyte]; simpa using hc.symm), ih]

/-- It passes the names of the columns. -/
theorem afterFirst_strings (names : List CStr) (s : CStr) :
    afterFirst ('"' :: rowsNeedle) (commaSep (names.map jbAppendJsonString) ++ ']' :: s) =
      afterFirst ('"' :: rowsNeedle) (']' :: s) := by
  have hone : ∀ (k : CStr) {d : Char}, d ≠ ':' → d ≠ 'r' → ∀ s,
      afterFirst ('"' :: rowsNeedle) (jbAppendJsonString k ++ d :: s) =
        afterFirst ('"' :: rowsNeedle) (d :: s) := by
    intro k d hcolon hr s
    rw [jbAppendJsonString_append, afterFirst_quote (not_rowsNeedle k hcolon s),
      afterFirst_string k hcolon, afterFirst_quote]
    exact fun h => hr (List.cons_prefix_cons.mp h).1.symm
  induction names with
  | nil => rfl
  | cons k names ih =>
    cases names with
    | nil => exact hone k (by decide) (by decide) s
    | cons l names =>
      rw [List.map_cons, List.map_cons, commaSep, List.append_assoc, List.cons_append,
        hone k (by decide) (by decide)]
      rw [List.map_cons] at ih
      exact (@afterFirst_append rowsNeedle [','] (by decide) _).trans ih

/-- The text of a row. -/
def rowText (row : List CStr) : CStr := arrText (row.map jbAppendJsonString)

/-- **The rows of a result are found behind its columns.** -/
theorem afterFirst_rows (rs : RowSet) (s : CStr) :
    afterFirst "\"rows\":[".toList ("\x7b\"statements\":[".toList ++ (appendRowsetJson rs ++ s)) =
      some (commaSep (rs.rows.map rowText) ++ ("],\"row_count\":".toList ++
        (intText rs.rows.length ++ '}' :: s))) := by
  have hrows : (rs.rows.map fun row => '[' :: (commaLoop true (row.map jbAppendJsonString) ++ [']'])) =
      rs.rows.map rowText := by
    refine List.map_congr_left fun row _ => ?_
    rw [commaLoop_true]
    rfl
  have hbefore : ∀ t, afterFirst ('"' :: rowsNeedle)
      ("\x7b\"statements\":[\x7b\"ok\":true,\"type\":\"SELECT\",\"columns\":[".toList ++ t) =
        afterFirst ('"' :: rowsNeedle) t := fun t => rfl
  have hhere : ∀ t, afterFirst ('"' :: rowsNeedle) (']' :: (",\"rows\":[".toList ++ t)) = some t :=
    fun t => rfl
  have hsplit : "\x7b\"statements\":[".toList ++ (appendRowsetJson rs ++ s) =
      "\x7b\"statements\":[\x7b\"ok\":true,\"type\":\"SELECT\",\"columns\":[".toList ++
        (commaSep (rs.colNames.map jbAppendJsonString) ++ ']' :: (",\"rows\":[".toList ++
          (commaSep (rs.rows.map rowText) ++ ("],\"row_count\":".toList ++
            (intText rs.rows.length ++ '}' :: s))))) := by
    unfold appendRowsetJson
    rw [hrows, commaLoop_true, commaLoop_true]
    generalize commaSep (rs.colNames.map jbAppendJsonString) = names
    generalize commaSep (rs.rows.map rowText) = rows
    generalize intText rs.rows.length = count
    simp
  rw [hsplit]
  change afterFirst ('"' :: rowsNeedle) _ = _
  rw [hbefore, afterFirst_strings, hhere]

/-! ## One row -/

theorem commaSep_eq_flatMap (t : CStr) (ts : List CStr) :
    commaSep (t :: ts) = t ++ ts.flatMap fun u => ',' :: u := by
  induction ts generalizing t with
  | nil => simp [commaSep]
  | cons u ts ih =>
    rw [commaSep, ih, List.flatMap_cons]
    simp

/-- The inner loop skips the other cells of a row. -/
theorem skipRow_cells (cells : List CStr) (s : CStr) {n : ℕ}
    (hn : ((cells.flatMap fun c => ',' :: jbAppendJsonString c) ++ ']' :: s).length ≤ n) :
    skipRow n ((cells.flatMap fun c => ',' :: jbAppendJsonString c) ++ ']' :: s) = some s := by
  induction cells generalizing n with
  | nil =>
    cases n with
    | zero => exact absurd hn (by simp)
    | succ n => rfl
  | cons c cells ih =>
    have hsplit : ((c :: cells).flatMap fun c => ',' :: jbAppendJsonString c) ++ ']' :: s =
        ',' :: '"' :: (escaped c ++ '"' :: ((cells.flatMap fun c => ',' :: jbAppendJsonString c) ++
          ']' :: s)) := by
      rw [List.flatMap_cons, List.append_assoc, List.cons_append, jbAppendJsonString_append]
    rw [hsplit] at hn ⊢
    simp only [List.length_cons, List.length_append] at hn ih
    obtain ⟨m, rfl⟩ : ∃ m, n = m + 2 := ⟨n - 2, by omega⟩
    rw [skipRow]
    · rw [skipRow, skipJsonString_escaped]
      exact ih (by omega)
    · simp
    · simp

/-- What the loop does with a row: its first cell is read, if there is one. -/
theorem suggestionsLoop_row (size n : ℕ) (first : Bool) (row : List CStr) (s out : CStr) :
    suggestionsLoop size (n + 1) first (rowText row ++ s) out =
      match row with
      | [] => suggestionsLoop size n first s out
      | cell :: _ =>
        if Printable cell ∧ cell.length < 256 then
          (appendSuggestion size first cell out).bind (suggestionsLoop size n false s)
        else none := by
  have hread : ∀ t : CStr, suggestionsLoop size (n + 1) first ('[' :: '"' :: t) out =
      (jsonReadLoop 256 t []).bind fun p => (appendSuggestion size first p.1 out).bind fun out =>
        (skipRow p.2.length p.2).bind fun rest => suggestionsLoop size n false rest out := fun t => rfl
  cases row with
  | nil =>
    rw [rowText, arrText]
    rfl
  | cons cell cells =>
    have htext : rowText (cell :: cells) ++ s = '[' :: '"' :: (escaped cell ++
        '"' :: ((cells.flatMap fun c => ',' :: jbAppendJsonString c) ++ ']' :: s)) := by
      rw [rowText, arrText, List.map_cons, commaSep_eq_flatMap, List.flatMap_map, List.append_assoc,
        jbAppendJsonString_append]
      simp
    rw [htext, hread, @jsonReadLoop_escaped 256 [] (by simp)]
    simp only [List.length_nil, zero_add, List.nil_append]
    by_cases hcell : Printable cell ∧ cell.length < 256
    · rw [if_pos hcell, if_pos hcell, Option.bind_some]
      rw [skipRow_cells cells s le_rfl]
      rfl
    · rw [if_neg hcell, if_neg hcell]
      rfl

/-! ## The room of the array -/

/-- A printable byte is escaped like in the document, or the array is full. -/
theorem appendJsonEscaped_cons {size : ℕ} {c : Char} (hc : 0x20 ≤ c.toNat) (text out : CStr) :
    (out.length + (jsonByte c).length < size →
        appendJsonEscaped size (c :: text) out = appendJsonEscaped size text (out ++ jsonByte c)) ∧
      (size ≤ out.length + (jsonByte c).length →
        size ≤ (appendJsonEscaped size (c :: text) out).length + 1) := by
  have hcontrol : c ≠ '\n' ∧ c ≠ '\r' ∧ c ≠ '\t' := by
    refine ⟨?_, ?_, ?_⟩ <;> rintro rfl <;> exact absurd hc (by decide)
  have hnl : ¬ (c = '\n' ∧ out.length + 2 < size) := fun h => hcontrol.1 h.1
  have hcr : ¬ (c = '\r' ∧ out.length + 2 < size) := fun h => hcontrol.2.1 h.1
  have htab : ¬ (c = '\t' ∧ out.length + 2 < size) := fun h => hcontrol.2.2 h.1
  rw [appendJsonEscaped, if_neg hnl, if_neg hcr, if_neg htab, if_pos hc]
  rcases jsonByte_cases c with ⟨hbyte, hesc, -⟩ | ⟨e, t, -, hlow, -⟩ | ⟨hbyte, hquote, hslash, -⟩
  · rw [hbyte, List.length_cons, List.length_singleton]
    constructor
    · intro hroom
      rw [if_pos (by omega), if_pos ⟨hesc, hroom⟩]
    · intro hfull
      by_cases hroom : out.length + 1 < size
      · rw [if_pos hroom, if_neg (fun h => absurd h.2 (by omega))]
        -- the last byte of the room
        have hlast : appendJsonEscaped size text (out ++ [c]) = out ++ [c] := by
          cases text with
          | nil => rfl
          | cons d text =>
            have hno : ¬ (out ++ [c]).length + 1 < size := by
              rw [List.length_append, List.length_singleton]
              omega
            rw [appendJsonEscaped, if_neg hno]
        rw [hlast, List.length_append, List.length_singleton]
        omega
      · rw [if_neg hroom]
        omega
  · omega
  · rw [hbyte, List.length_singleton]
    have hplain : ¬ ((c = '"' ∨ c = '\\') ∧ out.length + 2 < size) :=
      fun h => h.1.elim hquote hslash
    rw [if_neg hplain]
    constructor
    · intro hroom
      rw [if_pos hroom]
    · intro hfull
      rw [if_neg (by omega)]
      omega

theorem length_escaped_cons (c : Char) (text : CStr) :
    (escaped (c :: text)).length = (jsonByte c).length + (escaped text).length := by
  rw [escaped, List.flatMap_cons, List.length_append, escaped]

/-- A printable text that fits is written as a whole. -/
theorem appendJsonEscaped_fits {size : ℕ} {text : CStr} (hprint : Printable text) {out : CStr}
    (hfits : out.length + (escaped text).length < size) :
    appendJsonEscaped size text out = out ++ escaped text := by
  induction text generalizing out with
  | nil => simp [appendJsonEscaped, escaped]
  | cons c text ih =>
    rw [length_escaped_cons] at hfits
    have hrest : (out ++ jsonByte c).length + (escaped text).length < size := by
      rw [List.length_append]
      omega
    rw [(appendJsonEscaped_cons (hprint c (by simp)) text out).1 (by omega),
      ih (fun d hd => hprint d (List.mem_cons_of_mem c hd)) hrest, List.append_assoc]
    rfl

/-- After one that does not fit there is no room for a quote. -/
theorem appendJsonEscaped_full {size : ℕ} {text : CStr} (hprint : Printable text) {out : CStr}
    (hfull : size ≤ out.length + (escaped text).length + 1) :
    size ≤ (appendJsonEscaped size text out).length + 1 := by
  induction text generalizing out with
  | nil => simpa [appendJsonEscaped, escaped] using hfull
  | cons c text ih =>
    obtain ⟨hstep, hend⟩ := @appendJsonEscaped_cons size c (hprint c (by simp)) text out
    by_cases hroom : out.length + (jsonByte c).length < size
    · rw [length_escaped_cons] at hfull
      rw [hstep hroom]
      refine ih (fun d hd => hprint d (List.mem_cons_of_mem c hd)) ?_
      rw [List.length_append]
      omega
    · exact hend (by omega)

/-- A value is appended as a whole, or there is an error. -/
theorem appendSuggestion_eq {size : ℕ} {value : CStr} (hprint : Printable value) (first : Bool)
    (out : CStr) :
    appendSuggestion size first value out =
      if (out ++ (if first then [] else [',']) ++ jbAppendJsonString value).length < size then
        some (out ++ (if first then [] else [',']) ++ jbAppendJsonString value)
      else none := by
  have hlen : (jbAppendJsonString value).length = (escaped value).length + 2 := by
    simp [jbAppendJsonString, escaped]
  have hquoted : ∀ before : CStr,
      ((appendChar size before '"').bind fun out =>
        appendChar size (appendJsonEscaped size value out) '"') =
          if (before ++ jbAppendJsonString value).length < size then
            some (before ++ jbAppendJsonString value) else none := by
    intro before
    have hopen : (before ++ ['"']).length = before.length + 1 := by simp
    rw [List.length_append, hlen]
    by_cases hfits : before.length + ((escaped value).length + 2) < size
    · have htext := @appendJsonEscaped_fits size value hprint (before ++ ['"']) (by omega)
      rw [if_pos hfits, appendChar, if_neg (by omega), Option.bind_some, htext, appendChar, if_neg]
      · simp [jbAppendJsonString, escaped]
      · rw [List.length_append, hopen]
        omega
    · rw [if_neg hfits, appendChar]
      by_cases hroom : size ≤ before.length + 1
      · rw [if_pos hroom]
        rfl
      · have hfull := @appendJsonEscaped_full size value hprint (before ++ ['"']) (by omega)
        rw [if_neg hroom, Option.bind_some, appendChar, if_pos hfull]
  unfold appendSuggestion
  cases first with
  | true =>
    rw [if_pos rfl, if_pos rfl, Option.bind_some, hquoted, List.append_nil]
  | false =>
    simp only [Bool.false_eq_true, if_false]
    by_cases hroom : size ≤ out.length + 1
    · have hno : ¬ (out ++ [','] ++ jbAppendJsonString value).length < size := by
        rw [List.length_append, List.length_append, List.length_singleton]
        omega
      rw [if_neg hno, appendChar, if_pos hroom]
      rfl
    · rw [appendChar, if_neg hroom, Option.bind_some, hquoted]

/-! ## All rows -/

/-- The first cells of the rows. -/
def firstCells (rows : List (List CStr)) : List CStr := rows.filterMap List.head?

/-- The array with more values is longer. -/
theorem length_commaSep_le (us ts : List CStr) :
    (commaSep us).length ≤ (commaSep (us ++ ts)).length := by
  induction ts generalizing us with
  | nil => rw [List.append_nil]
  | cons t ts ih =>
    have hmore := ih (us ++ [t])
    rw [List.append_assoc, List.singleton_append] at hmore
    refine le_trans ?_ hmore
    rw [commaSep_concat, List.append_assoc, List.length_append]
    exact Nat.le_add_right _ _

/-- **The loop appends the first cell of each row, and ends behind the last row.** -/
theorem suggestionsLoop_rows {size : ℕ} {rows : List (List CStr)}
    (hprint : ∀ c ∈ firstCells rows, Printable c) (texts : List CStr) {n : ℕ} (hn : rows.length < n)
    (hroom : ('[' :: commaSep texts).length < size) (s : CStr) :
    suggestionsLoop size n texts.isEmpty ((rows.flatMap fun row => ',' :: rowText row) ++ ']' :: s)
        ('[' :: commaSep texts) =
      if (∀ c ∈ firstCells rows, c.length < 256) ∧
          ('[' :: commaSep (texts ++ (firstCells rows).map jbAppendJsonString)).length < size then
        some ('[' :: commaSep (texts ++ (firstCells rows).map jbAppendJsonString))
      else none := by
  induction rows generalizing texts n with
  | nil =>
    obtain ⟨m, rfl⟩ : ∃ m, n = m + 1 := ⟨n - 1, by omega⟩
    have hcells : firstCells [] = [] := rfl
    rw [hcells, List.map_nil, List.append_nil, if_pos ⟨by simp, hroom⟩]
    rfl
  | cons row rows ih =>
    obtain ⟨m, rfl⟩ : ∃ m, n = m + 1 := ⟨n - 1, by omega⟩
    have hcomma : ∀ t out, suggestionsLoop size (m + 1) texts.isEmpty (',' :: t) out =
        suggestionsLoop size (m + 1) texts.isEmpty t out := fun _ _ => rfl
    have hm : rows.length < m := by simpa using hn
    rw [List.flatMap_cons, List.append_assoc, List.cons_append, hcomma, suggestionsLoop_row]
    cases row with
    | nil => exact ih hprint texts hm hroom
    | cons cell cells =>
      have hcells : firstCells ((cell :: cells) :: rows) = cell :: firstCells rows := rfl
      rw [hcells] at hprint ⊢
      have hcell : Printable cell := hprint cell (by simp)
      have hnext : '[' :: commaSep texts ++ (if texts.isEmpty then [] else [',']) ++
          jbAppendJsonString cell = '[' :: commaSep (texts ++ [jbAppendJsonString cell]) := by
        rw [commaSep_concat]
        rfl
      have hall : texts ++ (cell :: firstCells rows).map jbAppendJsonString =
          texts ++ [jbAppendJsonString cell] ++ (firstCells rows).map jbAppendJsonString := by simp
      dsimp only
      rw [appendSuggestion_eq hcell, hnext, hall]
      by_cases hshort : cell.length < 256
      · rw [if_pos ⟨hcell, hshort⟩]
        by_cases hfits : ('[' :: commaSep (texts ++ [jbAppendJsonString cell])).length < size
        · have hempty : (texts ++ [jbAppendJsonString cell]).isEmpty = false := by simp
          have hrest := ih (fun c hc => hprint c (List.mem_cons_of_mem _ hc))
            (texts ++ [jbAppendJsonString cell]) hm hfits
          rw [hempty] at hrest
          rw [if_pos hfits, Option.bind_some, hrest]
          refine if_congr (and_congr_left fun _ => ?_) rfl rfl
          rw [List.forall_mem_cons]
          exact (and_iff_right hshort).symm
        · rw [if_neg hfits, Option.bind_none, if_neg]
          intro h
          have hle := length_commaSep_le (texts ++ [jbAppendJsonString cell])
            ((firstCells rows).map jbAppendJsonString)
          rw [List.length_cons] at hfits h
          omega
      · rw [if_neg (fun h => hshort h.2), if_neg]
        exact fun h => hshort (h.1 cell (by simp))

/-- The array of the first cells. -/
def suggestionsText (rows : List (List CStr)) : CStr :=
  arrText ((firstCells rows).map jbAppendJsonString)

/-- The array for a document with a result in it. -/
theorem buildSuggestionsArray_rowset {size : ℕ} {rs : RowSet}
    (hprint : ∀ c ∈ firstCells rs.rows, Printable c) (s : CStr) :
    buildSuggestionsArray size ("\x7b\"statements\":[".toList ++ (appendRowsetJson rs ++ s)) =
      if (∀ c ∈ firstCells rs.rows, c.length < 256) ∧
          (suggestionsText rs.rows).length + 1 ≤ size then
        some (suggestionsText rs.rows)
      else none := by
  rw [buildSuggestionsArray, afterFirst_rows]
  have htail : commaSep (rs.rows.map rowText) ++ ("],\"row_count\":".toList ++
      (intText rs.rows.length ++ '}' :: s)) =
      commaSep (rs.rows.map rowText) ++ ']' :: (",\"row_count\":".toList ++
        (intText rs.rows.length ++ '}' :: s)) := rfl
  rw [htail]
  generalize ",\"row_count\":".toList ++ (intText rs.rows.length ++ '}' :: s) = rest
  by_cases hopen : size ≤ 1
  · have hshort : ¬ (suggestionsText rs.rows).length + 1 ≤ size := by
      unfold suggestionsText arrText
      rw [List.length_cons]
      omega
    rw [if_neg (fun h => hshort h.2), appendChar, if_pos (show size ≤ ([] : CStr).length + 1 from hopen)]
    rfl
  · have hcommas : ∀ n, suggestionsLoop size (n + 1) true (commaSep (rs.rows.map rowText) ++ ']' :: rest)
        ['['] = suggestionsLoop size (n + 1) true
          ((rs.rows.flatMap fun row => ',' :: rowText row) ++ ']' :: rest) ['['] := by
      intro n
      cases rs.rows with
      | nil => rfl
      | cons row rows =>
        rw [List.map_cons, commaSep_eq_flatMap, List.flatMap_map]
        rfl
    have hlen := length_texts_le (rs.rows.map rowText)
    rw [List.length_map] at hlen
    have hloop := @suggestionsLoop_rows size rs.rows hprint []
      ((commaSep (rs.rows.map rowText) ++ ']' :: rest).length + 1)
      (by rw [List.length_append, List.length_cons]; omega)
      (by rw [commaSep, List.length_singleton]; omega) rest
    rw [appendChar, if_neg (show ¬ size ≤ ([] : CStr).length + 1 from hopen)]
    simp only [Option.bind_eq_bind, Option.bind_some, List.nil_append]
    rw [hcommas]
    rw [List.isEmpty_nil, List.nil_append, commaSep] at hloop
    rw [hloop]
    have hclose : suggestionsText rs.rows =
        ('[' :: commaSep ((firstCells rs.rows).map jbAppendJsonString)) ++ [']'] := rfl
    generalize '[' :: commaSep ((firstCells rs.rows).map jbAppendJsonString) = written at hclose ⊢
    rw [hclose, List.length_append, List.length_singleton]
    by_cases hshort : ∀ c ∈ firstCells rs.rows, c.length < 256
    · by_cases hfits : written.length + 1 + 1 ≤ size
      · rw [if_pos ⟨hshort, by omega⟩, if_pos ⟨hshort, hfits⟩, Option.bind_some, appendChar,
          if_neg (by omega)]
      · have hno : ¬ ((∀ c ∈ firstCells rs.rows, c.length < 256) ∧ written.length + 1 + 1 ≤ size) :=
          fun h => hfits h.2
        rw [if_neg hno]
        by_cases hlast : written.length < size
        · rw [if_pos ⟨hshort, hlast⟩, Option.bind_some, appendChar, if_pos (by omega)]
        · rw [if_neg (fun h => hlast h.2)]
          rfl
    · rw [if_neg (fun h => hshort h.1), if_neg (fun h => hshort h.1)]
      rfl

/-- The array decodes to the first cells. -/
theorem jsonText_suggestionsText (rows : List (List CStr)) :
    JsonText (.arr ((firstCells rows).map .str)) (suggestionsText rows) := by
  have hcells := @jsonText_arr ((firstCells rows).map fun c => (.str c, jbAppendJsonString c)) (by
    intro p hp
    obtain ⟨c, -, rfl⟩ := List.mem_map.mp hp
    exact jsonText_string c)
  rw [List.map_map, List.map_map] at hcells
  exact hcells

/-! ## The document of a SELECT -/

/-- Success gives the array of the first cells of all rows, and short cells are a success, if the array
fits with its terminator. -/
structure Suggests (size : ℕ) (json : CStr) (rs : RowSet) : Prop where
  decodes : ∀ out, buildSuggestionsArray size json = some out →
    JsonText (.arr ((firstCells rs.rows).map .str)) out
  succeeds : (∀ c ∈ firstCells rs.rows, c.length < 256) →
    (suggestionsText rs.rows).length + 1 ≤ size → (buildSuggestionsArray size json).isSome

section Select

variable [CDouble]

/-- **From the document for one successful `SELECT`, whose first cells are printable, the function
takes these cells, or it fails; and it fails only for a long cell or for a lack of room.** -/
theorem suggests_select {mem : ℕ → Uninit} {stray : ℕ → Bool} {elapsed lockWait : ℕ} {e : Engine}
    {sql : CStr} {x : Executed} (hdone : executed mem stray e sql = [x]) {q : ParsedSQL}
    (hparsed : x.parsed = some q) (hselect : q.type = .select) (hok : x.ok = true) :
    ∃ path rs, x.outcome = .rows path rs ∧
      ((∀ c ∈ firstCells rs.rows, Printable c) →
        ∀ size, Suggests size (engineExecJson mem stray elapsed lockWait e sql) rs) := by
  have hran : x.Ran := executed_ran x (by rw [hdone]; exact List.mem_singleton_self x)
  rcases hran.select hparsed hselect with ⟨path, rs, hrows, -⟩ | ⟨-, hfailed⟩
  · refine ⟨path, rs, hrows, fun hprint size => ?_⟩
    have hjson : x.json = appendRowsetJson rs := by
      unfold Executed.json
      simp only [hparsed, hselect, hrows]
    have hblank : isBlankSql sql = false := by
      cases hblank : isBlankSql sql with
      | false => rfl
      | true =>
        rw [executed_blank hblank] at hdone
        exact absurd hdone (by simp)
    have hdocument : ∃ s, engineExecJson mem stray elapsed lockWait e sql =
        "\x7b\"statements\":[".toList ++ (appendRowsetJson rs ++ s) := by
      rw [engineExecJson, if_neg (by simp [hblank])]
      dsimp only
      rw [hdone, List.map_singleton, hjson, commaLoop_true, commaSep]
      simp only [List.append_assoc]
      exact ⟨_, rfl⟩
    obtain ⟨s, hdocument⟩ := hdocument
    rw [hdocument]
    have hbuild := @buildSuggestionsArray_rowset size rs hprint s
    refine ⟨fun out hout => ?_, fun hshort hfits => ?_⟩
    · rw [hbuild] at hout
      split at hout
      · rw [← Option.some.inj hout]
        exact jsonText_suggestionsText rs.rows
      · exact absurd hout (by simp)
    · rw [hbuild, if_pos ⟨hshort, hfits⟩]
      rfl
  · rw [hok] at hfailed
    exact absurd hfailed (by simp)

end Select

/-- A table of two words, with a quote and brackets in the cells. -/
def wordFiles : Path → Option CStr := fun path =>
  if path = schemaPath .nested "t".toList then some "id,INT\nword,VARCHAR\n".toList
  else if path = tablePath .nested "t".toList then some "1,\"a\"\"]\"\n2,\"[b\"\n".toList
  else none

theorem suggests_select_words :
    ∃ x rs, @executed .whole (fun _ => .zero) (fun _ => false) (@engineInit .whole wordFiles)
        "SELECT word, id FROM t;".toList = [x] ∧
      ((∀ c ∈ firstCells rs.rows, Printable c) →
        ∀ size, Suggests size (@engineExecJson .whole (fun _ => .zero) (fun _ => false) 0 0
          (@engineInit .whole wordFiles) "SELECT word, id FROM t;".toList) rs) := by
  have hrun : (@executed .whole (fun _ => .zero) (fun _ => false) (@engineInit .whole wordFiles)
      "SELECT word, id FROM t;".toList).map (fun x => (x.parsed.map ParsedSQL.type, x.ok)) =
        [(some .select, true)] := by decide +kernel
  obtain ⟨x, hdone, hx⟩ := List.map_eq_singleton_iff.mp hrun
  obtain ⟨hparsed, hok⟩ := Prod.mk.inj hx
  obtain ⟨q, hparsed, hselect⟩ := Option.map_eq_some_iff.mp hparsed
  obtain ⟨path, rs, -, hsuggests⟩ := @suggests_select .whole (fun _ => .zero) (fun _ => false) 0 0
    (@engineInit .whole wordFiles) "SELECT word, id FROM t;".toList x hdone q hparsed hselect hok
  exact ⟨x, rs, hdone, hsuggests⟩

end MiniSql
