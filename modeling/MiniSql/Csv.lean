import MiniSql.Types

/-!
# Table files

A table is a CSV file. `write_csv_row` quotes a cell that holds a comma, a quote or a line
break; `read_csv_record` cuts one record off the file and `parse_csv_record` splits it into
cells. Every scan of a table repeats `read_csv_record` to the end of the file, so all of
them are functions of `csvRecords`.

## Main results

* `parseCsvRecord_csvLine` — a written row is read back as it was.
* `csvRecords_append` — what is appended behind a complete last line does not change the
  records before it.
-/

namespace MiniSql
open CText

/-! ## Writing -/

/-- The characters that make `write_csv_field` quote a cell. -/
def needsQuote (c : Char) : Bool := c == ',' || c == '"' || c == '\n' || c == '\r'

/-- A cell with its quotes doubled. -/
def doubleQuotes (v : CStr) : CStr := v.flatMap fun c => if c = '"' then ['"', '"'] else [c]

/-- `write_csv_field`. -/
def writeCsvField (v : CStr) : CStr :=
  if v.any needsQuote then '"' :: doubleQuotes v ++ ['"'] else v

/-- The cells of a row, separated by commas. -/
def csvLine : Row → CStr
  | [] => []
  | [v] => writeCsvField v
  | v :: w :: row => writeCsvField v ++ ',' :: csvLine (w :: row)

/-- `write_csv_row`. -/
def writeCsvRow (row : Row) : CStr := csvLine row ++ ['\n']

/-! ## Reading -/

/-- The result of `read_csv_record`: end of file, a record that never closes its quote, or
a record and the rest of the file. -/
inductive ReadResult
  | eof
  | malformed
  | record (text rest : CStr)
  deriving DecidableEq, Repr

/-- The loop of `read_csv_record`, with its `in_quotes` flag and buffer. -/
def readLoop : CStr → Bool → CStr → Option (CStr × CStr)
  | [], inQuotes, buf => if inQuotes then none else some (buf, [])
  | c :: s, inQuotes, buf =>
    if inQuotes = false ∧ c = '\n' then some (buf, s)
    else if inQuotes = false ∧ c = '\r' then
      some (buf, if s.head? = some '\n' then s.tail else s)
    else if c ≠ '"' then readLoop s inQuotes (buf ++ [c])
    else if inQuotes = false then readLoop s true (buf ++ [c])
    else
      let close := readLoop s false (buf ++ ['"'])
      match s with
      | d :: s' => if d = '"' then readLoop s' true (buf ++ ['"', '"']) else close
      | [] => close

/-- `read_csv_record`. -/
def readCsvRecord (file : CStr) : ReadResult :=
  if file = [] then .eof
  else match readLoop file false [] with
    | none => .malformed
    | some (text, rest) => .record text rest

/-- The loop of `parse_csv_record`, with its flags, the cell being read and the cells read. -/
def parseCsvLoop : CStr → (inQuotes justClosed : Bool) → CStr → Row → Option Row
  | [], inQuotes, _, buf, fields => if inQuotes then none else some (fields ++ [buf])
  | c :: s, true, _, buf, fields =>
    if c ≠ '"' then parseCsvLoop s true false (buf ++ [c]) fields
    else
      let close := parseCsvLoop s false true buf fields
      match s with
      | d :: s' => if d = '"' then parseCsvLoop s' true false (buf ++ ['"']) fields else close
      | [] => close
  | c :: s, false, true, buf, fields =>
    if c = ',' then parseCsvLoop s false false [] (fields ++ [buf]) else none
  | c :: s, false, false, buf, fields =>
    if c = '"' then if buf ≠ [] then none else parseCsvLoop s true false [] fields
    else if c = ',' then parseCsvLoop s false false [] (fields ++ [buf])
    else parseCsvLoop s false false (buf ++ [c]) fields

/-- `parse_csv_record`. The record is a C string, so a NUL byte of the file ends it. -/
def parseCsvRecord (record : CStr) : Option Row := parseCsvLoop (cstr record) false false [] []

/-- Repeat `read_csv_record`: the records read, and whether the loop ended at end of file. -/
def csvRecordsLoop : ℕ → CStr → List CStr × Bool
  | 0, _ => ([], true)
  | n + 1, file =>
    match readCsvRecord file with
    | .eof => ([], true)
    | .malformed => ([], false)
    | .record text rest => (text :: (csvRecordsLoop n rest).1, (csvRecordsLoop n rest).2)

/-- The records of a file. Every record uses up a byte, so the fuel is enough. -/
def csvRecords (file : CStr) : List CStr × Bool := csvRecordsLoop (file.length + 1) file

/-- One row of a table with `width` columns. -/
def parseRow (width : ℕ) (record : CStr) : Option Row :=
  (parseCsvRecord record).bind fun row => if row.length = width then some row else none

/-- `load_table_rows` on the content of the file. -/
def loadTableRows (file : CStr) (width : ℕ) : Option (List Row) :=
  if (csvRecords file).2 then (csvRecords file).1.mapM (parseRow width) else none

/-! ## Reading is a two-state scan -/

theorem readLoop_nil (q : Bool) (buf : CStr) :
    readLoop [] q buf = if q then none else some (buf, []) := by rw [readLoop]

/-- A quote toggles the flag; a doubled quote does so twice. -/
theorem readLoop_quote (s : CStr) (q : Bool) (buf : CStr) :
    readLoop ('"' :: s) q buf = readLoop s (!q) (buf ++ ['"']) := by
  cases q with
  | false => rw [readLoop]; simp
  | true =>
    rw [readLoop]
    cases s with
    | nil => simp
    | cons d s' =>
      by_cases hd : d = '"'
      · subst hd
        have hopen : readLoop ('"' :: s') false (buf ++ ['"']) =
            readLoop s' true (buf ++ ['"'] ++ ['"']) := by rw [readLoop]; simp
        simp [hopen]
      · simp [hd]

theorem readLoop_plain {c : Char} (s : CStr) {q : Bool} (buf : CStr) (hq : c ≠ '"')
    (h : q = true ∨ c ≠ '\n' ∧ c ≠ '\r') :
    readLoop (c :: s) q buf = readLoop s q (buf ++ [c]) := by
  rw [readLoop]
  rcases h with h | h <;> simp [hq, h]

theorem readLoop_newline (s buf : CStr) : readLoop ('\n' :: s) false buf = some (buf, s) := by
  rw [readLoop]; simp

theorem readLoop_return (s buf : CStr) :
    readLoop ('\r' :: s) false buf =
      some (buf, if s.head? = some '\n' then s.tail else s) := by
  rw [readLoop]; simp

/-- The four turns the loop can take. -/
theorem readLoop_turn (c : Char) (s : CStr) (q : Bool) (buf : CStr) :
    (c = '"' ∧ readLoop (c :: s) q buf = readLoop s (!q) (buf ++ [c])) ∨
    (q = false ∧ c = '\n' ∧ readLoop (c :: s) q buf = some (buf, s)) ∨
    (q = false ∧ c = '\r' ∧
      readLoop (c :: s) q buf = some (buf, if s.head? = some '\n' then s.tail else s)) ∨
    (c ≠ '"' ∧ (q = true ∨ c ≠ '\n' ∧ c ≠ '\r') ∧
      readLoop (c :: s) q buf = readLoop s q (buf ++ [c])) := by
  by_cases hq : c = '"'
  · subst hq; exact .inl ⟨rfl, readLoop_quote s q buf⟩
  · by_cases h : q = true ∨ c ≠ '\n' ∧ c ≠ '\r'
    · exact .inr (.inr (.inr ⟨hq, h, readLoop_plain s buf hq h⟩))
    · simp only [not_or, Bool.not_eq_true, not_and_or, not_not] at h
      obtain ⟨rfl, rfl | rfl⟩ := h
      · exact .inr (.inl ⟨rfl, rfl, readLoop_newline s buf⟩)
      · exact .inr (.inr (.inl ⟨rfl, rfl, readLoop_return s buf⟩))

theorem length_readLoop_rest {s : CStr} {q : Bool} {buf text rest : CStr}
    (h : readLoop s q buf = some (text, rest)) : rest.length ≤ s.length - 1 := by
  induction s generalizing q buf with
  | nil =>
    cases q <;> simp [readLoop_nil] at h
    simp [h.2]
  | cons c s ih =>
    rcases readLoop_turn c s q buf with ⟨-, e⟩ | ⟨-, -, e⟩ | ⟨-, -, e⟩ | ⟨-, -, e⟩ <;> rw [e] at h
    · have := ih h; simp; omega
    · simp at h; simp [← h.2]
    · simp only [Option.some.injEq, Prod.mk.injEq] at h
      rw [← h.2]
      split <;> simp
    · have := ih h; simp; omega

/-! ## Records -/

theorem length_readCsvRecord_rest {s text rest : CStr} (h : readCsvRecord s = .record text rest) :
    rest.length < s.length := by
  cases s with
  | nil => simp [readCsvRecord] at h
  | cons c s =>
    simp only [readCsvRecord, reduceCtorEq, if_false] at h
    cases hr : readLoop (c :: s) false [] with
    | none => simp [hr] at h
    | some r =>
      simp only [hr, ReadResult.record.injEq] at h
      have := length_readLoop_rest hr
      simp [← h.2] at *
      omega

private theorem csvRecordsLoop_fuel {m n : ℕ} {s : CStr} (hm : s.length < m) (hn : s.length < n) :
    csvRecordsLoop m s = csvRecordsLoop n s := by
  induction m generalizing n s with
  | zero => omega
  | succ m ih =>
    obtain ⟨n, rfl⟩ : ∃ k, n = k + 1 := ⟨n - 1, by omega⟩
    simp only [csvRecordsLoop]
    cases hr : readCsvRecord s with
    | eof => rfl
    | malformed => rfl
    | record text rest =>
      have hlt := length_readCsvRecord_rest hr
      simp only [ih (by omega) (by omega : rest.length < n)]

/-- One turn of the loop over the records of a file. -/
theorem csvRecords_eq (s : CStr) :
    csvRecords s = match readCsvRecord s with
      | .eof => ([], true)
      | .malformed => ([], false)
      | .record text rest => (text :: (csvRecords rest).1, (csvRecords rest).2) := by
  rw [csvRecords, csvRecordsLoop]
  cases hr : readCsvRecord s with
  | eof => rfl
  | malformed => rfl
  | record text rest =>
    have hlt := length_readCsvRecord_rest hr
    simp only [csvRecords, csvRecordsLoop_fuel hlt (by omega : rest.length < rest.length + 1)]

@[simp] theorem csvRecords_nil : csvRecords [] = ([], true) := rfl

/-! ## Quotes come in pairs -/

/-- A record closes its quotes exactly when the rest of the file has an even number of them,
counting the one that is open. -/
theorem readLoop_isSome {s : CStr} {q : Bool} {buf : CStr}
    (h : readLoop s q buf = none) : ¬ Even (s.count '"' + q.toNat) := by
  induction s generalizing q buf with
  | nil => cases q <;> simp [readLoop_nil] at h ⊢
  | cons c s ih =>
    rcases readLoop_turn c s q buf with ⟨rfl, e⟩ | ⟨-, -, e⟩ | ⟨-, -, e⟩ | ⟨hc, -, e⟩ <;> rw [e] at h
    · have hodd := ih h
      cases q <;> simp [Nat.even_add_one] at hodd ⊢ <;> simpa using hodd
    · simp at h
    · simp at h
    · have hcount : (c :: s).count '"' = s.count '"' := List.count_cons_of_ne hc
      rw [hcount]
      exact ih h

theorem readLoop_count {s : CStr} {q : Bool} {buf text rest : CStr}
    (h : readLoop s q buf = some (text, rest)) :
    Even (s.count '"' + q.toNat) ↔ Even (rest.count '"') := by
  induction s generalizing q buf with
  | nil =>
    cases q <;> simp [readLoop_nil] at h ⊢
    simp [h.2]
  | cons c s ih =>
    rcases readLoop_turn c s q buf with ⟨rfl, e⟩ | ⟨rfl, rfl, e⟩ | ⟨rfl, rfl, e⟩ | ⟨hc, -, e⟩ <;>
      rw [e] at h
    · rw [← ih h]
      cases q <;> simp [Nat.even_add_one]
    · simp only [Option.some.injEq, Prod.mk.injEq] at h
      simp [h.2]
    · simp only [Option.some.injEq, Prod.mk.injEq] at h
      rw [← h.2]
      cases s with
      | nil => simp
      | cons d s => by_cases hd : d = '\n' <;> simp [hd]
    · have hcount : (c :: s).count '"' = s.count '"' := List.count_cons_of_ne hc
      rw [hcount]
      exact ih h

/-- **A file can be read to its end exactly when it has an even number of quotes.** -/
theorem csvRecords_clean_iff (s : CStr) : (csvRecords s).2 = true ↔ Even (s.count '"') := by
  generalize hn : s.length = n
  induction n using Nat.strong_induction_on generalizing s with
  | _ n ih =>
    rw [csvRecords_eq]
    cases s with
    | nil => simp [readCsvRecord]
    | cons c s =>
      cases hr : readLoop (c :: s) false [] with
      | none => simpa [readCsvRecord, hr] using readLoop_isSome hr
      | some r =>
        have hread : readCsvRecord (c :: s) = .record r.1 r.2 := by simp [readCsvRecord, hr]
        have hlt := length_readCsvRecord_rest hread
        have hcount := readLoop_count (show readLoop (c :: s) false [] = some (r.1, r.2) from hr)
        simp only [hread, ih _ (hn ▸ hlt) r.2 rfl, ← hcount]
        simp

/-! ## Appending to a file -/

/-- What `t` adds to a file starts a record of its own: the file is empty or ends a line, and
`t` does not complete a line break. -/
def Terminated (s t : CStr) : Prop :=
  s = [] ∨ s.getLast? = some '\n' ∨ (s.getLast? = some '\r' ∧ t.head? ≠ some '\n')

instance (s t : CStr) : Decidable (Terminated s t) := inferInstanceAs (Decidable (_ ∨ _ ∨ _))

/-- A file that is empty or whose last byte ends a line. -/
def EndsLine (s : CStr) : Prop := s = [] ∨ s.getLast? = some '\n'

instance (s : CStr) : Decidable (EndsLine s) := inferInstanceAs (Decidable (_ ∨ _))

theorem EndsLine.terminated {s : CStr} (h : EndsLine s) (t : CStr) : Terminated s t :=
  h.imp id .inl

theorem endsLine_nil : EndsLine [] := .inl rfl

theorem endsLine_writeCsvRow (s : CStr) (row : Row) : EndsLine (s ++ writeCsvRow row) := by
  right; simp [writeCsvRow]

theorem endsLine_flatMap (rows : List Row) : EndsLine (rows.flatMap writeCsvRow) := by
  rcases List.eq_nil_or_concat rows with rfl | ⟨init, row, rfl⟩
  · exact endsLine_nil
  · rw [List.concat_eq_append, List.flatMap_append, List.flatMap_singleton]
    exact endsLine_writeCsvRow _ row

/-- How a record that uses up its text ended, and what it does when text is added: at a line
feed, at a carriage return, or for want of text. -/
inductive RecordEnd (s : CStr) (q : Bool) (buf text : CStr) : Prop
  | newline (last : s.getLast? = some '\n')
      (append : ∀ t, readLoop (s ++ t) q buf = some (text, t))
  | return (last : s.getLast? = some '\r')
      (append : ∀ t, readLoop (s ++ t) q buf =
        some (text, if t.head? = some '\n' then t.tail else t))
  | open' (last : s.getLast? ≠ some '\n' ∧ s.getLast? ≠ some '\r')
      (append : ∀ t, readLoop (s ++ t) q buf = readLoop t false text)

theorem RecordEnd.cons {c : Char} {s : CStr} {q q' : Bool} {buf buf' text : CStr}
    (h : RecordEnd s q' buf' text) (hstep : ∀ t, readLoop (c :: t) q buf = readLoop t q' buf')
    (hlast : s = [] → c ≠ '\n' ∧ c ≠ '\r') : RecordEnd (c :: s) q buf text := by
  have hgetLast : s ≠ [] → (c :: s).getLast? = s.getLast? := by
    intro hne
    cases s with
    | nil => exact absurd rfl hne
    | cons d s => rw [List.getLast?_cons_cons]
  have hne : ∀ {x}, s.getLast? = some x → s ≠ [] := by
    rintro x hx rfl
    simp at hx
  cases h with
  | newline last append =>
    exact .newline (hgetLast (hne last) ▸ last) fun t => by rw [List.cons_append, hstep, append]
  | «return» last append =>
    exact .return (hgetLast (hne last) ▸ last) fun t => by rw [List.cons_append, hstep, append]
  | open' last append =>
    refine .open' ?_ fun t => by rw [List.cons_append, hstep, append]
    cases s with
    | nil => simpa using hlast rfl
    | cons d s => rwa [List.getLast?_cons_cons]

theorem readLoop_end {s : CStr} {q : Bool} {buf text : CStr}
    (h : readLoop s q buf = some (text, [])) : RecordEnd s q buf text := by
  induction s generalizing q buf with
  | nil =>
    cases q <;> simp [readLoop_nil] at h
    exact .open' (by simp) fun t => by rw [h, List.nil_append]
  | cons c s ih =>
    rcases readLoop_turn c s q buf with ⟨rfl, e⟩ | ⟨rfl, rfl, e⟩ | ⟨rfl, rfl, e⟩ | ⟨hc, hq, e⟩ <;>
      rw [e] at h
    · exact (ih h).cons (readLoop_quote · q buf) fun _ => by decide
    · simp only [Option.some.injEq, Prod.mk.injEq] at h
      obtain ⟨rfl, rfl⟩ := h
      exact .newline rfl fun t => readLoop_newline t buf
    · simp only [Option.some.injEq, Prod.mk.injEq] at h
      obtain ⟨rfl, hrest⟩ := h
      cases s with
      | nil => exact .return rfl fun t => readLoop_return t buf
      | cons d s =>
        by_cases hd : d = '\n'
        · subst hd
          simp only [List.head?_cons, if_true, List.tail_cons] at hrest
          subst hrest
          exact .newline rfl fun t => by
            rw [List.cons_append, readLoop_return]
            simp
        · simp [hd] at hrest
    · refine (ih h).cons (fun t => readLoop_plain t buf hc hq) fun hnil => ?_
      subst hnil
      rcases hq with rfl | hq
      · simp [readLoop_nil] at h
      · exact hq

/-- A record that leaves text behind is not changed by text added at the end. -/
theorem readLoop_append {s : CStr} (t : CStr) {q : Bool} {buf text rest : CStr}
    (hrest : rest ≠ []) (h : readLoop s q buf = some (text, rest)) :
    readLoop (s ++ t) q buf = some (text, rest ++ t) ∧ s.getLast? = rest.getLast? := by
  induction s generalizing q buf with
  | nil =>
    cases q <;> simp [readLoop_nil] at h
    exact absurd h.2 hrest
  | cons c s ih =>
    have hcons : s ≠ [] → (c :: s).getLast? = s.getLast? := by
      intro hne
      cases s with
      | nil => exact absurd rfl hne
      | cons d s => rw [List.getLast?_cons_cons]
    have hne : ∀ {q' buf'}, readLoop s q' buf' = some (text, rest) → s ≠ [] := by
      rintro q' buf' h rfl
      cases q' <;> simp [readLoop_nil] at h
      exact hrest h.2
    rw [List.cons_append]
    rcases readLoop_turn c s q buf with ⟨rfl, e⟩ | ⟨rfl, rfl, e⟩ | ⟨rfl, rfl, e⟩ | ⟨hc, hq, e⟩ <;>
      rw [e] at h
    · rw [readLoop_quote, hcons (hne h)]
      exact ih h
    · simp only [Option.some.injEq, Prod.mk.injEq] at h
      obtain ⟨rfl, rfl⟩ := h
      exact ⟨readLoop_newline _ _, hcons hrest⟩
    · simp only [Option.some.injEq, Prod.mk.injEq] at h
      rw [readLoop_return, h.1]
      cases s with
      | nil => exact absurd (by simpa using h.2) hrest
      | cons d s =>
        by_cases hd : d = '\n'
        · subst hd
          simp only [List.head?_cons, if_true, List.tail_cons] at h
          obtain ⟨-, rfl⟩ := h
          cases s with
          | nil => exact absurd rfl hrest
          | cons e s => simp [List.getLast?_cons_cons]
        · simp only [List.head?_cons, Option.some.injEq, hd, if_false] at h
          rw [← h.2]
          simp [hd, List.getLast?_cons_cons]
    · rw [readLoop_plain _ buf hc hq, hcons (hne h)]
      exact ih h

theorem readCsvRecord_eq_record {s text rest : CStr} :
    readCsvRecord s = .record text rest ↔ s ≠ [] ∧ readLoop s false [] = some (text, rest) := by
  unfold readCsvRecord
  split
  · simp [*]
  · split <;> simp [*]

/-- **What is added behind the end of a line leaves the earlier records alone.** -/
theorem csvRecords_append {s t : CStr} (hs : Terminated s t) (hok : (csvRecords s).2 = true) :
    csvRecords (s ++ t) = ((csvRecords s).1 ++ (csvRecords t).1, (csvRecords t).2) := by
  generalize hn : s.length = n
  induction n using Nat.strong_induction_on generalizing s with
  | _ n ih =>
    rw [csvRecords_eq s] at hok ⊢
    cases hr : readCsvRecord s with
    | eof =>
      have : s = [] := by
        by_contra hne
        simp only [readCsvRecord, hne, if_false] at hr
        cases h : readLoop s false [] <;> simp [h] at hr
      subst this
      simp
    | malformed => simp [hr] at hok
    | record text rest =>
      have hlt := length_readCsvRecord_rest hr
      obtain ⟨hne, hloop⟩ := readCsvRecord_eq_record.mp hr
      rw [hr] at hok
      have key : readLoop (s ++ t) false [] = some (text, rest ++ t) ∧ Terminated rest t := by
        by_cases hrest : rest = []
        · subst hrest
          refine ⟨?_, .inl rfl⟩
          rcases readLoop_end hloop with ⟨last, append⟩ | ⟨last, append⟩ | ⟨last, append⟩
          · rw [append, List.nil_append]
          · have hhead : t.head? ≠ some '\n' := by
              rcases hs with hs | hs | hs
              · exact absurd hs hne
              · rw [last] at hs
                exact absurd hs (by decide)
              · exact hs.2
            rw [append, if_neg hhead, List.nil_append]
          · rcases hs with hs | hs | hs
            · exact absurd hs hne
            · exact absurd hs last.1
            · exact absurd hs.1 last.2
        · obtain ⟨happ, hlast⟩ := readLoop_append t hrest hloop
          refine ⟨happ, .inr ?_⟩
          rw [← hlast]
          exact hs.resolve_left hne
      have hread : readCsvRecord (s ++ t) = .record text (rest ++ t) :=
        readCsvRecord_eq_record.mpr ⟨by simp [hne], key.1⟩
      rw [csvRecords_eq, hread]
      simp only [ih rest.length (hn ▸ hlt) key.2 hok rfl, List.cons_append]

/-! ## A written row is read back -/

theorem readLoop_doubleQuotes (v s buf : CStr) :
    readLoop (doubleQuotes v ++ s) true buf = readLoop s true (buf ++ doubleQuotes v) := by
  induction v generalizing buf with
  | nil => simp [doubleQuotes]
  | cons c v ih =>
    have hcons : doubleQuotes (c :: v) = (if c = '"' then ['"', '"'] else [c]) ++ doubleQuotes v :=
      by simp [doubleQuotes]
    by_cases hc : c = '"'
    · rw [hcons, if_pos hc, List.append_assoc, List.cons_append, List.cons_append,
        List.nil_append, readLoop_quote, readLoop_quote, Bool.not_true, Bool.not_false, ih]
      simp
    · rw [hcons, if_neg hc, List.append_assoc, List.cons_append, List.nil_append,
        readLoop_plain _ _ hc (.inl rfl), ih]
      simp

theorem readLoop_plainText {v : CStr} (s buf : CStr) (hv : v.any needsQuote = false) :
    readLoop (v ++ s) false buf = readLoop s false (buf ++ v) := by
  induction v generalizing buf with
  | nil => simp
  | cons c v ih =>
    simp only [List.any_cons, Bool.or_eq_false_iff] at hv
    have hc := hv.1
    simp only [needsQuote, Bool.or_eq_false_iff, beq_eq_false_iff_ne] at hc
    rw [List.cons_append, readLoop_plain _ _ hc.1.1.2 (.inr ⟨hc.1.2, hc.2⟩), ih _ hv.2]
    simp

theorem readLoop_writeCsvField (v s buf : CStr) :
    readLoop (writeCsvField v ++ s) false buf = readLoop s false (buf ++ writeCsvField v) := by
  cases hv : v.any needsQuote with
  | false => simp only [writeCsvField, hv, Bool.false_eq_true, if_false, readLoop_plainText s buf hv]
  | true =>
    simp only [writeCsvField, hv, if_true, List.cons_append, List.append_assoc]
    rw [readLoop_quote, Bool.not_false, readLoop_doubleQuotes, List.nil_append, readLoop_quote]
    simp

theorem readLoop_csvLine (row : Row) (s buf : CStr) :
    readLoop (csvLine row ++ s) false buf = readLoop s false (buf ++ csvLine row) := by
  induction row generalizing buf with
  | nil => simp [csvLine]
  | cons v row ih =>
    cases row with
    | nil => simpa [csvLine] using readLoop_writeCsvField v s buf
    | cons w row =>
      rw [csvLine, List.append_assoc, readLoop_writeCsvField, List.cons_append,
        readLoop_plain _ _ (by decide) (.inr (by decide)), ih]
      simp

/-- The first record of a file that starts with a written row. -/
theorem readCsvRecord_writeCsvRow (row : Row) (t : CStr) :
    readCsvRecord (writeCsvRow row ++ t) = .record (csvLine row) t := by
  have hne : writeCsvRow row ++ t ≠ [] := by simp [writeCsvRow]
  rw [readCsvRecord, if_neg hne, writeCsvRow, List.append_assoc, readLoop_csvLine]
  simp [readLoop_newline]

theorem parseCsvLoop_nil (j : Bool) (buf : CStr) (fields : Row) :
    parseCsvLoop [] false j buf fields = some (fields ++ [buf]) := by rw [parseCsvLoop]; simp

theorem parseCsvLoop_comma (s : CStr) (j : Bool) (buf : CStr) (fields : Row) :
    parseCsvLoop (',' :: s) false j buf fields = parseCsvLoop s false false [] (fields ++ [buf]) := by
  cases j <;> rw [parseCsvLoop] <;> simp

theorem parseCsvLoop_plainText {v : CStr} (s buf : CStr) (fields : Row)
    (hv : v.any needsQuote = false) :
    parseCsvLoop (v ++ s) false false buf fields = parseCsvLoop s false false (buf ++ v) fields := by
  induction v generalizing buf with
  | nil => simp
  | cons c v ih =>
    simp only [List.any_cons, Bool.or_eq_false_iff] at hv
    have hc := hv.1
    simp only [needsQuote, Bool.or_eq_false_iff, beq_eq_false_iff_ne] at hc
    rw [List.cons_append, parseCsvLoop, if_neg hc.1.1.2, if_neg hc.1.1.1, ih _ hv.2]
    simp

theorem parseCsvLoop_doubleQuotes (v s buf : CStr) (fields : Row) :
    parseCsvLoop (doubleQuotes v ++ s) true false buf fields =
      parseCsvLoop s true false (buf ++ v) fields := by
  induction v generalizing buf with
  | nil => simp [doubleQuotes]
  | cons c v ih =>
    have hcons : doubleQuotes (c :: v) = (if c = '"' then ['"', '"'] else [c]) ++ doubleQuotes v :=
      by simp [doubleQuotes]
    by_cases hc : c = '"'
    · rw [hcons, if_pos hc, List.append_assoc, List.cons_append, List.cons_append,
        List.nil_append, parseCsvLoop]
      simp [ih, hc]
    · rw [hcons, if_neg hc, List.append_assoc, List.cons_append, List.nil_append, parseCsvLoop]
      simp [ih, hc]

/-- After a written cell the loop holds the cell, with or without a closed quote. -/
theorem parseCsvLoop_writeCsvField (v : CStr) {s : CStr} (fields : Row)
    (hs : s.head? ≠ some '"') : ∃ j, parseCsvLoop (writeCsvField v ++ s) false false [] fields =
      parseCsvLoop s false j v fields := by
  cases hv : v.any needsQuote with
  | false =>
    refine ⟨false, ?_⟩
    simp only [writeCsvField, hv, Bool.false_eq_true, if_false]
    simpa using parseCsvLoop_plainText s [] fields hv
  | true =>
    refine ⟨true, ?_⟩
    simp only [writeCsvField, hv, if_true, List.cons_append, List.append_assoc]
    rw [parseCsvLoop]
    simp only [if_true, ne_eq, not_true_eq_false, if_false, parseCsvLoop_doubleQuotes,
      List.nil_append]
    rw [parseCsvLoop.eq_def]
    cases s with
    | nil => simp
    | cons d s =>
      have hd : d ≠ '"' := by simpa using hs
      simp [hd]

theorem parseCsvLoop_csvLine {row : Row} (fields : Row) (hne : row ≠ []) :
    parseCsvLoop (csvLine row) false false [] fields = some (fields ++ row) := by
  induction row generalizing fields with
  | nil => exact absurd rfl hne
  | cons v row ih =>
    cases row with
    | nil =>
      obtain ⟨j, hj⟩ := parseCsvLoop_writeCsvField v (s := []) fields (by simp)
      rw [csvLine, ← List.append_nil (writeCsvField v), hj, parseCsvLoop_nil]
    | cons w row =>
      obtain ⟨j, hj⟩ := parseCsvLoop_writeCsvField v (s := ',' :: csvLine (w :: row)) fields
        (by simp)
      rw [csvLine, hj, parseCsvLoop_comma, ih _ (by simp)]
      simp

theorem nulFree_writeCsvField {v : CStr} (hv : NulFree v) : NulFree (writeCsvField v) := by
  have hdouble : NulFree (doubleQuotes v) := by
    intro hmem
    simp only [doubleQuotes, List.mem_flatMap] at hmem
    obtain ⟨c, hc, hmem⟩ := hmem
    split_ifs at hmem
    · simp at hmem
    · exact hv ((List.mem_singleton.mp hmem) ▸ hc)
  unfold writeCsvField
  split_ifs <;> simp [hdouble, hv]

theorem nulFree_csvLine {row : Row} (h : ∀ v ∈ row, NulFree v) : NulFree (csvLine row) := by
  induction row with
  | nil => simp [csvLine]
  | cons v row ih =>
    have hv := nulFree_writeCsvField (h v (by simp))
    have htail := ih fun w hw => h w (by simp [hw])
    cases row with
    | nil => simpa [csvLine] using hv
    | cons w row => simp [csvLine, hv, htail]

/-- **A written row is read back cell for cell.** -/
theorem parseCsvRecord_csvLine {row : Row} (hne : row ≠ []) (h : ∀ v ∈ row, NulFree v) :
    parseCsvRecord (csvLine row) = some row := by
  rw [parseCsvRecord, cstr_of_nulFree (nulFree_csvLine h), parseCsvLoop_csvLine [] hne,
    List.nil_append]

@[simp] theorem csvRecords_writeCsvRow (row : Row) (t : CStr) :
    csvRecords (writeCsvRow row ++ t) = (csvLine row :: (csvRecords t).1, (csvRecords t).2) := by
  rw [csvRecords_eq, readCsvRecord_writeCsvRow]

theorem parseRow_csvLine {row : Row} (hne : row ≠ []) (h : ∀ v ∈ row, NulFree v) :
    parseRow row.length (csvLine row) = some row := by
  simp [parseRow, parseCsvRecord_csvLine hne h]

theorem loadTableRows_eq_some {file : CStr} {width : ℕ} {rows : List Row} :
    loadTableRows file width = some rows ↔
      (csvRecords file).2 = true ∧ (csvRecords file).1.mapM (parseRow width) = some rows := by
  unfold loadTableRows
  split <;> simp_all

/-- **A written row behind a complete last line adds exactly that row to the table.** -/
theorem loadTableRows_append {file : CStr} {width : ℕ} {rows : List Row} {row : Row}
    (hs : Terminated file (writeCsvRow row)) (h : loadTableRows file width = some rows)
    (hw : 0 < width) (hrow : row.length = width ∧ ∀ v ∈ row, NulFree v) :
    loadTableRows (file ++ writeCsvRow row) width = some (rows ++ [row]) := by
  obtain ⟨hlen, hnul⟩ := hrow
  have hne : row ≠ [] := by
    rintro rfl
    exact absurd hlen (by simp; omega)
  obtain ⟨hok, hload⟩ := loadTableRows_eq_some.mp h
  have happ := csvRecords_append hs hok
  have hrow : csvRecords (writeCsvRow row) = ([csvLine row], true) := by
    simpa using csvRecords_writeCsvRow row []
  have hparse : parseRow width (csvLine row) = some row := hlen ▸ parseRow_csvLine hne hnul
  simp [loadTableRows, happ, hrow, List.mapM_append, hload, hparse]

/-! ## The rows of a table -/

/-- The cells that are read are C strings. -/
theorem nulFree_parseCsvLoop {s : CStr} {q j : Bool} {buf : CStr} {fields row : Row}
    (hs : NulFree s) (hbuf : NulFree buf) (hfields : ∀ v ∈ fields, NulFree v)
    (h : parseCsvLoop s q j buf fields = some row) : ∀ v ∈ row, NulFree v := by
  have hpush : ∀ {buf : CStr} {fields : Row}, NulFree buf → (∀ v ∈ fields, NulFree v) →
      ∀ v ∈ fields ++ [buf], NulFree v := by
    intro buf fields hbuf hfields v hv
    rcases List.mem_append.mp hv with hv | hv
    · exact hfields v hv
    · rwa [List.mem_singleton.mp hv]
  have hadd : ∀ {buf : CStr} {c : Char}, NulFree buf → c ≠ '\x00' → NulFree (buf ++ [c]) :=
    fun hbuf hc => nulFree_append.mpr ⟨hbuf, nulFree_cons.mpr ⟨hc, nulFree_nil⟩⟩
  fun_induction parseCsvLoop s q j buf fields
  case case1 | case8 | case9 => exact absurd h (by simp)
  case case2 =>
    rw [Option.some.injEq] at h
    exact h ▸ hpush hbuf hfields
  case case3 ih | case12 ih =>
    obtain ⟨hc, hs⟩ := nulFree_cons.mp hs
    exact ih hs (hadd hbuf hc) hfields h
  case case4 ih =>
    exact ih (nulFree_cons.mp (nulFree_cons.mp hs).2).2 (hadd hbuf (by decide)) hfields h
  case case5 ih | case6 ih => exact ih (nulFree_cons.mp hs).2 hbuf hfields h
  case case7 ih | case11 ih => exact ih (nulFree_cons.mp hs).2 nulFree_nil (hpush hbuf hfields) h
  case case10 ih => exact ih (nulFree_cons.mp hs).2 nulFree_nil hfields h

/-- A row of a table: as many cells as columns, each a C string. -/
def RowOk (width : ℕ) (row : Row) : Prop := row.length = width ∧ ∀ v ∈ row, NulFree v

theorem rowOk_of_parseRow {width : ℕ} {record : CStr} {row : Row}
    (h : parseRow width record = some row) : RowOk width row := by
  obtain ⟨row', hparse, hrow⟩ := Option.bind_eq_some_iff.mp h
  split at hrow
  · rename_i hlen
    obtain rfl := Option.some.inj hrow
    exact ⟨hlen, nulFree_parseCsvLoop (nulFree_cstr _) nulFree_nil (by simp) hparse⟩
  · exact absurd hrow (by simp)

theorem exists_of_mapM {α β : Type*} {f : α → Option β} {l : List α} {l' : List β}
    (h : l.mapM f = some l') {b : β} (hb : b ∈ l') : ∃ a ∈ l, f a = some b := by
  induction l generalizing l' with
  | nil =>
    obtain rfl : [] = l' := by simpa using h
    exact absurd hb (by simp)
  | cons a l ih =>
    rw [List.mapM_cons] at h
    obtain ⟨c, hc, h⟩ := Option.bind_eq_some_iff.mp h
    obtain ⟨cs, hcs, h⟩ := Option.bind_eq_some_iff.mp h
    obtain rfl : c :: cs = l' := Option.some.inj h
    rcases List.mem_cons.mp hb with rfl | hb
    · exact ⟨a, by simp, hc⟩
    · obtain ⟨a', ha', hfa⟩ := ih hcs hb
      exact ⟨a', by simp [ha'], hfa⟩

theorem rowOk_of_loadTableRows {file : CStr} {width : ℕ} {rows : List Row}
    (h : loadTableRows file width = some rows) : ∀ row ∈ rows, RowOk width row := by
  intro row hrow
  obtain ⟨record, -, hparse⟩ := exists_of_mapM (loadTableRows_eq_some.mp h).2 hrow
  exact rowOk_of_parseRow hparse

/-! ## Whole files -/

/-- Every row of a written file is one record, and the records end with the file. -/
@[simp] theorem csvRecords_flatMap (rows : List Row) :
    csvRecords (rows.flatMap writeCsvRow) = (rows.map csvLine, true) := by
  induction rows with
  | nil => rfl
  | cons row rows ih => rw [List.flatMap_cons, csvRecords_writeCsvRow, ih, List.map_cons]

theorem mapM_map_eq_some {α β : Type*} {f : β → Option α} {g : α → β} {l : List α}
    (h : ∀ a ∈ l, f (g a) = some a) : (l.map g).mapM f = some l := by
  induction l with
  | nil => rfl
  | cons a l ih =>
    have hl := ih fun b hb => h b (by simp [hb])
    rw [List.map_cons, List.mapM_cons, h a (by simp), hl]
    rfl

/-- `read_csv_record` and `parse_csv_record`, repeated to the end of the file. -/
def readRows (file : CStr) : Option (List Row) :=
  if (csvRecords file).2 then (csvRecords file).1.mapM parseCsvRecord else none

/-- **Rows that are written one after another are read back as they were, up to the end of the
file.** -/
theorem readRows_flatMap_writeCsvRow {rows : List Row}
    (h : ∀ row ∈ rows, row ≠ [] ∧ ∀ v ∈ row, NulFree v) :
    readRows (rows.flatMap writeCsvRow) = some rows := by
  rw [readRows, csvRecords_flatMap, if_pos rfl]
  exact mapM_map_eq_some fun row hrow => parseCsvRecord_csvLine (h row hrow).1 (h row hrow).2

/-- A comma, a quote, both line breaks, an empty cell and an empty row. -/
theorem readRows_special_cells :
    readRows ([["a,b".toList, "\"".toList], ["\r\n".toList, []], [[]]].flatMap writeCsvRow) =
      some [["a,b".toList, "\"".toList], ["\r\n".toList, []], [[]]] :=
  readRows_flatMap_writeCsvRow (by decide)

/-- The same for the rows of a table with its number of columns. -/
theorem loadTableRows_flatMap {width : ℕ} {rows : List Row} (hw : 0 < width)
    (h : ∀ row ∈ rows, RowOk width row) :
    loadTableRows (rows.flatMap writeCsvRow) width = some rows := by
  rw [loadTableRows, csvRecords_flatMap, if_pos rfl]
  refine mapM_map_eq_some fun row hrow => ?_
  obtain ⟨hlen, hnul⟩ := h row hrow
  have hne : row ≠ [] := by
    rintro rfl
    exact absurd hlen (by simp; omega)
  exact hlen ▸ parseRow_csvLine hne hnul

/-! ## What a written row adds to a file -/

theorem even_count_writeCsvRow (row : Row) : Even ((writeCsvRow row).count '"') := by
  have hclean : (csvRecords (writeCsvRow row)).2 = true := by
    simpa using congrArg Prod.snd (csvRecords_writeCsvRow row [])
  exact (csvRecords_clean_iff _).mp hclean

theorem csvLine_eq_nil_of_head? {row : Row} (h : (writeCsvRow row).head? = some '\n') :
    csvLine row = [] := by
  cases hline : csvLine row with
  | nil => rfl
  | cons c line =>
    exfalso
    rw [writeCsvRow, hline] at h
    obtain rfl : c = '\n' := by simpa using h
    -- a line feed is only ever written inside quotes
    cases row with
    | nil => simp [csvLine] at hline
    | cons v row =>
      have hfield : ∀ rest, writeCsvField v ++ rest = '\n' :: line → rest.head? ≠ some '\n' →
          False := by
        intro rest heq hrest
        cases hv : v.any needsQuote with
        | true => simp [writeCsvField, hv] at heq
        | false =>
          simp only [writeCsvField, hv, Bool.false_eq_true, if_false] at heq
          cases v with
          | nil => exact hrest (by rw [List.nil_append] at heq; simp [heq])
          | cons d v =>
            obtain rfl : d = '\n' := by simpa using congrArg List.head? heq
            simp [needsQuote] at hv
      cases row with
      | nil => exact hfield [] (by simpa [csvLine] using hline) (by simp)
      | cons w row => exact hfield _ (by simpa [csvLine] using hline) (by simp)

/-- A row with a cell that is not empty has a line that is not empty. -/
theorem csvLine_ne_nil {row : Row} {v : CStr} (hv : v ∈ row) (hne : v ≠ []) : csvLine row ≠ [] := by
  cases row with
  | nil => exact absurd hv (by simp)
  | cons w row =>
    cases row with
    | nil =>
      obtain rfl := List.mem_singleton.mp hv
      rw [csvLine, writeCsvField]
      split
      · simp
      · exact hne
    | cons u row => simp [csvLine]

/-- A file whose last byte ends a line, or an empty one. -/
def EndsRecord (file : CStr) : Prop :=
  file = [] ∨ file.getLast? = some '\n' ∨ file.getLast? = some '\r'

instance (file : CStr) : Decidable (EndsRecord file) := inferInstanceAs (Decidable (_ ∨ _ ∨ _))

theorem EndsRecord.terminated {file : CStr} (h : EndsRecord file) {row : Row} {v : CStr}
    (hv : v ∈ row) (hne : v ≠ []) : Terminated file (writeCsvRow row) :=
  h.imp id (Or.imp id fun hlast =>
    ⟨hlast, fun hhead => csvLine_ne_nil hv hne (csvLine_eq_nil_of_head? hhead)⟩)

/-- A row written behind an open line runs into its record. -/
theorem length_csvRecords_append {s : CStr} {row : Row} (hok : (csvRecords s).2 = true)
    (hs : ¬ Terminated s (writeCsvRow row)) :
    (csvRecords (s ++ writeCsvRow row)).1.length = (csvRecords s).1.length := by
  generalize hn : s.length = n
  induction n using Nat.strong_induction_on generalizing s with
  | _ n ih =>
    rw [csvRecords_eq s] at hok ⊢
    cases hr : readCsvRecord s with
    | eof =>
      have : s = [] := by
        by_contra hne
        simp only [readCsvRecord, hne, if_false] at hr
        cases h : readLoop s false [] <;> simp [h] at hr
      exact absurd (.inl this) hs
    | malformed => simp [hr] at hok
    | record text rest =>
      have hlt := length_readCsvRecord_rest hr
      obtain ⟨hne, hloop⟩ := readCsvRecord_eq_record.mp hr
      rw [hr] at hok
      have hne' : s ++ writeCsvRow row ≠ [] := by simp [hne]
      by_cases hrest : rest = []
      · subst hrest
        have key : ∃ text', readLoop (s ++ writeCsvRow row) false [] = some (text', []) := by
          rcases readLoop_end hloop with ⟨last, append⟩ | ⟨last, append⟩ | ⟨last, append⟩
          · exact absurd (.inr (.inl last)) hs
          · by_cases hhead : (writeCsvRow row).head? = some '\n'
            · refine ⟨text, ?_⟩
              rw [append, if_pos hhead, writeCsvRow, csvLine_eq_nil_of_head? hhead]
              rfl
            · exact absurd (.inr (.inr ⟨last, hhead⟩)) hs
          · refine ⟨text ++ csvLine row, ?_⟩
            rw [append, writeCsvRow, readLoop_csvLine, readLoop_newline]
        obtain ⟨text', hread⟩ := key
        rw [csvRecords_eq, readCsvRecord_eq_record.mpr ⟨hne', hread⟩]
        simp
      · obtain ⟨happ, hlast⟩ := readLoop_append (writeCsvRow row) hrest hloop
        have hs' : ¬ Terminated rest (writeCsvRow row) := by
          rintro (h | h)
          · exact hrest h
          · exact hs (.inr (by rwa [hlast]))
        rw [csvRecords_eq, readCsvRecord_eq_record.mpr ⟨hne', happ⟩]
        simp only [List.length_cons, ih rest.length (hn ▸ hlt) hok hs' rfl]

/-- The records of a file that can be read to its end. -/
def fileRecords (file : CStr) : Option (List CStr) :=
  if (csvRecords file).2 then some (csvRecords file).1 else none

/-- **A written row is one more record exactly when the file can be read to its end and the
row starts a record of its own.** -/
theorem fileRecords_append_iff {file : CStr} {row : Row} :
    (∃ records record, fileRecords file = some records ∧
      fileRecords (file ++ writeCsvRow row) = some (records ++ [record])) ↔
      (csvRecords file).2 = true ∧ Terminated file (writeCsvRow row) := by
  have hclean : (csvRecords (file ++ writeCsvRow row)).2 = (csvRecords file).2 := by
    rw [Bool.eq_iff_iff, csvRecords_clean_iff, csvRecords_clean_iff, List.count_append,
      Nat.even_add]
    simp [even_count_writeCsvRow row]
  constructor
  · rintro ⟨records, record, h, h'⟩
    simp only [fileRecords, hclean] at h h'
    split_ifs at h h' with hok
    refine ⟨hok, ?_⟩
    by_contra hopen
    have hlen := length_csvRecords_append hok hopen
    rw [Option.some.injEq] at h h'
    rw [h', ← h] at hlen
    simp at hlen
  · rintro ⟨hok, hterm⟩
    have happ := csvRecords_append hterm hok
    have hrow : csvRecords (writeCsvRow row) = ([csvLine row], true) := by
      simpa using csvRecords_writeCsvRow row []
    exact ⟨(csvRecords file).1, csvLine row, by simp [fileRecords, hok],
      by simp [fileRecords, happ, hrow]⟩

end MiniSql
