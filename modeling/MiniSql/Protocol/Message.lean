import MiniSql.Protocol

/-!
# Requests that are read back

A request that is put together line by line is taken apart again: the method, the path, the query,
the content type and the body come out as they went in, whatever other fields the header has and
however the bytes are cut up between the calls of `read`.

## Main definitions

* `Message`, `Message.text` — a request and its bytes.
* `Message.WellFormed` — what keeps its parts apart.

## Main results

* `findHeaderEnd_line`, `strtokLines_line` — one line of a header.
* `parseHeader_head` — the header.
* `message_roundtrip` — the whole request.
-/

namespace MiniSql
open CText

def crlf : CStr := ['\r', '\n']

/-- A text that can stand in a line of a header. -/
def InLine (s : CStr) : Prop := '\r' ∉ s ∧ '\n' ∉ s ∧ '\x00' ∉ s

instance (s : CStr) : Decidable (InLine s) := inferInstanceAs (Decidable (_ ∧ _ ∧ _))

theorem InLine.append {s t : CStr} (hs : InLine s) (ht : InLine t) : InLine (s ++ t) := by
  simp only [InLine, List.mem_append, not_or]
  exact ⟨⟨hs.1, ht.1⟩, ⟨hs.2.1, ht.2.1⟩, hs.2.2, ht.2.2⟩

/-! ## Lines -/

/-- Lines, each with its end. -/
def linesText (lines : List CStr) : CStr := lines.flatMap fun line => line ++ crlf

@[simp] theorem linesText_cons (line : CStr) (lines : List CStr) :
    linesText (line :: lines) = line ++ crlf ++ linesText lines := by
  rw [linesText, List.flatMap_cons, linesText]

/-- A line of a header: neither empty nor broken. -/
def GoodLine (line : CStr) : Prop := line ≠ [] ∧ InLine line

/-- No empty line begins inside of a line. -/
theorem findHeaderEnd_skip {c : Char} {s : CStr} (h : c ≠ '\r') :
    findHeaderEnd (c :: s) = (findHeaderEnd s).map (· + 1) := by
  rw [findHeaderEnd, if_neg]
  intro hblank
  exact h (List.cons_prefix_cons.mp hblank).1.symm

/-- The first empty line is behind a line that is followed by another one. -/
theorem findHeaderEnd_line {line s : CStr} (hline : '\r' ∉ line) (hs : s.head? ≠ some '\r') :
    findHeaderEnd (line ++ crlf ++ s) = (findHeaderEnd s).map (· + (line.length + 2)) := by
  induction line with
  | nil =>
    have hend : findHeaderEnd ('\n' :: s) = (findHeaderEnd s).map (· + 1) :=
      findHeaderEnd_skip (by decide)
    have hreturn : ¬ blankLine <+: '\r' :: '\n' :: s := by
      intro hblank
      have hrest := (List.cons_prefix_cons.mp (List.cons_prefix_cons.mp hblank).2).2
      cases s with
      | nil => exact absurd hrest (by simp)
      | cons d s => exact hs (congrArg some (List.cons_prefix_cons.mp hrest).1.symm)
    rw [List.nil_append, crlf, List.cons_append, List.cons_append, List.nil_append, findHeaderEnd,
      if_neg hreturn, hend, Option.map_map]
    rfl
  | cons c line ih =>
    have hc : c ≠ '\r' := fun h => hline (h ▸ List.mem_cons_self ..)
    have hrest := ih fun hmem => hline (List.mem_cons_of_mem _ hmem)
    rw [List.cons_append, List.cons_append, findHeaderEnd_skip hc, hrest, Option.map_map]
    congr 1

/-- The lines of a header end at the empty line. -/
theorem findHeaderEnd_lines {lines : List CStr} (hne : lines ≠ []) (h : ∀ line ∈ lines, GoodLine line)
    (body : List Char) :
    findHeaderEnd (linesText lines ++ crlf ++ body) = some ((linesText lines).length - 2) := by
  induction lines with
  | nil => exact absurd rfl hne
  | cons line lines ih =>
    obtain ⟨hline, hin⟩ := h line (List.mem_cons_self ..)
    rw [linesText_cons, List.append_assoc, List.append_assoc, ← List.append_assoc (linesText lines)]
    cases lines with
    | nil =>
      have hblank : ∀ line : CStr, '\r' ∉ line →
          findHeaderEnd (line ++ crlf ++ (linesText [] ++ crlf ++ body)) = some line.length := by
        intro line hin
        induction line with
        | nil =>
          have hstarts : blankLine <+: [] ++ crlf ++ (linesText [] ++ crlf ++ body) := ⟨body, rfl⟩
          exact if_pos hstarts
        | cons c line ih =>
          have hc : c ≠ '\r' := fun h => hin (h ▸ List.mem_cons_self ..)
          rw [List.cons_append, List.cons_append, findHeaderEnd_skip hc,
            ih fun hmem => hin (List.mem_cons_of_mem _ hmem)]
          rfl
      have hlen : (line ++ crlf ++ linesText []).length - 2 = line.length := by
        simp [linesText, crlf]
      rw [hlen]
      exact hblank line hin.1
    | cons next lines =>
      obtain ⟨hnext, hin'⟩ := h next (by simp)
      have hhead : (linesText (next :: lines) ++ crlf ++ body).head? ≠ some '\r' := by
        cases next with
        | nil => exact absurd rfl hnext
        | cons c next =>
          intro heq
          obtain rfl : c = '\r' := by simpa using heq
          exact hin'.1 (List.mem_cons_self ..)
      have hrest := ih (by simp) fun line hmem => h line (List.mem_cons_of_mem _ hmem)
      rw [findHeaderEnd_line hin.1 hhead, hrest]
      have hlen : 2 ≤ (linesText (next :: lines)).length := by
        rw [linesText_cons]
        simp [crlf]
        omega
      simp only [Option.map_some, Option.some.injEq, List.length_append, crlf, List.length_cons,
        List.length_nil]
      omega

/-- `strtok_r` returns the first line. -/
theorem strtokLines_line {line s : CStr} (h : GoodLine line) :
    strtokLines (line ++ crlf ++ s) = line :: strtokLines s := by
  have hbreak : ∀ c ∈ line, (c == '\r' || c == '\n') = false := by
    intro c hc
    have hr : c ≠ '\r' := fun heq => h.2.1 (heq ▸ hc)
    have hn : c ≠ '\n' := fun heq => h.2.2.1 (heq ▸ hc)
    simp [hr, hn]
  have hsplit : (line ++ crlf ++ s).splitOnP (fun c => c == '\r' || c == '\n') =
      line :: [] :: s.splitOnP fun c => c == '\r' || c == '\n' := by
    have hnil : ∀ c ∈ ([] : CStr), (c == '\r' || c == '\n') = false := by simp
    have hempty := List.splitOnP_append_cons_of_forall_mem hnil '\n' (by decide) s
    rw [List.append_assoc, crlf, List.cons_append, List.cons_append, List.nil_append,
      List.splitOnP_append_cons_of_forall_mem hbreak _ (by decide)]
    exact congrArg _ hempty
  rw [strtokLines, hsplit, List.filter_cons_of_pos (by simpa using h.1),
    List.filter_cons_of_neg (by simp), strtokLines]

theorem strtokLines_lines {lines : List CStr} (h : ∀ line ∈ lines, GoodLine line) :
    strtokLines (linesText lines) = lines := by
  induction lines with
  | nil => rfl
  | cons line lines ih =>
    rw [linesText_cons, strtokLines_line (h line (List.mem_cons_self ..)),
      ih fun line hmem => h line (List.mem_cons_of_mem _ hmem)]

/-! ## Parts of a line -/

/-- `strchr` stops at the first occurrence. -/
theorem strchrSplit_append {c : Char} {a : CStr} (ha : c ∉ a) (b : CStr) :
    strchrSplit c (a ++ c :: b) = some (a, b) := by
  have hall : ∀ d ∈ a, decide (d ≠ c) = true := by
    intro d hd
    have hne : d ≠ c := fun heq => ha (heq ▸ hd)
    exact decide_eq_true hne
  rw [strchrSplit, if_pos (by simp), List.takeWhile_append_of_pos hall,
    List.dropWhile_append_of_pos hall]
  simp

/-- A number that is printed is read back by `strtoul`. -/
theorem strtoul_intText {n : ℕ} (h : n < 2 ^ 64) : strtoul (intText n) = (n, [], false) := by
  have hall : ∀ c ∈ Nat.toDigits 10 n, c.isDigit = true := fun c => isDigit_of_mem_toDigits
  have htake : (Nat.toDigits 10 n).takeWhile Char.isDigit = Nat.toDigits 10 n :=
    List.takeWhile_eq_self_iff.mpr hall
  have hdrop : (Nat.toDigits 10 n).dropWhile Char.isDigit = [] :=
    List.dropWhile_eq_nil_iff.mpr hall
  have hsign := signOf_intText n
  rw [Int.natAbs_natCast] at hsign
  simp only [strtoul, hsign, htake, hdrop, digitsValue_toDigits]
  rw [if_neg Nat.toDigits_ne_nil, if_neg (by omega), if_neg (by simp)]

theorem intText_ne_nil (n : ℕ) : intText n ≠ [] := by
  rw [intText, if_neg (by omega)]
  exact Nat.toDigits_ne_nil

/-- A length that is printed is accepted, if it is not too large. -/
theorem parseContentLength_intText {n : ℕ} (h : n ≤ httpMaxBodyBytes) :
    parseContentLength (intText n) = some n := by
  have hsmall : n < 2 ^ 64 := Nat.lt_of_le_of_lt h (by decide)
  have hne := intText_ne_nil n
  rw [parseContentLength, strtoul_intText hsmall]
  refine if_neg ?_
  rintro (hnil | herange | hrest | hrest | hlarge)
  · exact hne hnil
  · exact absurd herange (by decide)
  · exact hne hrest.symm
  · exact hrest rfl
  · exact absurd hlarge (Nat.not_lt.mpr h)

/-! ## Messages -/

/-- A request, as a client puts it together. -/
structure Message where
  post : Bool
  path : CStr
  query : Option CStr
  fields : List (CStr × CStr)
  body : List Char
  deriving DecidableEq, Repr

namespace Message

def method (msg : Message) : CStr := if msg.post then "POST".toList else "GET".toList

def target (msg : Message) : CStr :=
  match msg.query with
  | some query => msg.path ++ '?' :: query
  | none => msg.path

def requestLine (msg : Message) : CStr :=
  msg.method ++ ' ' :: (msg.target ++ ' ' :: "HTTP/1.1".toList)

/-- A field of the header, as a line. -/
def fieldLine (field : CStr × CStr) : CStr := field.1 ++ ':' :: ' ' :: field.2

def lines (msg : Message) : List CStr := msg.requestLine :: msg.fields.map fieldLine

/-- The bytes of the request. -/
def text (msg : Message) : List Char := linesText msg.lines ++ crlf ++ msg.body

/-- The field has this name, in small or large letters. -/
def Named (name : CStr) (field : CStr × CStr) : Prop := equalsIgnoreCase field.1 name = true

instance (name : CStr) (field : CStr × CStr) : Decidable (Named name field) :=
  inferInstanceAs (Decidable (_ = _))

/-- The last content type, in an array of 64 bytes. -/
def contentType (msg : Message) : CStr :=
  msg.fields.foldl
    (fun value field => if Named "Content-Type".toList field then field.2.take 63 else value) []

/-- A field that can be taken apart at its colon. -/
structure GoodField (field : CStr × CStr) : Prop where
  name : InLine field.1
  value : InLine field.2
  colon : ':' ∉ field.1
  trimName : Trimmed field.1
  trimValue : Trimmed field.2

instance (field : CStr × CStr) : Decidable (GoodField field) :=
  decidable_of_iff (InLine field.1 ∧ InLine field.2 ∧ ':' ∉ field.1 ∧ Trimmed field.1 ∧
    Trimmed field.2) ⟨fun ⟨h₁, h₂, h₃, h₄, h₅⟩ => ⟨h₁, h₂, h₃, h₄, h₅⟩,
      fun h => ⟨h.name, h.value, h.colon, h.trimName, h.trimValue⟩⟩

/-- The parts can be told apart, the length is announced, and the server has room for it all. -/
structure WellFormed (msg : Message) : Prop where
  path : InLine msg.path ∧ ' ' ∉ msg.path ∧ '?' ∉ msg.path
  slash : msg.path.head? = some '/'
  query : ∀ query ∈ msg.query, InLine query ∧ ' ' ∉ query
  fields : ∀ field ∈ msg.fields, GoodField field
  length : ∀ field ∈ msg.fields, Named "Content-Length".toList field →
    field.2 = intText msg.body.length
  announced : msg.body = [] ∨ ∃ field ∈ msg.fields, Named "Content-Length".toList field
  header : (linesText msg.lines ++ crlf).length ≤ httpMaxHeaderBytes
  body : msg.body.length ≤ httpMaxBodyBytes

instance (msg : Message) : Decidable msg.WellFormed :=
  decidable_of_iff ((InLine msg.path ∧ ' ' ∉ msg.path ∧ '?' ∉ msg.path) ∧
    msg.path.head? = some '/' ∧ (∀ query ∈ msg.query, InLine query ∧ ' ' ∉ query) ∧
    (∀ field ∈ msg.fields, GoodField field) ∧
    (∀ field ∈ msg.fields, Named "Content-Length".toList field →
      field.2 = intText msg.body.length) ∧
    (msg.body = [] ∨ ∃ field ∈ msg.fields, Named "Content-Length".toList field) ∧
    (linesText msg.lines ++ crlf).length ≤ httpMaxHeaderBytes ∧
    msg.body.length ≤ httpMaxBodyBytes)
    ⟨fun ⟨h₁, h₂, h₃, h₄, h₅, h₆, h₇, h₈⟩ => ⟨h₁, h₂, h₃, h₄, h₅, h₆, h₇, h₈⟩,
      fun h => ⟨h.path, h.slash, h.query, h.fields, h.length, h.announced, h.header, h.body⟩⟩

/-- The request as the server is meant to see it. -/
def request (msg : Message) : ParsedRequest where
  method := msg.method
  path := msg.path.take 511
  query := (msg.query.getD []).take 511
  contentType := msg.contentType
  contentLength := msg.body.length
  body := if msg.body = [] then none else some msg.body

/-! ## The header is taken apart -/

theorem trimSpace_cons_space {s : CStr} (h : Trimmed s) : trimSpace (' ' :: s) = s := by
  have hblank : isSpace ' ' = true := rfl
  rw [trimSpace, List.dropWhile_cons_of_pos hblank]
  exact trimSpace_of_trimmed h

/-- One field, taken apart at its colon. -/
theorem headerFields_fieldLine {field : CStr × CStr} (h : GoodField field) (lines : List CStr)
    (out : ParsedRequest) :
    headerFields (fieldLine field :: lines) out =
      if Named "Content-Length".toList field then
        match parseContentLength field.2 with
        | none => (false, out)
        | some n => headerFields lines { out with contentLength := n }
      else if Named "Content-Type".toList field then
        headerFields lines { out with contentType := field.2.take 63 }
      else headerFields lines out := by
  have hsplit := strchrSplit_append h.colon (' ' :: field.2)
  rw [headerFields, fieldLine, hsplit]
  dsimp only
  rw [trimSpace_of_trimmed h.trimName, trimSpace_cons_space h.trimValue]
  rfl

/-- The length that the fields announce. -/
def lengthOf (n : ℕ) (fields : List (CStr × CStr)) (length : ℕ) : ℕ :=
  if fields.any (fun field => decide (Named "Content-Length".toList field)) then n else length

theorem lengthOf_cons (n : ℕ) (field : CStr × CStr) (fields : List (CStr × CStr)) (length : ℕ) :
    lengthOf n (field :: fields) length =
      lengthOf n fields (if Named "Content-Length".toList field then n else length) := by
  by_cases hname : Named "Content-Length".toList field
  · simp only [lengthOf, List.any_cons, hname, decide_true, Bool.true_or, if_true, ite_self]
  · simp only [lengthOf, List.any_cons, hname, decide_false, Bool.false_or, if_false]

theorem lengthOf_announced {n : ℕ} {fields : List (CStr × CStr)} {length : ℕ}
    (h : ∃ field ∈ fields, Named "Content-Length".toList field) :
    lengthOf n fields length = n := by
  refine if_pos (List.any_eq_true.mpr ?_)
  obtain ⟨field, hmem, hname⟩ := h
  exact ⟨field, hmem, decide_eq_true hname⟩

/-- **The loop over the fields** leaves the announced length and the last content type. -/
theorem headerFields_eq {n : ℕ} (hn : n ≤ httpMaxBodyBytes) {fields : List (CStr × CStr)}
    (hgood : ∀ field ∈ fields, GoodField field)
    (hlength : ∀ field ∈ fields, Named "Content-Length".toList field → field.2 = intText n)
    (out : ParsedRequest) :
    headerFields (fields.map fieldLine) out = (true, { out with
      contentLength := lengthOf n fields out.contentLength
      contentType := fields.foldl
        (fun value field => if Named "Content-Type".toList field then field.2.take 63 else value)
        out.contentType }) := by
  induction fields generalizing out with
  | nil => rfl
  | cons field fields ih =>
    have hrest := ih (fun field hmem => hgood field (List.mem_cons_of_mem _ hmem))
      fun field hmem => hlength field (List.mem_cons_of_mem _ hmem)
    rw [List.map_cons, headerFields_fieldLine (hgood field (List.mem_cons_self ..)),
      List.foldl_cons, lengthOf_cons]
    by_cases hname : Named "Content-Length".toList field
    · have htype : ¬ Named "Content-Type".toList field := by
        intro htype
        have hlen := (length_eq_of_equalsIgnoreCase hname).symm.trans
          (length_eq_of_equalsIgnoreCase htype)
        exact absurd hlen (by decide)
      have hvalue := hlength field (List.mem_cons_self ..) hname
      rw [if_pos hname, hvalue, parseContentLength_intText hn, if_neg htype, if_pos hname]
      dsimp only
      rw [hrest]
    · rw [if_neg hname, if_neg hname]
      by_cases htype : Named "Content-Type".toList field
      · rw [if_pos htype, if_pos htype, hrest]
      · rw [if_neg htype, if_neg htype, hrest]

variable {msg : Message}

theorem method_cases (msg : Message) : msg.method = "GET".toList ∨ msg.method = "POST".toList := by
  unfold method
  split
  · exact .inr rfl
  · exact .inl rfl

/-- The target of a well formed message starts with a slash and has no blank in it. -/
theorem WellFormed.target (h : msg.WellFormed) :
    msg.target.head? = some '/' ∧ ' ' ∉ msg.target ∧ InLine msg.target := by
  obtain ⟨hpath, hblank, -⟩ := h.path
  cases hquery : msg.query with
  | none =>
    have htarget : msg.target = msg.path := by rw [Message.target, hquery]
    rw [htarget]
    exact ⟨h.slash, hblank, hpath⟩
  | some query =>
    have htarget : msg.target = msg.path ++ '?' :: query := by rw [Message.target, hquery]
    obtain ⟨hin, hspace⟩ := h.query query hquery
    have hmark : InLine ('?' :: query) := InLine.append (s := ['?']) (by decide) hin
    rw [htarget]
    refine ⟨?_, ?_, hpath.append hmark⟩
    · rw [List.head?_append, h.slash]
      rfl
    · simp [hblank, hspace]

/-- The first line is taken apart at its blanks and its question mark. -/
theorem parseRequestLine_eq (h : msg.WellFormed) :
    parseRequestLine msg.requestLine = some { ParsedRequest.zero with
      method := msg.method, path := msg.path.take 511, query := (msg.query.getD []).take 511 } := by
  obtain ⟨hslash, hblank, -⟩ := h.target
  have hmethod : ' ' ∉ msg.method := by
    rcases msg.method_cases with hm | hm <;> rw [hm] <;> decide
  have hversion : Trimmed "HTTP/1.1".toList := by decide
  have htrim : Trimmed (msg.target ++ ' ' :: "HTTP/1.1".toList) := by
    refine ⟨?_, ?_⟩
    · intro c hc
      rw [List.head?_append, hslash] at hc
      obtain rfl : '/' = c := by simpa using hc
      rfl
    · intro c hc
      rw [List.getLast?_append_cons] at hc
      obtain rfl : '1' = c := by simpa using hc
      rfl
  have hfirst := strchrSplit_append hmethod (msg.target ++ ' ' :: "HTTP/1.1".toList)
  have hsecond := strchrSplit_append hblank "HTTP/1.1".toList
  rw [parseRequestLine, requestLine, hfirst]
  dsimp only
  rw [trimSpace_of_trimmed htrim, hsecond]
  dsimp only
  rw [trimSpace_of_trimmed hversion, if_neg]
  · have hkeep : (if equalsIgnoreCase msg.method "GET".toList then "GET".toList
        else "POST".toList) = msg.method := by
      rcases msg.method_cases with hm | hm <;> rw [hm] <;> decide
    rw [hkeep]
    cases hquery : msg.query with
    | none =>
      have htarget : msg.target = msg.path := by rw [Message.target, hquery]
      have hmark : strchrSplit '?' msg.path = none := if_neg h.path.2.2
      rw [htarget, hmark]
      rfl
    | some query =>
      have htarget : msg.target = msg.path ++ '?' :: query := by rw [Message.target, hquery]
      rw [htarget, strchrSplit_append h.path.2.2]
      rfl
  · rcases msg.method_cases with hm | hm <;> rw [hm] <;> decide

/-! ## The request comes back -/

theorem goodLine_fieldLine {field : CStr × CStr} (h : GoodField field) :
    GoodLine (fieldLine field) := by
  have hcolon : InLine (':' :: ' ' :: field.2) := InLine.append (s := [':', ' ']) (by decide) h.value
  exact ⟨by simp [fieldLine], h.name.append hcolon⟩

theorem WellFormed.goodLines (h : msg.WellFormed) : ∀ line ∈ msg.lines, GoodLine line := by
  intro line hmem
  rw [lines, List.mem_cons] at hmem
  rcases hmem with rfl | hmem
  · have hmethod : InLine (msg.method ++ [' ']) := by
      rcases msg.method_cases with hm | hm <;> rw [hm] <;> decide
    have hversion : InLine (' ' :: "HTTP/1.1".toList) := by decide
    have hline := hmethod.append (h.target.2.2.append hversion)
    rw [List.append_assoc, List.singleton_append] at hline
    exact ⟨by simp [requestLine], hline⟩
  · obtain ⟨field, hfield, rfl⟩ := List.mem_map.mp hmem
    exact goodLine_fieldLine (h.fields field hfield)

/-- The header, without its empty line. -/
theorem parseHeader_head (h : msg.WellFormed) :
    parseHeader (linesText msg.lines) = (true, { msg.request with body := none }) := by
  have hgood := h.goodLines
  have hnul : NulFree (linesText msg.lines) := by
    intro hmem
    obtain ⟨line, hline, hnul⟩ := List.mem_flatMap.mp hmem
    rcases List.mem_append.mp hnul with hnul | hnul
    · exact (hgood line hline).2.2.2 hnul
    · exact absurd hnul (by decide)
  have hlines : strtokLines (linesText msg.lines) = msg.lines := strtokLines_lines hgood
  have hlength : lengthOf msg.body.length msg.fields 0 = msg.body.length := by
    rcases h.announced with hnil | hsome
    · rw [hnil, lengthOf]
      exact ite_self 0
    · exact lengthOf_announced hsome
  rw [parseHeader, cstr_of_nulFree hnul, hlines, lines]
  dsimp only
  rw [parseRequestLine_eq h]
  dsimp only
  rw [headerFields_eq h.body h.fields h.length]
  dsimp only [ParsedRequest.zero]
  rw [hlength]
  rfl

theorem WellFormed.findHeaderEnd (h : msg.WellFormed) (more : List Char) :
    MiniSql.findHeaderEnd ((msg.text ++ more).take httpMaxHeaderBytes) =
      some ((linesText msg.lines).length - 2) := by
  have htext : msg.text ++ more = linesText msg.lines ++ crlf ++ (msg.body ++ more) := by
    rw [text, List.append_assoc]
  rw [htext, List.take_append, List.take_of_length_le h.header]
  exact findHeaderEnd_lines (by simp [lines]) h.goodLines _

/-- The reader takes a well formed request apart, whatever follows it. -/
theorem WellFormed.httpParseRequest_eq (h : msg.WellFormed) {more : List Char}
    {events : List ReadEvent} (hcuts : Cuts (msg.text ++ more) events) :
    httpParseRequest events = (true, msg.request) := by
  have htwo : 2 ≤ (linesText msg.lines).length := by
    rw [lines, linesText_cons]
    simp [crlf]
    omega
  have htext : msg.text ++ more = linesText msg.lines ++ (crlf ++ (msg.body ++ more)) := by
    simp only [text, List.append_assoc]
  have hhead : (msg.text ++ more).take ((linesText msg.lines).length - 2 + 2) =
      linesText msg.lines := by
    rw [Nat.sub_add_cancel htwo, htext, List.take_left]
  have hrest : (msg.text ++ more).drop ((linesText msg.lines).length - 2 + 4) =
      msg.body ++ more := by
    have hlen : (linesText msg.lines).length - 2 + 4 = (linesText msg.lines ++ crlf).length := by
      rw [List.length_append, crlf, List.length_cons, List.length_singleton]
      omega
    rw [hlen, htext, ← List.append_assoc, List.drop_left]
  rw [MiniSql.httpParseRequest_eq hcuts, requestOf, h.findHeaderEnd]
  dsimp only
  rw [hhead, parseHeader_head h, hrest]
  dsimp only [request]
  by_cases hnil : msg.body = []
  · rw [if_pos (by rw [hnil, List.length_nil]), if_pos hnil]
  · have hlong : msg.body.length ≤ (msg.body ++ more).length := by simp
    rw [if_neg (by simpa using hnil), if_pos hlong, List.take_left, if_neg hnil]

/-- **A well formed request comes back**: however its bytes are cut up, and whatever follows them,
`http_parse_request` returns its method, its path, its query, its content type and its body, and the
router answers these. -/
theorem message_roundtrip [CDouble] (h : msg.WellFormed) {more : List Char}
    {events : List ReadEvent} (hcuts : Cuts (msg.text ++ more) events) (m : Moment)
    (s : RouterState) :
    httpParseRequest events = (true, msg.request) ∧
      handleClient m s events = RouterState.routerDispatch m s (some msg.request.toHttpRequest) := by
  have hparse := h.httpParseRequest_eq hcuts
  refine ⟨hparse, ?_⟩
  rw [handleClient, hparse]

/-- A statement that is posted, in three pieces. -/
theorem message_roundtrip_post :
    let msg : Message := ⟨true, "/api/query".toList, some "mode=single".toList,
      [("Host".toList, "localhost:8080".toList), ("content-length".toList, "9".toList)],
      "SELECT\r\n1".toList⟩
    httpParseRequest [.data (msg.text.take 40), .interrupted,
      .data ((msg.text.drop 40).take 50), .data (msg.text.drop 90 ++ "GET".toList)] =
      (true, msg.request) := by
  refine (@message_roundtrip _ .whole (by decide +kernel) "GET".toList _ ?_
    ⟨fun _ => .zero, fun _ => false, 0, 0, 0, 0, fun _ => .missing⟩
    (⟨⟨.start fun _ => none, trieCreate, false⟩, DictCache.create 1024, 0, []⟩)).1
  exact ⟨by decide, _, rfl, by decide, _, rfl, by decide, [], rfl, rfl⟩

end Message

end MiniSql
