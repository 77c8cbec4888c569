import MiniSql.RouterJson

/-!
# Reading a request

`http_parse_request` reads from a descriptor until it has seen an empty line, takes the bytes in
front of it apart with `strtok_r` and `strchr`, and reads on until the body is complete. What a
single `read` returns is a list of bytes, one `Char` for each byte. `malloc` succeeds.

## Main definitions

* `ReadEvent`, `Cuts` — the results of `read`, and the stream they are pieces of.
* `ParsedRequest`, `httpParseRequest`, `handleClient`.
* `FirstBlankLine` — where the first empty line of a stream is.

## Main results

* `httpParseRequest_eq` — the result is a function of the stream.
* `httpParseRequest_cuts` — it does not depend on how the stream is cut, and the body is what
  follows the first empty line.
* `handleClient_cuts` — nor does the answer of the server.
-/

namespace MiniSql
open CText

/-! ## The request -/

/-- `http_request_t` as the reader fills it: the body is NULL or a block of `contentLength` bytes,
in which a NUL may stand. -/
structure ParsedRequest where
  method : CStr
  path : CStr
  query : CStr
  contentType : CStr
  contentLength : ℕ
  body : Option (List Char)
  deriving DecidableEq, Repr

/-- A request whose bytes are all zero. -/
def ParsedRequest.zero : ParsedRequest := ⟨[], [], [], [], 0, none⟩

/-- The request as the router reads it. -/
def ParsedRequest.toHttpRequest (req : ParsedRequest) : HttpRequest :=
  ⟨req.method, req.path, req.query, req.contentLength, req.body.map cstr⟩

/-- `HTTP_MAX_HEADER_BYTES`. -/
def httpMaxHeaderBytes : ℕ := 8192

/-- `HTTP_MAX_BODY_BYTES`. -/
def httpMaxBodyBytes : ℕ := 1024 * 1024

/-! ## The bytes -/

/-- What a call of `read` may return: some bytes, `-1` with `EINTR`, or `-1`. No bytes are the
end of the file, and so is the end of the list. -/
inductive ReadEvent
  | data (bytes : List Char)
  | interrupted
  | error
  deriving DecidableEq, Repr

/-- CRLF CRLF. -/
def blankLine : List Char := ['\r', '\n', '\r', '\n']

/-- `find_header_end`: the offset of the first empty line. -/
def findHeaderEnd : List Char → Option ℕ
  | [] => none
  | c :: buf =>
    if blankLine <+: c :: buf then some 0 else (findHeaderEnd buf).map (· + 1)

/-- What is left of a read that asked for `room` bytes. -/
def unread (room : ℕ) (bytes : List Char) (events : List ReadEvent) : List ReadEvent :=
  if bytes.length ≤ room then events else .data (bytes.drop room) :: events

/-- The loop that fills `header_buf`: the buffer, where the header ends in it, and the reads that
are left. With the last `room` bytes the buffer is full, so what is left of that read is not
looked at by the loop. -/
def headerLoop : List ReadEvent → List Char → Option (List Char × ℕ × List ReadEvent)
  | [], _ => none
  | event :: events, buf =>
    if httpMaxHeaderBytes ≤ buf.length then none
    else match event with
      | .interrupted => headerLoop events buf
      | .error => none
      | .data bytes =>
        if bytes = [] then none
        else
          let room := httpMaxHeaderBytes - buf.length
          match findHeaderEnd (buf ++ bytes.take room) with
          | some i => some (buf ++ bytes.take room, i, unread room bytes events)
          | none => headerLoop events (buf ++ bytes.take room)

/-- The loop that completes the body of `n` bytes. -/
def bodyLoop (n : ℕ) : List ReadEvent → List Char → Option (List Char)
  | [], body => if n ≤ body.length then some body else none
  | event :: events, body =>
    if n ≤ body.length then some body
    else match event with
      | .interrupted => bodyLoop n events body
      | .error => none
      | .data bytes =>
        if bytes = [] then none else bodyLoop n events (body ++ bytes.take (n - body.length))

/-! ## The header -/

/-- The tokens that `strtok_r` finds between the characters of `"\r\n"`. -/
def strtokLines (text : CStr) : List CStr :=
  (text.splitOnP fun c => c == '\r' || c == '\n').filter (· ≠ [])

/-- `strchr`, with the character overwritten by the end of the string: what is before it and
what is behind it. -/
def strchrSplit (c : Char) (s : CStr) : Option (CStr × CStr) :=
  if c ∈ s then some (s.takeWhile (· ≠ c), (s.dropWhile (· ≠ c)).tail) else none

/-- `strtoul` with base 10: the value, the text from `end` on, and whether `errno` was set. A
sign is allowed, and a negative number is taken modulo `2 ^ 64`. -/
def strtoul (text : CStr) : ℕ × CStr × Bool :=
  let (neg, s) := signOf (text.dropWhile isSpace)
  let ds := s.takeWhile Char.isDigit
  let rest := s.dropWhile Char.isDigit
  if ds = [] then (0, text, false)
  else if 2 ^ 64 ≤ digitsValue ds then (2 ^ 64 - 1, rest, true)
  else (if neg then (2 ^ 64 - digitsValue ds) % 2 ^ 64 else digitsValue ds, rest, false)

/-- `parse_content_length`. -/
def parseContentLength (value : CStr) : Option ℕ :=
  let (parsed, rest, erange) := strtoul value
  if value = [] ∨ erange ∨ rest = value ∨ rest.dropWhile isSpace ≠ [] ∨ httpMaxBodyBytes < parsed
  then none else some parsed

/-- The first line: the method, the target and the version. -/
def parseRequestLine (line : CStr) : Option ParsedRequest :=
  match strchrSplit ' ' line with
  | none => none
  | some (method, target) =>
    match strchrSplit ' ' (trimSpace target) with
    | none => none
    | some (target, version) =>
      if (!equalsIgnoreCase method "GET".toList && !equalsIgnoreCase method "POST".toList) ||
          (trimSpace version).take 5 ≠ "HTTP/".toList then none
      else
        let method := if equalsIgnoreCase method "GET".toList then "GET".toList else "POST".toList
        match strchrSplit '?' target with
        | some (path, query) =>
          some { ParsedRequest.zero with method, path := path.take 511, query := query.take 511 }
        | none => some { ParsedRequest.zero with method, path := target.take 511 }

/-- The loop over the other lines: whether all went well, and the request so far. -/
def headerFields : List CStr → ParsedRequest → Bool × ParsedRequest
  | [], out => (true, out)
  | line :: lines, out =>
    match strchrSplit ':' line with
    | none => (false, out)
    | some (name, value) =>
      let name := trimSpace name
      let value := trimSpace value
      if equalsIgnoreCase name "Content-Length".toList then
        match parseContentLength value with
        | none => (false, out)
        | some n => headerFields lines { out with contentLength := n }
      else if equalsIgnoreCase name "Content-Type".toList then
        headerFields lines { out with contentType := value.take 63 }
      else headerFields lines out

/-- The header, which ends before the second CR of the empty line or at a NUL. -/
def parseHeader (header : List Char) : Bool × ParsedRequest :=
  match strtokLines (cstr header) with
  | [] => (false, .zero)
  | line :: lines =>
    match parseRequestLine line with
    | none => (false, .zero)
    | some out => headerFields lines out

/-- `http_parse_request` on what the calls of `read` return: whether it returns `0`, and what it
leaves in `out`. -/
def httpParseRequest (events : List ReadEvent) : Bool × ParsedRequest :=
  match headerLoop events [] with
  | none => (false, .zero)
  | some (buf, i, events) =>
    match parseHeader (buf.take (i + 2)) with
    | (false, out) => (false, out)
    | (true, out) =>
      if out.contentLength = 0 then (true, out)
      else
        match bodyLoop out.contentLength events ((buf.drop (i + 4)).take out.contentLength) with
        | none => (false, { out with body := none })
        | some body => (true, { out with body := some body })

example : httpParseRequest [.data "POST /api/query?mode=single HTTP/1.1\r\nContent-Le".toList,
      .interrupted, .data "ngth: 3\r\n\r\na;b".toList] =
    (true, ⟨"POST".toList, "/api/query".toList, "mode=single".toList, [], 3,
      some "a;b".toList⟩) := by
  decide +kernel

/-- `handle_client`: the response that it writes, and the process. -/
def handleClient [CDouble] (m : Moment) (s : RouterState) (events : List ReadEvent) :
    HttpResponse × RouterState :=
  match httpParseRequest events with
  | (false, _) => (jsonError 400 "bad_request".toList, s)
  | (true, req) => RouterState.routerDispatch m s (some req.toHttpRequest)

/-! ## Streams -/

/-- The reads cut up the stream: they are not empty and do not fail, but they may be interrupted. -/
def Cuts (stream : List Char) : List ReadEvent → Prop
  | [] => stream = []
  | .data bytes :: events => bytes ≠ [] ∧ ∃ rest, stream = bytes ++ rest ∧ Cuts rest events
  | .interrupted :: events => Cuts stream events
  | .error :: _ => False

/-- The stream is `head`, its first empty line, and `rest`. -/
def FirstBlankLine (stream head rest : List Char) : Prop :=
  stream = head ++ blankLine ++ rest ∧
    ∀ a b, stream = a ++ blankLine ++ b → head.length ≤ a.length

theorem findHeaderEnd_spec {buf : List Char} {i : ℕ} (h : findHeaderEnd buf = some i) :
    ∃ head rest, head.length = i ∧ FirstBlankLine buf head rest := by
  induction buf generalizing i with
  | nil => exact absurd h (by simp [findHeaderEnd])
  | cons c buf ih =>
    rw [findHeaderEnd] at h
    split at h
    · rename_i hstarts
      obtain ⟨rest, hrest⟩ := hstarts
      obtain rfl : 0 = i := Option.some.inj h
      exact ⟨[], rest, rfl, hrest.symm, fun a b _ => Nat.zero_le _⟩
    · rename_i hstarts
      obtain ⟨j, hj, rfl⟩ := Option.map_eq_some_iff.mp h
      obtain ⟨head, rest, hlen, hbuf, hfirst⟩ := ih hj
      refine ⟨c :: head, rest, by rw [List.length_cons, hlen], by rw [hbuf]; rfl, ?_⟩
      intro a b hab
      cases a with
      | nil => exact absurd ⟨b, hab.symm⟩ hstarts
      | cons d a =>
        have hcons : c :: buf = d :: (a ++ blankLine ++ b) := hab
        have := hfirst a b (List.cons.inj hcons).2
        simpa using this

theorem findHeaderEnd_le {buf : List Char} {i : ℕ} (h : findHeaderEnd buf = some i) :
    i + 4 ≤ buf.length := by
  obtain ⟨head, rest, rfl, hbuf, -⟩ := findHeaderEnd_spec h
  rw [hbuf]
  simp [blankLine]

/-- More bytes behind an empty line do not change where the first one is. -/
theorem findHeaderEnd_append {buf : List Char} {i : ℕ} (h : findHeaderEnd buf = some i)
    (more : List Char) : findHeaderEnd (buf ++ more) = some i := by
  induction buf generalizing i with
  | nil => exact absurd h (by simp [findHeaderEnd])
  | cons c buf ih =>
    rw [findHeaderEnd] at h
    rw [List.cons_append, findHeaderEnd]
    split at h
    · rename_i hstarts
      have hlong : blankLine <+: c :: (buf ++ more) := hstarts.trans (List.prefix_append _ more)
      rw [if_pos hlong]
      exact h
    · rename_i hstarts
      obtain ⟨j, hj, rfl⟩ := Option.map_eq_some_iff.mp h
      have hle := findHeaderEnd_le hj
      rw [if_neg, ih hj]
      · rfl
      · intro hlong
        refine hstarts (List.prefix_of_prefix_length_le hlong (List.prefix_append _ more) ?_)
        simp only [blankLine, List.length_cons, List.length_nil]
        omega

/-- A full buffer is not read into. -/
theorem headerLoop_full {buf : List Char} (h : httpMaxHeaderBytes ≤ buf.length)
    (events : List ReadEvent) : headerLoop events buf = none := by
  cases events with
  | nil => rfl
  | cons event events => simp only [headerLoop, if_pos h]

/-- The loop finds the first empty line of the stream, if it is within reach, and loses nothing
of what has been read behind it. -/
theorem headerLoop_eq {events : List ReadEvent} {rest buf : List Char} (hcuts : Cuts rest events)
    (hroom : buf.length ≤ httpMaxHeaderBytes) (hnone : findHeaderEnd buf = none) :
    match findHeaderEnd ((buf ++ rest).take httpMaxHeaderBytes) with
    | none => headerLoop events buf = none
    | some i => ∃ buf' events' rest', headerLoop events buf = some (buf', i, events') ∧
        buf ++ rest = buf' ++ rest' ∧ Cuts rest' events' ∧ i + 4 ≤ buf'.length := by
  induction events generalizing buf rest with
  | nil =>
    obtain rfl : rest = [] := hcuts
    rw [List.append_nil, List.take_of_length_le hroom, hnone]
    rfl
  | cons event events ih =>
    by_cases hfull : httpMaxHeaderBytes ≤ buf.length
    · have htake : (buf ++ rest).take httpMaxHeaderBytes = buf := by
        rw [List.take_append_of_le_length hfull, List.take_of_length_le hroom]
      rw [htake, hnone]
      exact headerLoop_full hfull _
    · cases event with
      | error => exact absurd hcuts (by simp [Cuts])
      | interrupted =>
        simp only [headerLoop, if_neg hfull]
        exact @ih rest buf hcuts hroom hnone
      | data bytes =>
        obtain ⟨hne, rest', rfl, hcuts'⟩ := hcuts
        simp only [headerLoop, if_neg hfull, if_neg hne]
        set room := httpMaxHeaderBytes - buf.length with hroomEq
        by_cases hfit : bytes.length ≤ room
        · rw [List.take_of_length_le hfit, unread, if_pos hfit, ← List.append_assoc]
          have hlen : (buf ++ bytes).length ≤ httpMaxHeaderBytes := by
            rw [List.length_append]
            omega
          cases hfound : findHeaderEnd (buf ++ bytes) with
          | none => exact ih hcuts' hlen hfound
          | some i =>
            have htake : (buf ++ bytes ++ rest').take httpMaxHeaderBytes =
                buf ++ bytes ++ rest'.take (httpMaxHeaderBytes - (buf ++ bytes).length) := by
              rw [List.take_append, List.take_of_length_le hlen]
            rw [htake, findHeaderEnd_append hfound]
            exact ⟨buf ++ bytes, events, rest', rfl, rfl, hcuts', findHeaderEnd_le hfound⟩
        · have hlt : room < bytes.length := by omega
          have htake : (buf ++ (bytes ++ rest')).take httpMaxHeaderBytes =
              buf ++ bytes.take room := by
            rw [List.take_append, List.take_of_length_le hroom, ← hroomEq,
              List.take_append_of_le_length hlt.le]
          rw [htake, unread, if_neg hfit]
          cases hfound : findHeaderEnd (buf ++ bytes.take room) with
          | none =>
            refine headerLoop_full ?_ _
            rw [List.length_append, List.length_take]
            omega
          | some i =>
            refine ⟨_, _, bytes.drop room ++ rest', rfl, ?_, ⟨?_, rest', rfl, hcuts'⟩,
              findHeaderEnd_le hfound⟩
            · rw [List.append_assoc, ← List.append_assoc (bytes.take room), List.take_append_drop]
            · exact fun hnil => absurd (List.drop_eq_nil_iff.mp hnil) (by omega)

theorem bodyLoop_full {n : ℕ} {body : List Char} (h : n ≤ body.length) (events : List ReadEvent) :
    bodyLoop n events body = some body := by
  cases events with
  | nil => exact if_pos h
  | cons event events => simp only [bodyLoop, if_pos h]

/-- The loop takes the first `n` bytes, if there are so many. -/
theorem bodyLoop_eq {n : ℕ} {events : List ReadEvent} {rest body : List Char}
    (hcuts : Cuts rest events) (hlen : body.length ≤ n) :
    bodyLoop n events body =
      if n ≤ (body ++ rest).length then some ((body ++ rest).take n) else none := by
  induction events generalizing body rest with
  | nil =>
    obtain rfl : rest = [] := hcuts
    rw [List.append_nil, bodyLoop, List.take_of_length_le hlen]
  | cons event events ih =>
    by_cases hfull : n ≤ body.length
    · have hlen' : n ≤ (body ++ rest).length := by
        rw [List.length_append]
        omega
      rw [bodyLoop_full hfull, if_pos hlen', List.take_append_of_le_length hfull,
        List.take_of_length_le hlen]
    · cases event with
      | error => exact absurd hcuts (by simp [Cuts])
      | interrupted =>
        simp only [bodyLoop, if_neg hfull]
        exact ih hcuts hlen
      | data bytes =>
        obtain ⟨hne, rest', rfl, hcuts'⟩ := hcuts
        simp only [bodyLoop, if_neg hfull, if_neg hne]
        by_cases hfit : bytes.length ≤ n - body.length
        · rw [List.take_of_length_le hfit, ih hcuts', List.append_assoc]
          rw [List.length_append]
          omega
        · have hlt : n - body.length < bytes.length := by omega
          have hbody : n ≤ (body ++ bytes.take (n - body.length)).length := by
            rw [List.length_append, List.length_take]
            omega
          have hlen' : n ≤ (body ++ (bytes ++ rest')).length := by
            rw [List.length_append, List.length_append]
            omega
          rw [bodyLoop_full hbody, if_pos hlen', List.take_append, List.take_of_length_le hlen,
            List.take_append_of_le_length hlt.le]

/-! ## The result depends on the stream -/

/-- What `http_parse_request` makes of a stream. -/
def requestOf (stream : List Char) : Bool × ParsedRequest :=
  match findHeaderEnd (stream.take httpMaxHeaderBytes) with
  | none => (false, .zero)
  | some i =>
    match parseHeader (stream.take (i + 2)) with
    | (false, out) => (false, out)
    | (true, out) =>
      if out.contentLength = 0 then (true, out)
      else if out.contentLength ≤ (stream.drop (i + 4)).length then
        (true, { out with body := some ((stream.drop (i + 4)).take out.contentLength) })
      else (false, { out with body := none })

/-- **The result is a function of the stream.** -/
theorem httpParseRequest_eq {stream : List Char} {events : List ReadEvent}
    (hcuts : Cuts stream events) : httpParseRequest events = requestOf stream := by
  have hloop := @headerLoop_eq events stream [] hcuts (Nat.zero_le _) rfl
  rw [List.nil_append] at hloop
  unfold httpParseRequest requestOf
  cases hfound : findHeaderEnd (stream.take httpMaxHeaderBytes) with
  | none =>
    rw [hfound] at hloop
    dsimp only at hloop
    rw [hloop]
  | some i =>
    rw [hfound] at hloop
    obtain ⟨buf, events', rest, hloop, rfl, hcuts', hle⟩ := hloop
    have htake : (buf ++ rest).take (i + 2) = buf.take (i + 2) :=
      List.take_append_of_le_length (by omega)
    have hdrop : (buf ++ rest).drop (i + 4) = buf.drop (i + 4) ++ rest :=
      List.drop_append_of_le_length hle
    rw [hloop]
    dsimp only
    rw [htake, hdrop]
    rcases parseHeader (buf.take (i + 2)) with ⟨_ | _, out⟩
    · rfl
    · dsimp only
      split
      · rfl
      have hbody : bodyLoop out.contentLength events'
          ((buf.drop (i + 4)).take out.contentLength) =
            if out.contentLength ≤ (buf.drop (i + 4) ++ rest).length then
              some ((buf.drop (i + 4) ++ rest).take out.contentLength) else none := by
        by_cases hextra : out.contentLength ≤ (buf.drop (i + 4)).length
        · rw [bodyLoop_full (by rw [List.length_take]; omega),
            if_pos (by rw [List.length_append]; omega), List.take_append_of_le_length hextra]
        · rw [List.take_of_length_le (by omega), bodyLoop_eq hcuts' (by omega)]
      rw [hbody]
      by_cases hall : out.contentLength ≤ (buf.drop (i + 4) ++ rest).length
      · rw [if_pos hall, if_pos hall]
      · rw [if_neg hall, if_neg hall]

/-- However the stream is cut, the client gets the same response. -/
theorem handleClient_cuts [CDouble] (m : Moment) (s : RouterState) {stream : List Char}
    {events events' : List ReadEvent} (h : Cuts stream events) (h' : Cuts stream events') :
    handleClient m s events = handleClient m s events' := by
  have hsame : httpParseRequest events = httpParseRequest events' :=
    (httpParseRequest_eq h).trans (httpParseRequest_eq h').symm
  rw [handleClient, handleClient, hsame]

/-- **However the stream is cut, the return value and the request are the same, and a body is
what follows the first empty line.** -/
theorem httpParseRequest_cuts {stream : List Char} {events events' : List ReadEvent}
    (h : Cuts stream events) (h' : Cuts stream events') :
    httpParseRequest events = httpParseRequest events' ∧
      ((httpParseRequest events).1 = true → 0 < (httpParseRequest events).2.contentLength →
        ∃ head rest, FirstBlankLine stream head rest ∧
          (httpParseRequest events).2.contentLength ≤ rest.length ∧
          (httpParseRequest events).2.body =
            some (rest.take (httpParseRequest events).2.contentLength)) := by
  refine ⟨(httpParseRequest_eq h).trans (httpParseRequest_eq h').symm, ?_⟩
  rw [httpParseRequest_eq h]
  unfold requestOf
  cases hfound : findHeaderEnd (stream.take httpMaxHeaderBytes) with
  | none => exact fun hok => absurd hok (by simp)
  | some i =>
    have hstream := findHeaderEnd_append hfound (stream.drop httpMaxHeaderBytes)
    rw [List.take_append_drop] at hstream
    obtain ⟨head, rest, hi, hfirst⟩ := findHeaderEnd_spec hstream
    have hdrop : stream.drop (i + 4) = rest := by
      rw [hfirst.1, ← hi]
      have hlen : head.length + 4 = (head ++ blankLine).length := by simp [blankLine]
      rw [hlen, List.drop_left]
    dsimp only
    rw [hdrop]
    rcases parseHeader (stream.take (i + 2)) with ⟨_ | _, out⟩
    · exact fun hok => absurd hok (by simp)
    · dsimp only
      split
      · rename_i hzero
        exact fun _ hpos => absurd hzero (Nat.ne_of_gt hpos)
      · split
        · rename_i hlen
          exact fun _ _ => ⟨head, rest, hfirst, hlen, rfl⟩
        · exact fun hok => absurd hok (by simp)

/-- Read at once, or with the empty line and the body cut in two. -/
theorem httpParseRequest_cuts_post :
    let stream := "POST / HTTP/1.1\r\ncontent-length: 2\r\n\r\nab".toList
    let events := [ReadEvent.data stream]
    let events' := [.data (stream.take 37), .interrupted, .data (stream.drop 37)]
    httpParseRequest events = httpParseRequest events' ∧
      ((httpParseRequest events).1 = true → 0 < (httpParseRequest events).2.contentLength →
        ∃ head rest, FirstBlankLine stream head rest ∧
          (httpParseRequest events).2.contentLength ≤ rest.length ∧
          (httpParseRequest events).2.body =
            some (rest.take (httpParseRequest events).2.contentLength)) :=
  httpParseRequest_cuts ⟨by decide, [], by decide, rfl⟩
    ⟨by decide, _, rfl, by decide, [], by decide, rfl⟩

end MiniSql
