import MiniSql.Protocol.Write

/-!
# The client

`repl.c` reads lines, sends each statement to the server over a connection of its own, and prints
what comes back until the server closes the connection. The colours and the fixed texts that it
prints are constructors here; `printf` with `%.*s` stops at a NUL.

## Main definitions

* `promptLines`, `trimLine`, `handleBuiltin` — lines and what they ask for.
* `urlEscapeMin` — the statement of `\\e` in a query.
* `requestHeader`, `httpRequest` — a request, and what comes back.
* `readAll`, `parseResponse`, `printResponse`.
* `Command.perform` — a line of the session.

## Main results

* `promptLines_flatten`, `promptLines_length` — the pieces that the input is read in.
* `readAll_eq` — the response, however it is cut, up to the limit.
* `parseResponse_responseText` — the status and the body come back.
* `torn_response` — what is shown of a response that breaks off.
-/

namespace MiniSql
open CText

/-! ## Lines -/

/-- `MAX_LINE`. -/
def maxLine : ℕ := 4096

/-- `fgets` into an array of `MAX_LINE` bytes, call after call, with the bytes that the present call
has read. -/
def promptLoop : List Char → List Char → List (List Char)
  | [], [] => []
  | line, [] => [line]
  | line, c :: input =>
    if c = '\n' ∨ maxLine ≤ line.length + 2 then (line ++ [c]) :: promptLoop [] input
    else promptLoop (line ++ [c]) input

def promptLines (input : List Char) : List (List Char) := promptLoop [] input

/-- The characters that are removed from the end of a line. -/
def isLineEnd (c : Char) : Bool := c == '\n' || c == '\r' || c == ' ' || c == '\t' || c == ';'

/-- The loop over the end of a line, which ends at its first NUL. -/
def trimLine (line : List Char) : CStr := (cstr line).rdropWhile isLineEnd

/-- What a line asks for. -/
inductive Command
  | quit
  | help
  | stats
  | explain (sql : CStr)
  | single (on : Bool)
  | singleUsage
  | unknown (line : CStr)
  | query (sql : CStr)
  deriving DecidableEq, Repr

/-- `handle_builtin`: which command it is; all other lines are statements. -/
def handleBuiltin (line : CStr) : Command :=
  if line.head? ≠ some '\\' then .query line
  else if line = "\\q".toList ∨ line = "\\quit".toList then .quit
  else if line = "\\h".toList ∨ line = "\\help".toList then .help
  else if line = "\\s".toList ∨ line = "\\stats".toList then .stats
  else if "\\e ".toList <+: line then .explain (line.drop 3)
  else if "\\single".toList <+: line then
    if (line.drop 7).dropWhile (· = ' ') = "on".toList then .single true
    else if (line.drop 7).dropWhile (· = ' ') = "off".toList then .single false
    else .singleUsage
  else .unknown line

/-! ## The request -/

/-- The digit of a number below 16. -/
def hexDigit (n : ℕ) : Char := "0123456789ABCDEF".toList.getD n '0'

/-- What `url_escape_min` makes of a byte. -/
def escapeByte (c : Char) : CStr :=
  if c = ' ' then "%20".toList
  else if c.toNat < 0x20 ∨ c = '#' ∨ c = '&' ∨ c = '?' ∨ c = '=' ∨ c = '+' then
    ['%', hexDigit (c.toNat / 16 % 16), hexDigit (c.toNat % 16)]
  else [c]

/-- The loop of `url_escape_min`, with what has been written. -/
def urlEscapeLoop (cap : ℕ) : CStr → CStr → CStr
  | [], out => out
  | c :: s, out => if cap ≤ out.length + 4 then out else urlEscapeLoop cap s (out ++ escapeByte c)

/-- `url_escape_min`. -/
def urlEscapeMin (text : CStr) (cap : ℕ) : CStr := urlEscapeLoop cap text []

/-- `repl_cfg_t`. -/
structure ReplCfg where
  host : CStr
  port : ℕ
  singleMode : Bool
  deriving DecidableEq, Repr

/-- A request as the client puts it together: a body makes it a `POST`. -/
def clientMessage (cfg : ReplCfg) (path : CStr) (query : Option CStr) (body : Option CStr) : Message where
  post := body.isSome
  path := path
  query := query
  fields := [("Host".toList, cfg.host ++ ':' :: intText cfg.port),
    ("Content-Type".toList, "text/plain".toList),
    ("Content-Length".toList, intText (body.getD []).length),
    ("Connection".toList, "close".toList)]
  body := body.getD []

/-- What the environment does with one connection of the client: whether it comes about, what the
calls of `write` and `read` return, and what is in memory behind the bytes that have been read. -/
structure Wire where
  connects : Bool
  writes : List WriteEvent
  reads : List ReadEvent
  behind : List Char
  deriving DecidableEq, Repr

/-! ## The response -/

/-- `RESP_CAP`. -/
def respCap : ℕ := 2 ^ 20

/-- The loop of `read_all`, with the size of the block and what is in it. -/
def readAllLoop : ℕ → List ReadEvent → ℕ → List Char → Option (List Char)
  | 0, _, _, _ => none
  | _ + 1, [], _, buf => some buf
  | fuel + 1, event :: events, cap, buf =>
    if respCap ≤ buf.length then some buf
    else
      let cap := if cap - buf.length < 1024 then min (cap * 2) respCap else cap
      match event with
      | .interrupted => readAllLoop fuel events cap buf
      | .error => none
      | .data bytes =>
        if bytes = [] then some buf
        else
          let room := cap - buf.length
          readAllLoop fuel (unread room bytes events) cap (buf ++ bytes.take room)

/-- So many calls of `read` are enough. -/
def ReadEvent.weight : ReadEvent → ℕ
  | .data bytes => bytes.length + 1
  | _ => 1

/-- `read_all`. -/
def readAll (events : List ReadEvent) : Option (List Char) :=
  readAllLoop ((events.map ReadEvent.weight).sum + 1) events 4096 []

/-- `sscanf` with `"%d"`. -/
def scanInt (s : CStr) : Option ℤ :=
  if (strtol s).rest = s then none else some (toInt32 (strtol s).value)

/-- `parse_response`: the status, which is read from memory that no NUL ends, and the body. -/
def parseResponse (behind resp : List Char) : ℤ × Option (List Char) :=
  if resp.length < 12 ∨ ¬ "HTTP/1.".toList <+: resp then (0, none)
  else
    match scanInt (cstr ((resp ++ behind).drop 9)) with
    | none => (0, none)
    | some status => (status, (findHeaderEnd resp).map fun i => resp.drop (i + 4))

/-- `http_request`: what has been sent, and what has been read. -/
def httpRequest (wire : Wire) (msg : Message) : List Char × Option (List Char) :=
  if wire.connects = false then ([], none)
  else
    match snprintf (maxLine + 512) (linesText msg.lines ++ crlf) with
    | none => ([], none)
    | some header =>
      match Transfer.writeAll false wire.writes header with
      | (false, sent, _) => (sent, none)
      | (true, sent, writes) =>
        if msg.body = [] then (sent, readAll wire.reads)
        else
          match Transfer.writeAll false writes msg.body with
          | (false, more, _) => (sent ++ more, none)
          | (true, more, _) => (sent ++ more, readAll wire.reads)

inductive Color
  | green
  | red
  | yellow
  deriving DecidableEq, Repr

/-- What the client prints. -/
inductive Shown
  | disconnected
  | unparsed (status : ℤ)
  | response (status : ℤ) (color : Color) (body : CStr)
  | help
  | single (on : Bool)
  | singleUsage
  | unknown (line : CStr)
  deriving DecidableEq, Repr

def statusColor (status : ℤ) : Color :=
  if 200 ≤ status ∧ status < 300 then .green else if 400 ≤ status then .red else .yellow

/-- `print_response`. -/
def printResponse (behind : List Char) : Option (List Char) → Shown
  | none => .disconnected
  | some resp =>
    match parseResponse behind resp with
    | (status, none) => .unparsed status
    | (status, some body) => .response status (statusColor status) (cstr body)

/-! ## The session -/

/-- The request of a command. -/
def Command.message (cfg : ReplCfg) : Command → Option Message
  | .stats => some (clientMessage cfg "/api/stats".toList none none)
  | .explain sql => some (clientMessage cfg "/api/explain".toList
      (some ("sql=".toList ++ urlEscapeMin sql (maxLine * 3))) none)
  | .query sql => some (clientMessage cfg "/api/query".toList
      (if cfg.singleMode then some "mode=single".toList else none) (some sql))
  | _ => none

/-- `cmd_stats`, `cmd_explain`, `cmd_query` and the other commands: what has been sent, what is
printed, and the mode. -/
def Command.perform (cfg : ReplCfg) (wire : Wire) (cmd : Command) : List Char × Shown × ReplCfg :=
  match cmd.message cfg with
  | some msg => ((httpRequest wire msg).1, printResponse wire.behind (httpRequest wire msg).2, cfg)
  | none =>
    match cmd with
    | .single on => ([], .single on, { cfg with singleMode := on })
    | .singleUsage => ([], .singleUsage, cfg)
    | .unknown line => ([], .unknown line, cfg)
    | _ => ([], .help, cfg)

/-! ## Reading lines -/

theorem promptLoop_flatten (line input : List Char) :
    (promptLoop line input).flatten = line ++ input := by
  fun_induction promptLoop line input with
  | case1 => rfl
  | case2 line hline => simp
  | case3 line c input hend ih => simp [ih]
  | case4 line c input hmore ih => simp [ih]

/-- **The pieces that `fgets` reads make up the input.** -/
theorem promptLines_flatten (input : List Char) : (promptLines input).flatten = input :=
  promptLoop_flatten [] input

theorem promptLoop_length {line input piece : List Char} (hline : line.length + 2 ≤ maxLine)
    (h : piece ∈ promptLoop line input) : piece.length < maxLine := by
  fun_induction promptLoop line input with
  | case1 => exact absurd h (by simp)
  | case2 line hne =>
    obtain rfl : piece = line := by simpa using h
    omega
  | case3 line c input hend ih =>
    rcases List.mem_cons.mp h with rfl | h
    · rw [List.length_append, List.length_singleton]
      omega
    · exact ih (by decide) h
  | case4 line c input hmore ih =>
    refine ih ?_ h
    have hroom : ¬ maxLine ≤ line.length + 2 := fun hfull => hmore (.inr hfull)
    rw [List.length_append, List.length_singleton]
    omega

theorem length_trimLine_le (line : List Char) : (trimLine line).length ≤ line.length :=
  (List.rdropWhile_prefix _ _).length_le.trans (List.takeWhile_sublist _).length_le

theorem nulFree_trimLine (line : List Char) : NulFree (trimLine line) :=
  (nulFree_cstr line).sublist (List.rdropWhile_prefix _ _).sublist

/-! ## Reading the response -/

/-- The weight of the reads that are left gets smaller. -/
theorem weight_unread {room : ℕ} (hroom : 0 < room) {bytes : List Char} (hne : bytes ≠ [])
    (events : List ReadEvent) :
    ((unread room bytes events).map ReadEvent.weight).sum <
      ((ReadEvent.data bytes :: events).map ReadEvent.weight).sum := by
  have hpos : 0 < bytes.length := List.length_pos_iff.mpr hne
  rw [unread]
  split
  · simp only [List.map_cons, List.sum_cons, ReadEvent.weight]
    omega
  · simp only [List.map_cons, List.sum_cons, ReadEvent.weight, List.length_drop]
    omega

/-- What is left of a read is still in the stream. -/
theorem cuts_unread {room : ℕ} {bytes rest : List Char} {events : List ReadEvent}
    (hcuts : Cuts rest events) : Cuts (bytes.drop room ++ rest) (unread room bytes events) := by
  rw [unread]
  split
  · rename_i hfit
    rw [List.drop_of_length_le hfit]
    exact hcuts
  · rename_i hlong
    exact ⟨fun hnil => hlong (List.drop_eq_nil_iff.mp hnil), rest, rfl, hcuts⟩

/-- The loop of `read_all` comes to its end with all that is within the limit. -/
theorem readAllLoop_eq {fuel : ℕ} {events : List ReadEvent} {rest buf : List Char} {cap : ℕ}
    (hcuts : Cuts rest events) (hfuel : (events.map ReadEvent.weight).sum < fuel)
    (hcap : 0 < cap ∧ cap ≤ respCap) (hbuf : buf.length ≤ cap) :
    readAllLoop fuel events cap buf = some ((buf ++ rest).take respCap) := by
  induction fuel generalizing events rest buf cap with
  | zero => exact absurd hfuel (Nat.not_lt_zero _)
  | succ fuel ih =>
    cases events with
    | nil =>
      obtain rfl : rest = [] := hcuts
      rw [List.append_nil, List.take_of_length_le (hbuf.trans hcap.2)]
      rfl
    | cons event events =>
      by_cases hfull : respCap ≤ buf.length
      · have hlen : buf.length = respCap := Nat.le_antisymm (hbuf.trans hcap.2) hfull
        rw [readAllLoop, if_pos hfull, ← hlen, List.take_left]
      · rw [readAllLoop, if_neg hfull]
        set cap' := if cap - buf.length < 1024 then min (cap * 2) respCap else cap with hcap'
        have hgrown : buf.length < cap' ∧ cap' ≤ respCap := by
          rw [hcap']
          split <;> omega
        cases event with
        | error => exact absurd hcuts (by simp [Cuts])
        | interrupted =>
          have hless : (events.map ReadEvent.weight).sum < fuel := by
            simp only [List.map_cons, List.sum_cons, ReadEvent.weight] at hfuel
            omega
          exact ih hcuts hless ⟨by omega, hgrown.2⟩ hgrown.1.le
        | data bytes =>
          obtain ⟨hne, rest', rfl, hcuts'⟩ := hcuts
          have hless := weight_unread (Nat.sub_pos_of_lt hgrown.1) hne events
          have hroom : (buf ++ bytes.take (cap' - buf.length)).length ≤ cap' := by
            rw [List.length_append, List.length_take]
            omega
          have hstep := ih (@cuts_unread (cap' - buf.length) bytes rest' events hcuts')
            (Nat.lt_of_lt_of_le hless (Nat.lt_succ_iff.mp hfuel)) ⟨by omega, hgrown.2⟩ hroom
          dsimp only
          rw [if_neg hne, hstep, List.append_assoc, ← List.append_assoc (bytes.take _),
            List.take_append_drop]

/-- **`read_all` returns the stream up to its limit, however it is cut.** -/
theorem readAll_eq {stream : List Char} {events : List ReadEvent} (hcuts : Cuts stream events) :
    readAll events = some (stream.take respCap) :=
  readAllLoop_eq hcuts (Nat.lt_succ_self _) (by decide) (Nat.zero_le _)

/-! ## Taking the response apart -/

/-- A number that is printed is read back by `sscanf`, up to the blank behind it. -/
theorem scanInt_intText {n : ℕ} (h : n < 2 ^ 31) (s : CStr) :
    scanInt (intText n ++ ' ' :: s) = some (n : ℤ) := by
  have hall : ∀ c ∈ Nat.toDigits 10 n, c.isDigit = true := fun c => isDigit_of_mem_toDigits
  have htake : (Nat.toDigits 10 n ++ ' ' :: s).takeWhile Char.isDigit = Nat.toDigits 10 n := by
    rw [List.takeWhile_append_of_pos hall, List.takeWhile_cons_of_neg (by decide), List.append_nil]
  have hdrop : (Nat.toDigits 10 n ++ ' ' :: s).dropWhile Char.isDigit = ' ' :: s := by
    rw [List.dropWhile_append_of_pos hall, List.dropWhile_cons_of_neg (by decide)]
  have hsign : signOf ((Nat.toDigits 10 n ++ ' ' :: s).dropWhile isSpace) =
      (false, Nat.toDigits 10 n ++ ' ' :: s) := by
    cases hdigits : Nat.toDigits 10 n with
    | nil => exact absurd hdigits Nat.toDigits_ne_nil
    | cons c ds =>
      obtain ⟨hspace, hminus, hplus⟩ := digit_spec (hall c (hdigits ▸ List.mem_cons_self ..))
      rw [List.cons_append, List.dropWhile_cons_of_neg (by simp [hspace])]
      unfold signOf
      split
      · rename_i heq
        exact absurd (List.cons.inj heq).1 hminus
      · rename_i heq
        exact absurd (List.cons.inj heq).1 hplus
      · rfl
  have hstrtol : strtol (Nat.toDigits 10 n ++ ' ' :: s) = ⟨n, ' ' :: s, false⟩ := by
    have hmin : ¬ ((n : ℕ) : ℤ) < longMin := by
      rw [longMin]
      omega
    have hmax : ¬ longMax < ((n : ℕ) : ℤ) := by
      rw [longMax]
      omega
    simp only [strtol, hsign, htake, hdrop, digitsValue_toDigits, Bool.false_eq_true, if_false]
    rw [if_neg Nat.toDigits_ne_nil, if_neg hmin, if_neg hmax]
  have hne : ' ' :: s ≠ Nat.toDigits 10 n ++ ' ' :: s := by
    intro heq
    have hlen := congrArg List.length heq
    rw [List.length_append] at hlen
    exact absurd hlen (by have := @Nat.length_toDigits_pos 10 n; omega)
  have hint : toInt32 (n : ℤ) = n := toInt32_of_mem (by rw [intMin]; omega) (by rw [intMax]; omega)
  rw [intText_natCast, scanInt, hstrtol]
  dsimp only
  rw [if_neg hne, hint]

theorem goodLines_responseLines {resp : HttpResponse} (htype : InLine resp.contentType) :
    ∀ line ∈ responseLines resp, GoodLine line := by
  have hdigits : ∀ n : ℕ, InLine (intText n) := by
    intro n
    have hdigit : ∀ c ∈ intText n, c.isDigit = true := by
      rw [intText_natCast]
      exact fun c => isDigit_of_mem_toDigits
    exact ⟨fun h => absurd (hdigit _ h) (by decide), fun h => absurd (hdigit _ h) (by decide),
      fun h => absurd (hdigit _ h) (by decide)⟩
  have hreason : InLine (' ' :: statusReason resp.status) := by
    unfold statusReason
    split <;> decide
  intro line hmem
  simp only [responseLines, List.mem_cons, List.not_mem_nil, or_false] at hmem
  rcases hmem with rfl | rfl | rfl | rfl
  · exact ⟨by simp, (InLine.append (by decide) (hdigits _)).append hreason⟩
  · exact ⟨by simp, InLine.append (by decide) htype⟩
  · exact ⟨by simp, InLine.append (by decide) (hdigits _)⟩
  · exact ⟨by decide, by decide⟩

theorem responseHeader_eq (resp : HttpResponse) :
    ∃ t, responseHeader resp = "HTTP/1.1 ".toList ++ (intText resp.status ++ ' ' :: t) := by
  refine ⟨statusReason resp.status ++ (crlf ++ (linesText (responseLines resp).tail ++ crlf)), ?_⟩
  simp only [responseHeader, responseLines, linesText, List.flatMap_cons, List.tail_cons,
    List.append_assoc, List.cons_append]

/-- The status is read if a byte behind its digits is there, whatever is behind that in memory. -/
theorem parseResponse_status {status : ℕ} (hstatus : status < 2 ^ 31) (behind t : List Char)
    (hlong : 12 ≤ ("HTTP/1.1 ".toList ++ (intText status ++ ' ' :: t)).length) :
    parseResponse behind ("HTTP/1.1 ".toList ++ (intText status ++ ' ' :: t)) = ((status : ℤ),
      (findHeaderEnd ("HTTP/1.1 ".toList ++ (intText status ++ ' ' :: t))).map fun i =>
        ("HTTP/1.1 ".toList ++ (intText status ++ ' ' :: t)).drop (i + 4)) := by
  have hgood : ¬ (("HTTP/1.1 ".toList ++ (intText status ++ ' ' :: t)).length < 12 ∨
      ¬ "HTTP/1.".toList <+: "HTTP/1.1 ".toList ++ (intText status ++ ' ' :: t)) := by
    rintro (hshort | hpre)
    · exact absurd hlong (Nat.not_le.mpr hshort)
    · exact hpre ⟨"1 ".toList ++ (intText status ++ ' ' :: t), by simp⟩
  have hnine : ("HTTP/1.1 ".toList ++ (intText status ++ ' ' :: t) ++ behind).drop 9 =
      intText status ++ ' ' :: (t ++ behind) := by
    have hlit : 9 = "HTTP/1.1 ".toList.length := by decide
    rw [List.append_assoc, hlit, List.drop_left]
    simp
  have hcstr : cstr (intText status ++ ' ' :: (t ++ behind)) =
      intText status ++ ' ' :: cstr (t ++ behind) := by
    have hnul := nulFree_intText status
    have hall : ∀ c ∈ intText status, decide (c ≠ '\x00') = true :=
      fun c hc => decide_eq_true fun heq => hnul (heq ▸ hc)
    rw [cstr, List.takeWhile_append_of_pos hall, List.takeWhile_cons_of_pos (by decide), cstr]
  rw [parseResponse, if_neg hgood, hnine, hcstr, scanInt_intText hstatus]

/-- **The status and the body of a response come back**, also when the body is cut off, whatever is
behind it in memory. -/
theorem parseResponse_responseText {resp : HttpResponse} (hstatus : resp.status < 2 ^ 31)
    (htype : InLine resp.contentType) (behind body : List Char) :
    parseResponse behind (responseHeader resp ++ body) = ((resp.status : ℤ), some body) := by
  obtain ⟨t, ht⟩ := responseHeader_eq resp
  have hend := findHeaderEnd_lines (by simp [responseLines]) (goodLines_responseLines htype) body
  have hlen : 2 ≤ (linesText (responseLines resp)).length := by
    rw [responseLines, linesText_cons]
    simp [crlf]
  have hbody : (responseHeader resp ++ body).drop ((linesText (responseLines resp)).length - 2 + 4) =
      body := by
    have hsame : (linesText (responseLines resp)).length - 2 + 4 = (responseHeader resp).length := by
      rw [responseHeader, List.length_append, crlf, List.length_cons, List.length_singleton]
      omega
    rw [hsame, List.drop_left]
  have hlong : 12 ≤ (responseHeader resp ++ body).length := by
    have hmore : 17 ≤ (linesText (responseLines resp)).length := by
      simp only [linesText, responseLines, List.flatMap_cons, List.length_append,
        List.length_cons, String.length_toList]
      have hlit : "Connection: close".length = 17 := by decide
      omega
    rw [List.length_append, responseHeader, List.length_append]
    omega
  have hline : responseHeader resp ++ body =
      "HTTP/1.1 ".toList ++ (intText resp.status ++ ' ' :: (t ++ body)) := by
    rw [ht]
    simp
  rw [hline, parseResponse_status hstatus _ _ (hline ▸ hlong), ← hline]
  rw [responseHeader, hend, Option.map_some, ← responseHeader, hbody]

/-- A response that breaks off within its header is not taken apart. -/
theorem parseResponse_torn {resp : HttpResponse} (htype : InLine resp.contentType)
    (behind : List Char) {torn : List Char} (htorn : torn <+: responseText resp)
    (hshort : torn.length < (responseHeader resp).length) : (parseResponse behind torn).2 = none := by
  have hnone : findHeaderEnd torn = none := by
    cases hfound : findHeaderEnd torn with
    | none => rfl
    | some i =>
      obtain ⟨rest, hrest⟩ := htorn
      have hwhole := findHeaderEnd_append hfound rest
      have hend := findHeaderEnd_lines (by simp [responseLines]) (goodLines_responseLines htype) resp.body
      have hle := findHeaderEnd_le hfound
      rw [hrest, responseText, responseHeader, hend, Option.some.injEq] at hwhole
      rw [responseHeader, List.length_append] at hshort
      have hcrlf : crlf.length = 2 := rfl
      omega
  unfold parseResponse
  split
  · rfl
  · split
    · rfl
    · rw [hnone]
      rfl

/-- **Whatever the calls of `write` return to the server**, a client that reads until the connection
is closed shows the status and the beginning of the body, without a notice that the rest is missing,
or says that it cannot take the response apart, with the right status or none. Only where what
arrives ends with the digits of the status does `sscanf` read on behind it. -/
theorem torn_response {resp : HttpResponse} (hstatus : resp.status < 2 ^ 31)
    (htype : InLine resp.contentType) (writes : List WriteEvent) {reads : List ReadEvent}
    (hcuts : Cuts (httpWriteResponse writes resp).2 reads) (behind : List Char) {got : List Char}
    (hgot : got = (httpWriteResponse writes resp).2.take respCap) :
    (got.length < 12 ∧ printResponse behind (readAll reads) = .unparsed 0) ∨
      (12 ≤ got.length ∧ got.length ≤ 9 + (intText resp.status).length ∧
        ∃ status, printResponse behind (readAll reads) = .unparsed status) ∨
      (9 + (intText resp.status).length < got.length ∧ got.length < (responseHeader resp).length ∧
        printResponse behind (readAll reads) = .unparsed resp.status) ∨
      ∃ body, got = responseHeader resp ++ body ∧ body <+: resp.body ∧
        printResponse behind (readAll reads) =
          .response resp.status (statusColor resp.status) (cstr body) := by
  have htorn : got <+: responseText resp :=
    hgot ▸ (List.take_prefix _ _).trans (httpWriteResponse_spec writes resp).1
  rw [readAll_eq hcuts, ← hgot]
  unfold printResponse
  dsimp only
  by_cases htiny : got.length < 12
  · refine Or.inl ⟨htiny, ?_⟩
    rw [parseResponse, if_pos (Or.inl htiny)]
  have hlong : 12 ≤ got.length := Nat.not_lt.mp htiny
  by_cases hshort : got.length < (responseHeader resp).length
  · have hnone := parseResponse_torn htype behind htorn hshort
    by_cases hdigits : got.length ≤ 9 + (intText resp.status).length
    · refine Or.inr (Or.inl ⟨hlong, hdigits, (parseResponse behind got).1, ?_⟩)
      rw [← Prod.eta (parseResponse behind got), hnone]
    · have hspace : 9 + (intText resp.status).length < got.length := Nat.not_le.mp hdigits
      obtain ⟨t, ht⟩ := responseHeader_eq resp
      -- what arrived goes on behind the digits
      obtain ⟨t', rfl⟩ : ∃ t', got = "HTTP/1.1 ".toList ++ (intText resp.status ++ ' ' :: t') := by
        have hstart : "HTTP/1.1 ".toList ++ (intText resp.status ++ [' ']) <+: responseText resp :=
          ⟨t ++ resp.body, by rw [responseText, ht]; simp⟩
        have hlit : "HTTP/1.1 ".toList.length = 9 := by decide
        obtain ⟨t', ht'⟩ := List.prefix_of_prefix_length_le hstart htorn (by
          rw [List.length_append, List.length_append, List.length_singleton, hlit]
          omega)
        exact ⟨t', by rw [← ht']; simp⟩
      rw [parseResponse_status hstatus behind t' hlong] at hnone ⊢
      dsimp only at hnone ⊢
      rw [hnone]
      exact Or.inr (Or.inr (Or.inl ⟨hspace, hshort, rfl⟩))
  · have hhead : responseHeader resp <+: got :=
      List.prefix_of_prefix_length_le (List.prefix_append _ _) htorn (Nat.not_lt.mp hshort)
    obtain ⟨body, rfl⟩ := hhead
    have hbody : body <+: resp.body := (List.prefix_append_right_inj _).mp htorn
    rw [parseResponse_responseText hstatus htype]
    exact Or.inr (Or.inr (Or.inr ⟨body, rfl, hbody, rfl⟩))

/-- The server fails within the body. -/
theorem torn_response_body :
    ∃ body, body <+: "[1,2]".toList ∧ printResponse [] (readAll
      [.data (httpWriteResponse [.wrote 90, .wrote 4, .error] (jsonBody 200 "[1,2]".toList)).2]) =
        .response 200 .green (cstr body) := by
  have hcuts : Cuts (httpWriteResponse [.wrote 90, .wrote 4, .error] (jsonBody 200 "[1,2]".toList)).2
      [.data (httpWriteResponse [.wrote 90, .wrote 4, .error] (jsonBody 200 "[1,2]".toList)).2] :=
    ⟨by decide +kernel, [], (List.append_nil _).symm, rfl⟩
  rcases torn_response (by decide) (by decide) _ hcuts [] rfl with
    ⟨hshort, -⟩ | ⟨-, hshort, -⟩ | ⟨-, hshort, -⟩ | ⟨body, -, hbody, hshown⟩
  · exact absurd hshort (by decide +kernel)
  · exact absurd hshort (by decide +kernel)
  · exact absurd hshort (by decide +kernel)
  · exact ⟨body, hbody, hshown⟩

end MiniSql
