import MiniSql.Repl
import MiniSql.RouterJson.Params

/-!
# A session over the wire

A client and a server that talk over connections which lose nothing do together what the client
would do with the engine in its own process: each line that is typed is executed as it is, in the
order of the lines, and the status and the body of its answer are shown. How the bytes are cut up
between the calls of `read` and `write`, and how often these are interrupted, does not matter.

## Main definitions

* `Turn`, `Turn.run` — one line, with the client, the server, and the wire between them.
* `Turn.Carries` — the wire loses nothing.
* `Turn.runLocal` — the same line with the engine at hand.
* `session` — the loop over the lines.

## Main results

* `Turn.run_eq` — one line.
* `session_eq_local` — the session.
-/

namespace MiniSql
open CText Transfer Message

/-! ## Requests of the client -/

/-- A text that can stand in a parameter. -/
def InParam (s : CStr) : Prop := InLine s ∧ ' ' ∉ s ∧ '&' ∉ s

instance (s : CStr) : Decidable (InParam s) := inferInstanceAs (Decidable (_ ∧ _ ∧ _))

theorem InParam.append {s t : CStr} (hs : InParam s) (ht : InParam t) : InParam (s ++ t) := by
  refine ⟨hs.1.append ht.1, ?_, ?_⟩
  · exact fun h => (List.mem_append.mp h).elim hs.2.1 ht.2.1
  · exact fun h => (List.mem_append.mp h).elim hs.2.2 ht.2.2

/-- What is escaped can stand in a parameter. -/
theorem inParam_escapeByte (c : Char) : InParam (escapeByte c) := by
  have hdigit : ∀ n, n < 16 → InParam [hexDigit n] := by
    have hall : ∀ i : Fin 16, InParam [hexDigit (i : ℕ)] := by decide
    exact fun n hn => hall ⟨n, hn⟩
  unfold escapeByte
  split
  · decide
  · rename_i hspace
    split
    · have hpercent : InParam ['%'] := by decide
      exact hpercent.append ((hdigit _ (Nat.mod_lt _ (by decide))).append
        (hdigit _ (Nat.mod_lt _ (by decide))))
    · rename_i hplain
      simp only [not_or] at hplain
      have hne : ∀ d : Char, d.toNat < 0x20 → d ∉ [c] := by
        intro d hd hmem
        obtain rfl : d = c := by simpa using hmem
        exact hplain.1 hd
      refine ⟨⟨hne _ (by decide), hne _ (by decide), hne _ (by decide)⟩, ?_, ?_⟩
      · exact fun hmem => hspace (List.mem_singleton.mp hmem).symm
      · exact fun hmem => hplain.2.2.1 (List.mem_singleton.mp hmem).symm

theorem inParam_urlEscapeLoop {cap : ℕ} {s out : CStr} (hout : InParam out) :
    InParam (urlEscapeLoop cap s out) := by
  induction s generalizing out with
  | nil => exact hout
  | cons c s ih =>
    rw [urlEscapeLoop]
    split
    · exact hout
    · exact ih (hout.append (inParam_escapeByte c))

theorem inParam_urlEscapeMin (text : CStr) (cap : ℕ) : InParam (urlEscapeMin text cap) :=
  inParam_urlEscapeLoop (by decide)

/-- The client may use these: they name a host that `getaddrinfo` finds, in an array of 128 bytes. -/
structure ReplCfg.Good (cfg : ReplCfg) : Prop where
  host : InLine cfg.host
  trimHost : ∀ c, cfg.host.head? = some c → isSpace c = false
  length : cfg.host.length < 128
  port : cfg.port < 2 ^ 16

/-- The array of the header has room for the request. -/
def Message.Fits (msg : Message) : Prop := (linesText msg.lines ++ crlf).length < maxLine + 512

instance (msg : Message) : Decidable msg.Fits := inferInstanceAs (Decidable (_ < _))

theorem inLine_intText (n : ℕ) : InLine (intText n) := by
  have hdigit : ∀ c ∈ intText n, c.isDigit = true := by
    rw [intText_natCast]
    exact fun c => isDigit_of_mem_toDigits
  exact ⟨fun h => absurd (hdigit _ h) (by decide), fun h => absurd (hdigit _ h) (by decide),
    fun h => absurd (hdigit _ h) (by decide)⟩

/-- A text that ends with a number does not end with a blank. -/
theorem getLast?_intText (s : CStr) (n : ℕ) :
    ∀ c, (s ++ intText n).getLast? = some c → isSpace c = false := by
  intro c hc
  rw [List.getLast?_append, Option.or_eq_some_iff] at hc
  rcases hc with hc | ⟨hnone, -⟩
  · have hdigit : c ∈ intText n := List.mem_of_getLast? hc
    rw [intText_natCast] at hdigit
    exact (digit_spec (isDigit_of_mem_toDigits hdigit)).1
  · exact absurd (List.getLast?_eq_none_iff.mp hnone) (intText_ne_nil n)

/-- A request that the client can send is well formed. -/
theorem clientMessage_wellFormed {cfg : ReplCfg} (hcfg : cfg.Good) {path : CStr}
    {query body : Option CStr} (hpath : InLine path ∧ ' ' ∉ path ∧ '?' ∉ path)
    (hslash : path.head? = some '/') (hquery : ∀ text ∈ query, InLine text ∧ ' ' ∉ text)
    (hbody : (body.getD []).length ≤ httpMaxBodyBytes)
    (hfits : (clientMessage cfg path query body).Fits) :
    (clientMessage cfg path query body).WellFormed where
  path := hpath
  slash := hslash
  query := hquery
  fields := by
    have hport : InLine (':' :: intText cfg.port) :=
      InLine.append (s := [':']) (by decide) (inLine_intText _)
    have hhost : GoodField ("Host".toList, cfg.host ++ ':' :: intText cfg.port) := by
      have hname : InLine "Host".toList ∧ ':' ∉ "Host".toList ∧ Trimmed "Host".toList := by decide
      refine ⟨hname.1, hcfg.host.append hport, hname.2.1, hname.2.2, ?_, ?_⟩
      · intro c hc
        cases hname : cfg.host with
        | nil =>
          rw [hname] at hc
          obtain rfl : ':' = c := by simpa using hc
          rfl
        | cons d ds =>
          rw [hname] at hc
          exact hcfg.trimHost c (by rw [hname]; exact hc)
      · have hsplit : cfg.host ++ ':' :: intText cfg.port =
            cfg.host ++ [':'] ++ intText cfg.port := by simp
        dsimp only
        rw [hsplit]
        exact getLast?_intText _ _
    have hlength : GoodField ("Content-Length".toList, intText (body.getD []).length) := by
      have hname : InLine "Content-Length".toList ∧ ':' ∉ "Content-Length".toList ∧
          Trimmed "Content-Length".toList := by decide
      refine ⟨hname.1, inLine_intText _, hname.2.1, hname.2.2, ?_, getLast?_intText [] _⟩
      intro c hc
      have hdigit : c ∈ intText (body.getD []).length := List.mem_of_head? hc
      rw [intText_natCast] at hdigit
      exact (digit_spec (isDigit_of_mem_toDigits hdigit)).1
    intro field hmem
    simp only [clientMessage, List.mem_cons, List.not_mem_nil, or_false] at hmem
    rcases hmem with rfl | rfl | rfl | rfl
    · exact hhost
    · decide
    · exact hlength
    · decide
  length := by
    intro field hmem hname
    simp only [clientMessage, List.mem_cons, List.not_mem_nil, or_false] at hmem
    rcases hmem with rfl | rfl | rfl | rfl
    · have hlen : "Host".toList.length = "Content-Length".toList.length :=
        length_eq_of_equalsIgnoreCase hname
      exact absurd hlen (by decide)
    · exact absurd (length_eq_of_equalsIgnoreCase hname) (by decide)
    · rfl
    · exact absurd (length_eq_of_equalsIgnoreCase hname) (by decide)
  announced := .inr ⟨("Content-Length".toList, intText (body.getD []).length),
    by simp [clientMessage], equalsIgnoreCase_refl _⟩
  header := Nat.le_of_lt (Nat.lt_of_lt_of_le hfits (by decide))
  body := hbody

/-- A request that fits is sent whole, if nothing holds it up. -/
theorem httpRequest_of_fits {wire : Wire} {msg : Message} (hconnects : wire.connects = true)
    (hfits : msg.Fits) (hflows : Flows msg.text.length wire.writes) :
    httpRequest wire msg = (msg.text, readAll wire.reads) := by
  rw [text, List.length_append] at hflows
  obtain ⟨writes, hwrite, hflows'⟩ := @writeAll_flows _ false _ _ _ hflows
  obtain ⟨writes', hwrite', -⟩ := @writeAll_flows _ false writes msg.body 0 (by simpa using hflows')
  have hprint : snprintf (maxLine + 512) (linesText msg.lines ++ crlf) =
      some (linesText msg.lines ++ crlf) := if_pos hfits
  rw [httpRequest, hconnects, if_neg (by decide), hprint]
  dsimp only
  rw [hwrite]
  dsimp only
  rw [hwrite']
  split
  · rename_i hnil
    rw [text, hnil, List.append_nil]
  · rfl

/-- A request that does not fit is not sent. -/
theorem httpRequest_of_not_fits {wire : Wire} {msg : Message} (hfits : ¬ msg.Fits) :
    httpRequest wire msg = ([], none) := by
  have hprint : snprintf (maxLine + 512) (linesText msg.lines ++ crlf) = none := if_neg hfits
  rw [httpRequest, hprint]
  exact ite_self _

/-- A command as it comes from a line. -/
def Command.Typed : Command → Prop
  | .query sql => NulFree sql ∧ sql ≠ [] ∧ sql.length < maxLine
  | _ => True

theorem typed_handleBuiltin {line : CStr} (hnul : NulFree line) (hne : line ≠ [])
    (hlen : line.length < maxLine) : (handleBuiltin line).Typed := by
  unfold handleBuiltin
  split_ifs
  · exact ⟨hnul, hne, hlen⟩
  all_goals trivial

/-- The request of a command, if it fits, is well formed. -/
theorem Command.wellFormed {cfg : ReplCfg} (hcfg : cfg.Good) {cmd : Command} (htyped : cmd.Typed)
    {msg : Message} (hmsg : cmd.message cfg = some msg) (hfits : msg.Fits) : msg.WellFormed := by
  cases cmd with
  | stats =>
    obtain rfl := Option.some.inj hmsg
    exact clientMessage_wellFormed hcfg (by decide) rfl (by simp) (by simp) hfits
  | explain sql =>
    obtain rfl := Option.some.inj hmsg
    refine clientMessage_wellFormed hcfg (by decide) rfl ?_ (by simp) hfits
    intro query hquery
    obtain rfl := Option.some.inj hquery
    have hparam : InParam ("sql=".toList ++ urlEscapeMin sql (maxLine * 3)) :=
      InParam.append (by decide) (inParam_urlEscapeMin sql _)
    exact ⟨hparam.1, hparam.2.1⟩
  | query sql =>
    obtain rfl := Option.some.inj hmsg
    have hlen : sql.length ≤ httpMaxBodyBytes := (htyped.2.2.trans (by decide)).le
    refine clientMessage_wellFormed hcfg (by decide) rfl ?_ hlen hfits
    intro query hquery
    split at hquery
    · obtain rfl := Option.some.inj hquery
      decide
    · exact absurd hquery (by simp)
  | _ => exact absurd hmsg (by simp [Command.message])

/-! ## One line over the wire -/

/-- What the environment does while a line is worked on: on the side of the client, on that of the
server, and within it. -/
structure Turn where
  moment : Moment
  wire : Wire
  serverReads : List ReadEvent
  serverWrites : List WriteEvent

namespace Turn

variable [CDouble]

/-- What the server makes of the bytes that reach it. -/
def answer (t : Turn) (s : RouterState) : HttpResponse × RouterState :=
  handleClient t.moment s t.serverReads

/-- The command of a line, with the configuration and the server before and after it. A client that
sends nothing leaves the server alone. -/
def run (t : Turn) (cmd : Command) (st : ReplCfg × RouterState) : Shown × ReplCfg × RouterState :=
  let (sent, shown, cfg) := cmd.perform st.1 t.wire
  (shown, cfg, if sent = [] then st.2 else (t.answer st.2).2)

/-- The connection loses nothing: what the client sends reaches the server, what the server sends
reaches the client, none of their calls of `write` holds them up, and the answer is in memory. -/
structure Delivers (t : Turn) (s : RouterState) (msg : Message) : Prop where
  connects : t.wire.connects = true
  sends : Flows msg.text.length t.wire.writes
  request : Cuts (httpRequest t.wire msg).1 t.serverReads
  answers : Flows (responseText (t.answer s).1).length t.serverWrites
  response : Cuts (httpWriteResponse t.serverWrites (t.answer s).1).2 t.wire.reads
  size : (t.answer s).1.body.length < 2 ^ 64

/-- Every request of the command that the client can send is delivered. -/
def Carries (t : Turn) (cmd : Command) (st : ReplCfg × RouterState) : Prop :=
  ∀ msg ∈ cmd.message st.1, msg.Fits → t.Delivers st.2 msg

/-! ## One line with the engine at hand -/

omit [CDouble] in
/-- What is shown of a response, which is read up to the limit. -/
def shownOf (resp : HttpResponse) : Shown :=
  .response resp.status (statusColor resp.status)
    (cstr (resp.body.take (respCap - (responseHeader resp).length)))

omit [CDouble] in
/-- The statement that `/api/explain` finds in the request for `\\e`, whose query is cut off. -/
def explained (sql : CStr) : CStr :=
  (@urlDecode ((urlEscapeMin sql (maxLine * 3)).take 507) 1024 ⟨Nat.succ_ne_zero 1023⟩).1

/-- The answer of the router to a command. -/
def respond (t : Turn) (cmd : Command) (s : RouterState) : HttpResponse × RouterState :=
  match cmd with
  | .stats => (s.handleStatsRequest t.moment ⟨"GET".toList, "/api/stats".toList, [], 0, none⟩, s)
  | .explain sql =>
    (if explained sql = [] then jsonError 400 "missing_sql".toList
      else takeEngineResult (engineExplain t.moment.mem s.engine (explained sql)), s)
  | .query sql => (takeEngineResult (s.engineExec t.moment sql).1, (s.engineExec t.moment sql).2)
  | _ => (jsonError 400 "bad_request".toList, s)

/-- The same line without a connection: a request that fits is answered on the spot. -/
def runLocal (t : Turn) (cmd : Command) (st : ReplCfg × RouterState) : Shown × ReplCfg × RouterState :=
  match cmd.message st.1 with
  | some msg =>
    if msg.Fits then (shownOf (t.respond cmd st.2).1, st.1, (t.respond cmd st.2).2)
    else (.disconnected, st)
  | none =>
    match cmd with
    | .single on => (.single on, { st.1 with singleMode := on }, st.2)
    | .singleUsage => (.singleUsage, st)
    | .unknown line => (.unknown line, st)
    | _ => (.help, st)

/-! ## The wire does not matter -/

omit [CDouble] in
/-- The query of `\\e` has one parameter. -/
theorem queryParam_explained (sql : CStr) :
    queryParam (("sql=".toList ++ urlEscapeMin sql (maxLine * 3)).take 511) "sql".toList 1024 =
      some (urlDecode ((urlEscapeMin sql (maxLine * 3)).take 507) 1024) := by
  have htake : ("sql=".toList ++ urlEscapeMin sql (maxLine * 3)).take 511 =
      "sql=".toList ++ (urlEscapeMin sql (maxLine * 3)).take 507 := List.take_append ..
  have hamp : '&' ∉ "sql=".toList ++ (urlEscapeMin sql (maxLine * 3)).take 507 := by
    intro hmem
    rcases List.mem_append.mp hmem with hmem | hmem
    · exact absurd hmem (by decide)
    · exact (inParam_urlEscapeMin sql _).2.2 (List.mem_of_mem_take hmem)
  have hsplit : ("sql=".toList ++ (urlEscapeMin sql (maxLine * 3)).take 507).splitOn '&' =
      ["sql=".toList ++ (urlEscapeMin sql (maxLine * 3)).take 507] := by
    rw [List.splitOn, List.splitOnP_eq_singleton]
    exact fun c hc => beq_false_of_ne fun heq => hamp (heq ▸ hc)
  have hshort : ((urlEscapeMin sql (maxLine * 3)).take 507).take 1023 =
      (urlEscapeMin sql (maxLine * 3)).take 507 := by
    rw [List.take_take]
    rfl
  have hprefix : ("sql".toList ++ ['=']).isPrefixOf
      ("sql=".toList ++ (urlEscapeMin sql (maxLine * 3)).take 507) = true :=
    List.isPrefixOf_iff_prefix.mpr (List.prefix_append _ _)
  have hdrop : ("sql=".toList ++ (urlEscapeMin sql (maxLine * 3)).take 507).drop
      ("sql".toList.length + 1) = (urlEscapeMin sql (maxLine * 3)).take 507 := rfl
  rw [htake, queryParam, hsplit, List.find?_cons_of_pos hprefix, Option.map_some, hdrop, hshort]

/-- **The server answers the request of a command.** -/
theorem routerDispatch_command (t : Turn) {cfg : ReplCfg} {cmd : Command} (htyped : cmd.Typed)
    {msg : Message} (hmsg : cmd.message cfg = some msg) (s : RouterState) :
    s.routerDispatch t.moment (some msg.request.toHttpRequest) = t.respond cmd s := by
  cases cmd with
  | stats =>
    obtain rfl := Option.some.inj hmsg
    rfl
  | explain sql =>
    obtain rfl := Option.some.inj hmsg
    have hrouted : s.routerDispatch t.moment (some (clientMessage cfg "/api/explain".toList
        (some ("sql=".toList ++ urlEscapeMin sql (maxLine * 3))) none).request.toHttpRequest) =
        (s.handleExplainRequest t.moment ⟨"GET".toList, "/api/explain".toList,
          ("sql=".toList ++ urlEscapeMin sql (maxLine * 3)).take 511, 0, none⟩, s) := rfl
    rw [hrouted, RouterState.handleExplainRequest, if_neg (not_not_intro rfl)]
    dsimp only
    rw [queryParam_explained]
    rfl
  | query sql =>
    obtain rfl := Option.some.inj hmsg
    obtain ⟨hnul, hne, -⟩ := htyped
    have hbody : (clientMessage cfg "/api/query".toList
        (if cfg.singleMode then some "mode=single".toList else none)
        (some sql)).request.toHttpRequest = ⟨"POST".toList, "/api/query".toList,
          ((if cfg.singleMode then some "mode=single".toList else none : Option CStr).getD []).take 511,
          sql.length, some sql⟩ := by
      rw [ParsedRequest.toHttpRequest, Message.request, clientMessage]
      dsimp only [Option.getD_some]
      rw [if_neg hne, Option.map_some, cstr_of_nulFree hnul]
      rfl
    obtain ⟨n, hn⟩ : ∃ n, sql.length = n + 1 :=
      ⟨_, (Nat.sub_add_cancel (List.length_pos_iff.mpr hne)).symm⟩
    rw [hbody, hn]
    rfl
  | _ => exact absurd hmsg (by simp [Command.message])

/-- The answers to a command are JSON. -/
theorem respond_spec (t : Turn) (cmd : Command) (s : RouterState) :
    (t.respond cmd s).1.status < 2 ^ 31 ∧ (t.respond cmd s).1.contentType = jsonType := by
  have htake : ∀ result : EngineResult,
      (takeEngineResult result).status < 2 ^ 31 ∧ (takeEngineResult result).contentType = jsonType := by
    intro result
    refine ⟨?_, rfl⟩
    unfold takeEngineResult jsonBody
    dsimp only
    split <;> decide
  have hbad : 400 < 2 ^ 31 := by decide
  cases cmd with
  | stats => exact ⟨show 200 < 2 ^ 31 by decide, rfl⟩
  | explain sql =>
    unfold respond
    dsimp only
    split
    · exact ⟨hbad, rfl⟩
    · exact htake _
  | query sql => exact htake _
  | _ => exact ⟨hbad, rfl⟩

omit [CDouble] in
/-- What comes back of a response is shown. -/
theorem printResponse_responseText {resp : HttpResponse} (hstatus : resp.status < 2 ^ 31)
    (htype : resp.contentType = jsonType) (hsize : resp.body.length < 2 ^ 64) (behind : List Char) :
    printResponse behind (some ((responseText resp).take respCap)) = shownOf resp := by
  have hheader : (responseHeader resp).length < 512 :=
    responseHeader_lt (hstatus.trans (by decide)) (by rw [htype]; decide) hsize
  have hcap : (responseHeader resp).length ≤ respCap := hheader.le.trans (by decide)
  have htake : (responseText resp).take respCap =
      responseHeader resp ++ resp.body.take (respCap - (responseHeader resp).length) := by
    rw [responseText, List.take_append, List.take_of_length_le hcap]
  have hline : InLine resp.contentType := by
    rw [htype]
    decide
  rw [htake, printResponse, parseResponse_responseText hstatus hline]
  rfl

/-- **A line over a wire that loses nothing is the same line without it.** -/
theorem run_eq {t : Turn} {cmd : Command} {st : ReplCfg × RouterState} (hcfg : st.1.Good)
    (htyped : cmd.Typed) (hcarries : t.Carries cmd st) : t.run cmd st = t.runLocal cmd st := by
  unfold run runLocal Command.perform
  cases hmsg : cmd.message st.1 with
  | none => cases cmd <;> rfl
  | some msg =>
    dsimp only
    by_cases hfits : msg.Fits
    · obtain ⟨hconnects, hsends, hrequest, hanswers, hresponse, hsize⟩ := hcarries msg hmsg hfits
      have hsent := httpRequest_of_fits hconnects hfits hsends
      have hne : msg.text ≠ [] := by
        intro hnil
        simp [text, crlf] at hnil
      have hgood := Command.wellFormed hcfg htyped hmsg hfits
      rw [hsent, ← List.append_nil msg.text] at hrequest
      have hparse := hgood.httpParseRequest_eq hrequest
      have hanswer : t.answer st.2 = t.respond cmd st.2 := by
        rw [answer, handleClient, hparse]
        exact routerDispatch_command t htyped hmsg st.2
      obtain ⟨hstatus, htype⟩ := t.respond_spec cmd st.2
      rw [hanswer] at hanswers hresponse hsize
      have hheader : (responseHeader (t.respond cmd st.2).1).length < 512 :=
        responseHeader_lt (hstatus.trans (by decide)) (by rw [htype]; decide) hsize
      rw [httpWriteResponse_flows hheader hanswers] at hresponse
      rw [hsent, if_neg hne, if_pos hfits, hanswer, readAll_eq hresponse,
        printResponse_responseText hstatus htype hsize]
    · rw [httpRequest_of_not_fits hfits, if_pos rfl, if_neg hfits]
      rfl

theorem runLocal_good {t : Turn} {cmd : Command} {st : ReplCfg × RouterState} (hcfg : st.1.Good) :
    (t.runLocal cmd st).2.1.Good := by
  unfold runLocal
  split
  · split <;> exact hcfg
  · split
    · exact ⟨hcfg.host, hcfg.trimHost, hcfg.length, hcfg.port⟩
    all_goals exact hcfg

end Turn

/-! ## The session -/

section Session

variable {S : Type*}

/-- The loop of `main` over the lines, with what a command does in each turn: what is shown, and the
state at the end of the input or at `\\q`. -/
def session (step : Turn → Command → S → Shown × S) : List (Turn × List Char) → S → List Shown × S
  | [], st => ([], st)
  | (t, line) :: turns, st =>
    if trimLine line = [] then session step turns st
    else if handleBuiltin (trimLine line) = .quit then ([], st)
    else
      let (shown, st) := step t (handleBuiltin (trimLine line)) st
      let (more, st) := session step turns st
      (shown :: more, st)

/-- What holds of every command that is carried out, in the state it finds. -/
def Throughout (step : Turn → Command → S → Shown × S) (ok : Turn → Command → S → Prop) :
    List (Turn × List Char) → S → Prop
  | [], _ => True
  | (t, line) :: turns, st =>
    if trimLine line = [] then Throughout step ok turns st
    else if handleBuiltin (trimLine line) = .quit then True
    else ok t (handleBuiltin (trimLine line)) st ∧
      Throughout step ok turns (step t (handleBuiltin (trimLine line)) st).2

/-- A line that is carried out. -/
theorem throughout_cons {step : Turn → Command → S → Shown × S} {ok : Turn → Command → S → Prop}
    {t : Turn} {line : List Char} {turns : List (Turn × List Char)} {st : S} {cmd : Command}
    (hne : trimLine line ≠ []) (hcmd : handleBuiltin (trimLine line) = cmd) (hmore : cmd ≠ .quit) :
    Throughout step ok ((t, line) :: turns) st ↔
      ok t cmd st ∧ Throughout step ok turns (step t cmd st).2 := by
  rw [Throughout, if_neg hne, hcmd, if_neg hmore]

/-- Two steps that agree wherever the first one comes make the same session. -/
theorem session_congr {step step' : Turn → Command → S → Shown × S}
    {ok : Turn → Command → S → Prop} {inv : S → Prop}
    (hstep : ∀ t cmd st, inv st → cmd.Typed → ok t cmd st →
      step t cmd st = step' t cmd st ∧ inv (step t cmd st).2)
    {turns : List (Turn × List Char)} (hlines : ∀ turn ∈ turns, turn.2.length < maxLine) {st : S}
    (hinv : inv st) (hok : Throughout step ok turns st) :
    session step turns st = session step' turns st := by
  induction turns generalizing st with
  | nil => rfl
  | cons turn turns ih =>
    obtain ⟨t, line⟩ := turn
    have hrest : ∀ turn ∈ turns, turn.2.length < maxLine :=
      fun turn hmem => hlines turn (List.mem_cons_of_mem _ hmem)
    rw [Throughout] at hok
    rw [session, session]
    split at hok
    · rename_i hnil
      rw [if_pos hnil, if_pos hnil]
      exact ih hrest hinv hok
    · rename_i hne
      rw [if_neg hne, if_neg hne]
      split at hok
      · rename_i hquit
        rw [if_pos hquit, if_pos hquit]
      · rename_i hmore
        have hlen : (trimLine line).length < maxLine :=
          (length_trimLine_le line).trans_lt (hlines (t, line) (List.mem_cons_self ..))
        have htyped := typed_handleBuiltin (nulFree_trimLine line) hne hlen
        obtain ⟨hsame, hnext⟩ := hstep t _ st hinv htyped hok.1
        have hagree := ih hrest hnext hok.2
        rw [if_neg hmore, if_neg hmore]
        dsimp only
        rw [hagree, hsame]

end Session

/-- The lines that `fgets` reads fit into its array. -/
theorem length_lt_of_promptLines {input : List Char} {turns : List (Turn × List Char)}
    (hinput : turns.map Prod.snd = promptLines input) : ∀ turn ∈ turns, turn.2.length < maxLine := by
  intro turn hmem
  have hpiece : turn.2 ∈ promptLines input := hinput ▸ List.mem_map_of_mem hmem
  exact promptLoop_length (by decide) hpiece

/-- **A session over a wire that loses nothing shows what it would show without the wire**, and
leaves the server as it would leave the engine at hand. -/
theorem session_eq_local [CDouble] {cfg : ReplCfg} (hcfg : cfg.Good) (s : RouterState)
    {input : List Char} {turns : List (Turn × List Char)}
    (hinput : turns.map Prod.snd = promptLines input)
    (hcarries : Throughout Turn.run Turn.Carries turns (cfg, s)) :
    session Turn.run turns (cfg, s) = session Turn.runLocal turns (cfg, s) := by
  refine @session_congr _ Turn.run Turn.runLocal Turn.Carries (fun st => st.1.Good) ?_ turns
    (length_lt_of_promptLines hinput) (cfg, s) hcfg hcarries
  intro t cmd st hgood htyped hok
  have heq := Turn.run_eq hgood htyped hok
  exact ⟨heq, heq ▸ Turn.runLocal_good hgood⟩

end MiniSql
