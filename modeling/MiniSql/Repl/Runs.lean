import MiniSql.Repl.Session
import MiniSql.RouterJson.Dispatch
import MiniSql.Database.Runs

/-!
# What is typed is what is stored

After a session the engine of the server is what the statements that were typed make of it, each of
them a call of `engine_exec_sql`, in the order of the lines. So the files hold the tables that come
out of these statements.

## Main definitions

* `typedQueries` — the statements among the lines.
* `Turn.straight` — a turn without any interruption.

## Main results

* `session_engine` — the engine at the end of a session.
* `session_of_run` — the same over the wire, and what is shown.
* `session_database` — the tables at its end.
-/

namespace MiniSql
open CText Transfer Message

variable [CDouble]

/-! ## The statements -/

omit [CDouble] in
/-- The statements that are typed before the input ends or `\\q` is typed. -/
def typedQueries : List (Turn × List Char) → List ((ℕ → Uninit) × CStr)
  | [] => []
  | (t, line) :: turns =>
    if trimLine line = [] then typedQueries turns
    else match handleBuiltin (trimLine line) with
      | .quit => []
      | .query sql => (t.moment.mem, sql) :: typedQueries turns
      | _ => typedQueries turns

omit [CDouble] in
theorem length_linesText (lines : List CStr) :
    (linesText lines).length = (lines.map fun line => line.length + 2).sum := by
  induction lines with
  | nil => rfl
  | cons line lines ih =>
    rw [linesText_cons, List.length_append, List.length_append, ih, List.map_cons, List.sum_cons]
    rfl

omit [CDouble] in
theorem length_fieldLine (field : CStr × CStr) :
    (fieldLine field).length = field.1.length + (field.2.length + 2) := by
  rw [fieldLine, List.length_append, List.length_cons, List.length_cons]

omit [CDouble] in
/-- There is always room for the header of a statement. -/
theorem fits_query {cfg : ReplCfg} (hcfg : cfg.Good) {sql : CStr} (hlen : sql.length < maxLine)
    {msg : Message} (hmsg : (Command.query sql).message cfg = some msg) : msg.Fits := by
  have hport := length_intText_le (hcfg.port.trans (by decide))
  have hbody := length_intText_le (hlen.trans (by decide))
  have hhost := hcfg.length
  have hline : msg.requestLine = "POST /api/query HTTP/1.1".toList ∨
      msg.requestLine = "POST /api/query?mode=single HTTP/1.1".toList := by
    obtain rfl := Option.some.inj hmsg
    cases hmode : cfg.singleMode
    · exact .inl rfl
    · exact .inr rfl
  have hshort : msg.requestLine.length ≤ 60 := by
    rcases hline with h | h <;> rw [h] <;> decide
  have hfields : msg.fields = [("Host".toList, cfg.host ++ ':' :: intText cfg.port),
      ("Content-Type".toList, "text/plain".toList),
      ("Content-Length".toList, intText sql.length), ("Connection".toList, "close".toList)] := by
    obtain rfl := Option.some.inj hmsg
    rfl
  unfold Message.Fits
  rw [List.length_append, length_linesText, lines, hfields]
  simp only [List.map_cons, List.map_nil, List.sum_cons, List.sum_nil, length_fieldLine,
    List.length_append, List.length_cons, String.length_toList]
  have hlits : "Host".length = 4 ∧ "Content-Type".length = 12 ∧ "text/plain".length = 10 ∧
      "Content-Length".length = 14 ∧ "Connection".length = 10 ∧ "close".length = 5 ∧
      crlf.length = 2 ∧ maxLine = 4096 := by decide
  omega

/-- A statement is a call of `engine_exec_sql`. -/
theorem Turn.runLocal_query (t : Turn) {st : ReplCfg × RouterState} (hcfg : st.1.Good) {sql : CStr}
    (hlen : sql.length < maxLine) :
    (t.runLocal (.query sql) st).2 = (st.1, (st.2.engineExec t.moment sql).2) := by
  obtain ⟨msg, hmsg⟩ : ∃ msg, (Command.query sql).message st.1 = some msg := ⟨_, rfl⟩
  unfold Turn.runLocal
  rw [hmsg]
  dsimp only
  rw [if_pos (fits_query hcfg hlen hmsg)]
  rfl

/-- The other commands leave the engine alone. -/
theorem Turn.runLocal_engine (t : Turn) {cmd : Command} (hcmd : ∀ sql, cmd ≠ .query sql)
    (st : ReplCfg × RouterState) : (t.runLocal cmd st).2.2.engine = st.2.engine := by
  unfold Turn.runLocal
  cases cmd with
  | query sql => exact absurd rfl (hcmd sql)
  | stats =>
    dsimp only [Command.message]
    split <;> rfl
  | explain sql =>
    dsimp only [Command.message]
    split <;> rfl
  | _ => rfl

/-- **At the end of a session the engine has executed the statements that were typed**, if nothing
happens on the wire. -/
theorem session_engine {turns : List (Turn × List Char)} {st : ReplCfg × RouterState}
    (hcfg : st.1.Good) (hlines : ∀ turn ∈ turns, turn.2.length < maxLine) :
    (session Turn.runLocal turns st).2.2.engine =
      (callMachine.run st.2.engine (typedQueries turns)).2 := by
  induction turns generalizing st with
  | nil => rfl
  | cons turn turns ih =>
    obtain ⟨t, line⟩ := turn
    have hrest : ∀ turn ∈ turns, turn.2.length < maxLine :=
      fun turn hmem => hlines turn (List.mem_cons_of_mem _ hmem)
    rw [session, typedQueries]
    by_cases hnil : trimLine line = []
    · rw [if_pos hnil, if_pos hnil]
      exact ih hcfg hrest
    rw [if_neg hnil, if_neg hnil]
    have hnext := @ih (t.runLocal (handleBuiltin (trimLine line)) st).2 (Turn.runLocal_good hcfg) hrest
    have hlen : (trimLine line).length < maxLine :=
      (length_trimLine_le line).trans_lt (hlines (t, line) (List.mem_cons_self ..))
    have htyped := typed_handleBuiltin (nulFree_trimLine line) hnil hlen
    cases hcmd : handleBuiltin (trimLine line) with
    | quit =>
      rw [if_pos rfl]
      rfl
    | query sql =>
      rw [hcmd] at hnext htyped
      rw [Turn.runLocal_query t hcfg htyped.2.2] at hnext
      rw [if_neg (by simp)]
      dsimp only
      rw [Turn.runLocal_query t hcfg htyped.2.2, hnext, Machine.run_cons]
      rfl
    | _ =>
      rw [hcmd] at hnext
      rw [if_neg (by simp)]
      dsimp only
      rw [hnext, Turn.runLocal_engine t (by simp)]

/-! ## Sessions over the wire -/

section Sessions

variable {cfg : ReplCfg} {input : List Char} {turns : List (Turn × List Char)}

/-- A turn without any interruption, with this request and this response. -/
def Turn.straight (m : Moment) (request response : List Char) : Turn where
  moment := m
  wire := ⟨true, List.replicate request.length (.wrote 1), [.data response], []⟩
  serverReads := [.data request]
  serverWrites := List.replicate response.length (.wrote 1)

omit [CDouble] in
theorem flows_replicate (n : ℕ) : Flows n (List.replicate n (.wrote 1)) where
  moves event hmem := by
    obtain rfl := List.eq_of_mem_replicate hmem
    exact Nat.one_pos
  takes := by simp [List.countP_replicate, Transfer.takes]

/-- The turn with the response that the server has for the request. -/
def Turn.for (m : Moment) (s : RouterState) (msg : Message) : Turn :=
  .straight m msg.text (responseText (handleClient m s [.data msg.text]).1)

/-- Such a turn delivers. -/
theorem Turn.delivers_for (m : Moment) (s : RouterState) {msg : Message} (hfits : msg.Fits)
    (hheader : (responseHeader (handleClient m s [.data msg.text]).1).length < 512)
    (hsize : (handleClient m s [.data msg.text]).1.body.length < 2 ^ 64) :
    (Turn.for m s msg).Delivers s msg := by
  have hcuts : ∀ bytes : List Char, bytes ≠ [] → Cuts bytes [.data bytes] :=
    fun bytes hne => ⟨hne, [], (List.append_nil bytes).symm, rfl⟩
  have hsent : httpRequest (Turn.for m s msg).wire msg =
      (msg.text, readAll (Turn.for m s msg).wire.reads) :=
    httpRequest_of_fits rfl hfits (flows_replicate _)
  have hwritten := httpWriteResponse_flows hheader (flows_replicate _)
  refine ⟨rfl, flows_replicate _, ?_, flows_replicate _, ?_, hsize⟩
  · rw [hsent]
    exact hcuts _ (by simp [text, crlf])
  · have hresponse : (httpWriteResponse (Turn.for m s msg).serverWrites
        ((Turn.for m s msg).answer s).1).2 =
          responseText (handleClient m s [.data msg.text]).1 := congrArg Prod.snd hwritten
    rw [hresponse]
    exact hcuts _ (by simp [responseText, responseHeader, crlf])

/-- The client as it starts, and a server that has started without files. -/
def localCfg : ReplCfg := ⟨"localhost".toList, 8080, false⟩

def freshServer : RouterState := .boot (fun _ => none) []

omit [CDouble] in
theorem good_localCfg : localCfg.Good where
  host := by decide
  trimHost := by
    intro c hc
    have hhead : localCfg.host.head? = some 'l' := rfl
    obtain rfl := Option.some.inj (hhead.symm.trans hc)
    rfl
  length := by decide
  port := by decide

/-- **A session over a wire that loses nothing shows what it shows without the wire**, however the
bytes are cut up, and leaves the engine with the statements that were typed, executed in order. -/
theorem session_of_run (hcfg : cfg.Good) (s : RouterState)
    (hinput : turns.map Prod.snd = promptLines input)
    (hcarries : Throughout Turn.run Turn.Carries turns (cfg, s)) :
    session Turn.run turns (cfg, s) = session Turn.runLocal turns (cfg, s) ∧
      (session Turn.run turns (cfg, s)).2.2.engine =
        (callMachine.run s.engine (typedQueries turns)).2 := by
  have heq := session_eq_local hcfg s hinput hcarries
  refine ⟨heq, ?_⟩
  rw [heq]
  exact session_engine hcfg (length_lt_of_promptLines hinput)

omit [CDouble] in
/-- The request of the second of two lines. -/
def dogMessage : Message := clientMessage localCfg "/api/query".toList (some "mode=single".toList)
  (some "INSERT INTO dictionary (id, english) VALUES (1, 'dog')".toList)

omit [CDouble] in
def dogTurns : List (Turn × List Char) :=
  [(.straight RouterState.noFiles [] [], "\\single on\n".toList),
    (@Turn.for .whole RouterState.noFiles (@freshServer .whole) dogMessage,
      "INSERT INTO dictionary (id, english) VALUES (1, 'dog');\n".toList)]

omit [CDouble] in
theorem carries_dogTurns : Throughout (@Turn.run .whole) (@Turn.Carries .whole) dogTurns
    (localCfg, @freshServer .whole) := by
  have hdelivers := @Turn.delivers_for .whole RouterState.noFiles (@freshServer .whole) dogMessage
    (by decide +kernel) (by decide +kernel) (by decide +kernel)
  have hsingle : handleBuiltin (trimLine "\\single on\n".toList) = .single true := by decide +kernel
  have hquery : handleBuiltin (trimLine
      "INSERT INTO dictionary (id, english) VALUES (1, 'dog');\n".toList) =
        .query "INSERT INTO dictionary (id, english) VALUES (1, 'dog')".toList := by decide +kernel
  refine (throughout_cons (by decide +kernel) hsingle (by decide)).mpr
    ⟨fun _ hmsg => absurd hmsg (by simp [Command.message]), ?_⟩
  refine (throughout_cons (by decide +kernel) hquery (by simp)).mpr ⟨fun msg hmsg _ => ?_, trivial⟩
  obtain rfl : dogMessage = msg := Option.some.inj hmsg
  exact hdelivers

omit [CDouble] in
theorem session_of_run_dog :
    @session (ReplCfg × RouterState) (@Turn.run .whole) dogTurns (localCfg, @freshServer .whole) =
      @session (ReplCfg × RouterState) (@Turn.runLocal .whole) dogTurns
        (localCfg, @freshServer .whole) :=
  (@session_of_run .whole localCfg
    "\\single on\nINSERT INTO dictionary (id, english) VALUES (1, 'dog');\n".toList dogTurns
    good_localCfg (@freshServer .whole) (by decide +kernel) carries_dogTurns).1

/-- **After a session on the files of a database they hold the tables that come out of the statements
that were typed**, one after the other. -/
theorem session_database (hcfg : cfg.Good) {files : Path → Option CStr} (hfiles : TidyFiles files)
    {s : RouterState} (hs : s.engine = engineInit files)
    (hinput : turns.map Prod.snd = promptLines input)
    (hcarries : Throughout Turn.run Turn.Carries turns (cfg, s))
    (hclean : ∀ stmt ∈ statementsOf (typedQueries turns), Clean stmt) :
    ∃ events, List.Forall₂ (fun stmt event => event.2 = statementOf stmt)
        (statementsOf (typedQueries turns)) events ∧
      (session Turn.run turns (cfg, s)).2.2.engine.storage.Holds
        (Database.exec.run (.start files) events).2 := by
  have hstart : (engineInit files).storage.Holds (.start files) :=
    holds_start fun _ hplain => hfiles.represents hplain
  obtain ⟨events, hevents, -, hholds⟩ := engine_simulates.run hclean hstart
  refine ⟨events, hevents, ?_⟩
  rw [session_eq_local hcfg s hinput hcarries,
    session_engine hcfg (length_lt_of_promptLines hinput), hs]
  rw [run_calls] at hholds
  exact hholds

omit [CDouble] in
theorem session_database_dog :
    ∃ events, List.Forall₂ (fun stmt event => event.2 = statementOf stmt)
        (statementsOf (typedQueries dogTurns)) events ∧
      (@session (ReplCfg × RouterState) (@Turn.run .whole) dogTurns
          (localCfg, @freshServer .whole)).2.2.engine.storage.Holds
        ((@Database.exec .whole).run (@Database.start .whole fun _ => none) events).2 :=
  @session_database .whole localCfg
    "\\single on\nINSERT INTO dictionary (id, english) VALUES (1, 'dog');\n".toList dogTurns
    good_localCfg _ tidyFiles_none (@freshServer .whole) rfl (by decide +kernel) carries_dogTurns
    (by decide +kernel)

end Sessions

end MiniSql
