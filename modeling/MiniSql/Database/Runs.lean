import MiniSql.Database.Refine
import MiniSql.Storage.Counters

/-!
# Runs of the database

From the start of the process on, an engine answers its statements as the tables in its files do.
So nothing that it keeps besides its files can be told from its answers: a process that is started
again on the files goes on as the one that was stopped, and the statements on one table do not
notice those on the others.

## Main definitions

* `Clean` — statements without NUL whose table has no directory in its name.
* `Database.ofFiles`, `Database.start` — the tables in the files of a new process.

## Main results

* `database_of_run` — every run of the engine is a run of its tables.
* `restart_of_run` — stopping and starting again is not noticed.
* `isolation_of_run` — nor are the statements on other tables.
* `observer_of_run` — nor are those that only look.
-/

namespace MiniSql
open CText

variable [CDouble]

/-! ## One step -/

section Step

variable {e : Engine} {db : Database} {sql : ParsedSQL}

theorem holds_executeWrite {table : CStr} {result : Status × Storage} (h : result.2.Holds db) :
    (executeWrite e table result).2.storage.Holds db := by
  unfold executeWrite refreshAfterWrite
  dsimp only
  split
  · have hs : ({ e with storage := result.2 } : Engine).storage.Sound := h.sound
    obtain ⟨hsound, hfiles⟩ := dictionaryTrieRebuild_sound hs
    exact h.of_files hsound hfiles
  · exact h

/-- A statement without a table fails. -/
theorem executeStatement_noName (h : e.storage.Holds db) (hname : sql.table = []) :
    (Scanned sql → (executeStatement e sql).1.answer = .failed) ∧
      (executeStatement e sql).2.storage.Holds db := by
  have hrefused : ∀ result : Status × Storage, result = (.error .failed, e.storage) →
      (Scanned sql → (executeWrite e sql.table result).1.answer = .failed) ∧
        (executeWrite e sql.table result).2.storage.Holds db := by
    rintro _ rfl
    exact ⟨fun _ => rfl, holds_executeWrite h⟩
  unfold executeStatement
  cases htype : sql.type with
  | unknown => exact ⟨fun _ => rfl, h⟩
  | create =>
    apply hrefused
    rw [hname, storageCreate, storageCreateWith, if_pos (.inl rfl)]
  | insert =>
    apply hrefused
    rw [hname, storageInsert, if_pos (.inl rfl)]
  | delete =>
    apply hrefused
    rw [hname, storageDelete, storageDeleteWith, if_neg (by simp [validateDeleteInput])]
  | update =>
    apply hrefused
    rw [hname, storageUpdate, storageUpdateWith, if_neg (by simp [validateUpdateInput])]
  | select =>
    have hshort : sql.table.length ≤ nameMax := by simp [hname]
    obtain ⟨st, hselect, hsound, hfiles⟩ := @executeSelect_sound _ e sql h.sound hshort
    refine ⟨fun hscan => ?_, ?_⟩
    · obtain ⟨hrange, hid, htrie⟩ := hscan htype
      have hopen : ∀ st, openSelect st sql.table = (none, st) := by
        intro st
        rw [openSelect, if_pos hname]
      dsimp only
      unfold executeSelect
      rw [hrange, hid]
      dsimp only
      unfold selectUnindexed
      rw [htrie]
      dsimp only
      rw [storageSelectResult, selectBy, hopen]
      rfl
    · rw [hselect]
      exact h.of_files hsound hfiles

/-- **Every statement is a step of the tables.** -/
theorem holds_executeStatement (h : e.storage.Holds db) (hplain : PlainName sql.table)
    (hvalues : ∀ v ∈ sql.values, NulFree v) (hsets : ∀ set ∈ sql.sets, NulFree set.value) :
    ∃ auto, (Scanned sql → (executeStatement e sql).1.answer = (db.exec (auto, sql)).1) ∧
      (executeStatement e sql).2.storage.Holds (db.exec (auto, sql)).2 := by
  unfold Database.exec Machine.keyed Table.exec
  dsimp only
  by_cases hname : sql.table = []
  · refine ⟨none, ?_⟩
    rw [if_pos hname, Function.update_eq_self]
    exact executeStatement_noName h hname
  simp only [if_neg hname]
  unfold executeStatement
  cases htype : sql.type with
  | unknown =>
    dsimp only
    rw [Function.update_eq_self]
    exact ⟨none, fun _ => rfl, h⟩
  | create =>
    obtain ⟨hanswer, hholds⟩ := holds_create h hplain hname sql.colDefs
    exact ⟨none, fun _ => hanswer, holds_executeWrite hholds⟩
  | insert =>
    obtain ⟨auto, hanswer, hholds⟩ :=
      @holds_insert e.storage sql.table db h hplain hname sql.columns sql.values hvalues
    exact ⟨auto, fun _ => hanswer, holds_executeWrite hholds⟩
  | delete =>
    obtain ⟨hanswer, hholds⟩ := holds_delete h hplain
    exact ⟨none, fun _ => hanswer, holds_executeWrite hholds⟩
  | update =>
    obtain ⟨hanswer, hholds⟩ := holds_update h hplain hsets
    exact ⟨none, fun _ => hanswer, holds_executeWrite hholds⟩
  | select =>
    obtain ⟨hholds, hanswer⟩ := holds_select h hplain hname
    dsimp only
    rw [Function.update_eq_self]
    refine ⟨none, fun hscan => ?_, hholds⟩
    obtain ⟨hrange, hid, htrie⟩ := hscan htype
    exact hanswer hrange hid htrie

end Step

/-! ## The machine of the engine -/

/-- A statement without NUL, on a table without a directory in its name. -/
def Clean (stmt : Uninit × CStr) : Prop := NulFree stmt.2 ∧ '/' ∉ (statementOf stmt).table

omit [CDouble] in
/-- What a clean statement is about. -/
theorem Clean.spec {stmt : Uninit × CStr} (h : Clean stmt) :
    PlainName (statementOf stmt).table ∧ (∀ v ∈ (statementOf stmt).values, NulFree v) ∧
      ∀ set ∈ (statementOf stmt).sets, NulFree set.value := by
  obtain ⟨hnul, hslash⟩ := h
  unfold statementOf at hslash ⊢
  cases hparse : parseSql stmt.1 stmt.2 with
  | none =>
    rw [hparse] at hslash
    exact ⟨by decide, by simp [parsedNew], by simp [parsedNew]⟩
  | some sql =>
    rw [hparse] at hslash
    exact ⟨⟨(parseSql_from hparse).table, hslash⟩, nulFree_parseSql hnul hparse⟩

/-- An answer that is the table's, unless the statement goes by an index or by the trie. -/
def AnswersAs (stmt : Uninit × CStr) (o : Outcome) (answer : Answer) : Prop :=
  Scanned (statementOf stmt) → o.answer = answer

/-- **The engine simulates the tables in its files.** -/
theorem engine_simulates : Simulation execMachine Database.exec (fun e db => e.storage.Holds db)
    Clean (fun stmt event => event.2 = statementOf stmt) AnswersAs where
  step e db stmt h hclean := by
    obtain ⟨hplain, hvalues, hsets⟩ := hclean.spec
    obtain ⟨auto, hanswer, hholds⟩ := holds_executeStatement h hplain hvalues hsets
    refine ⟨(auto, statementOf stmt), rfl, ?_, ?_⟩
    · intro hscan
      rw [execMachine, execOne_eq]
      exact hanswer hscan
    · rw [execMachine, execOne_eq]
      exact hholds

/-! ## The calls -/

/-- `engine_exec_sql` as a machine: what it returns for the statements of each call. -/
def callMachine : Machine Engine ((ℕ → Uninit) × CStr) (List Outcome) :=
  fun e call => (engineExecSql call.1 e call.2).2

/-- The statements of some calls. -/
def statementsOf (calls : List ((ℕ → Uninit) × CStr)) : List (Uninit × CStr) :=
  calls.flatMap fun call => callStatements call.1 call.2

/-- A call is a run over its statements. -/
theorem run_call (mem : ℕ → Uninit) (e : Engine) (sql : CStr) :
    execMachine.run e (callStatements mem sql) = (engineExecSql mem e sql).2 := by
  have hloop : ∀ (n i : ℕ) (e : Engine) (cursor : CStr),
      execMachine.run e (callLoop mem n i cursor) = execLoop mem n i e cursor := by
    intro n
    induction n with
    | zero => intro i e cursor; rfl
    | succ n ih =>
      intro i e cursor
      rw [callLoop, execLoop]
      cases splitNextStatement (cursor.length + 1) cursor with
      | none => rfl
      | some next =>
        obtain ⟨stmt, rest⟩ := next
        dsimp only
        rw [Machine.run_cons, ih]
        rfl
  exact hloop _ _ e sql

/-- Calls are a run over their statements. -/
theorem run_calls (e : Engine) (calls : List ((ℕ → Uninit) × CStr)) :
    execMachine.run e (statementsOf calls) =
      ((callMachine.run e calls).1.flatten, (callMachine.run e calls).2) := by
  induction calls generalizing e with
  | nil => rfl
  | cons call calls ih =>
    have hcons : statementsOf (call :: calls) =
        callStatements call.1 call.2 ++ statementsOf calls := List.flatMap_cons
    rw [hcons, Machine.run_append, run_call, ih]
    rfl

/-! ## The start -/

/-- The tables in the files. -/
def Database.ofFiles (files : Path → Option CStr) : Database := fun name =>
  ⟨(files (schemaPath .nested name)).bind parseSchema,
    (files (tablePath .nested name)).bind readRows⟩

omit [CDouble] in
/-- Files in which every table can be read: none is in the directory of old, and each ends with a
complete record. -/
def TidyFiles (files : Path → Option CStr) : Prop :=
  ∀ name, PlainName name → files (schemaPath .legacy name) = none ∧
    files (tablePath .legacy name) = none ∧
    ∀ text ∈ files (tablePath .nested name), EndsLine text ∧ (readRows text).isSome

omit [CDouble] in
theorem TidyFiles.represents {files : Path → Option CStr} (h : TidyFiles files) {name : CStr}
    (hplain : PlainName name) : Represents files name (Database.ofFiles files name) := by
  obtain ⟨hschema, htable, hread⟩ := h name hplain
  refine ⟨hschema, htable, rfl, ?_⟩
  unfold Database.ofFiles
  cases hfile : files (tablePath .nested name) with
  | none => trivial
  | some text =>
    obtain ⟨hline, hsome⟩ := hread text hfile
    obtain ⟨rows, hrows⟩ := Option.isSome_iff_exists.mp hsome
    dsimp only
    rw [Option.bind_some, hrows]
    exact ⟨hline, hrows⟩

omit [CDouble] in
theorem Represents.ofFiles {files : Path → Option CStr} {name : CStr} {t : Table}
    (h : Represents files name t) : Database.ofFiles files name = t := by
  have hrows : (files (tablePath .nested name)).bind readRows = t.rows := by
    have hin := h.rows
    cases hfile : files (tablePath .nested name) with
    | none =>
      rw [hfile] at hin
      cases htable : t.rows with
      | none => rfl
      | some rows => exact (htable ▸ hin).elim
    | some text =>
      rw [hfile] at hin
      cases htable : t.rows with
      | none => exact (htable ▸ hin).elim
      | some rows => exact (htable ▸ hin : RowsIn (some text) (some rows)).2
  rw [Database.ofFiles, h.schema, hrows]

/-- The tables of a process that has just started; a dictionary that is missing is made. -/
def Database.start (files : Path → Option CStr) : Database :=
  if dictionarySchemaExists (.start files) then .ofFiles files
  else (Database.exec (.ofFiles files) (none, dictionaryCreate)).2

/-- A process that starts on the files of a database. -/
theorem holds_start {files : Path → Option CStr} {db : Database}
    (h : ∀ name, PlainName name → Represents files name (db name)) :
    (engineInit files).storage.Holds (if dictionarySchemaExists (.start files) then db
      else (db.exec (none, dictionaryCreate)).2) := by
  have hstart : (Storage.start files).Holds db := ⟨sound_start files, h⟩
  unfold engineInit
  dsimp only
  by_cases hexists : dictionarySchemaExists (.start files) = true
  · rw [if_pos hexists, if_pos hexists]
    obtain ⟨hsound, hfiles⟩ := dictionaryTrieRebuild_sound
      (e := ⟨.start files, trieCreate, false⟩) (sound_start files)
    exact hstart.of_files hsound hfiles
  · rw [if_neg hexists, if_neg hexists]
    obtain ⟨-, hholds⟩ := holds_create hstart (show PlainName dictionaryName by decide) (by decide)
      dictionaryCreate.colDefs
    exact holds_executeWrite hholds

/-! ## Whole runs -/

/-- **Every run of the engine is a run of the tables in its files.** -/
theorem database_of_run {files : Path → Option CStr} (hfiles : TidyFiles files)
    {calls : List ((ℕ → Uninit) × CStr)} (hclean : ∀ stmt ∈ statementsOf calls, Clean stmt) :
    ∃ events, List.Forall₂ (fun stmt event => event.2 = statementOf stmt) (statementsOf calls) events ∧
      List.Forall₂ (fun stmt answer => AnswersAs stmt.1 stmt.2 answer)
        ((statementsOf calls).zip (callMachine.run (engineInit files) calls).1.flatten)
        (Database.exec.run (.start files) events).1 ∧
      (callMachine.run (engineInit files) calls).2.storage.Holds
        (Database.exec.run (.start files) events).2 := by
  have hstart : (engineInit files).storage.Holds (.start files) :=
    holds_start fun _ hplain => hfiles.represents hplain
  have hrun := engine_simulates.run hclean hstart
  rw [run_calls] at hrun
  exact hrun

/-- A start without files: the dictionary is made, given a word and asked for it. -/
def dictionaryCalls : List ((ℕ → Uninit) × CStr) :=
  [(fun _ => .zero,
    "INSERT INTO dictionary (id, english) VALUES (1, 'dog'); SELECT * FROM dictionary".toList)]

instance (stmt : Uninit × CStr) : Decidable (Clean stmt) := inferInstanceAs (Decidable (_ ∧ _))

omit [CDouble] in
theorem tidyFiles_none : TidyFiles fun _ => none :=
  fun _ _ => ⟨rfl, rfl, fun _ h => absurd h (by simp)⟩

omit [CDouble] in
/-- An INSERT and a SELECT on a dictionary that is made at the start. -/
theorem database_dictionary :
    ∃ events, List.Forall₂ (fun stmt answer => @AnswersAs stmt.1 stmt.2 answer)
        ((statementsOf dictionaryCalls).zip
          ((@callMachine .whole).run (@engineInit .whole fun _ => none) dictionaryCalls).1.flatten)
        ((@Database.exec .whole).run (@Database.start .whole fun _ => none) events).1 := by
  obtain ⟨events, -, hanswers, -⟩ := @database_of_run .whole _ tidyFiles_none dictionaryCalls
    (by decide +kernel)
  exact ⟨events, hanswers⟩

/-! ## What cannot be told from the answers -/

/-- A SELECT, or a text that is no statement. -/
def Observes (stmt : Uninit × CStr) : Prop :=
  (statementOf stmt).type = .select ∨ (statementOf stmt).type = .unknown

omit [CDouble] in
instance (stmt : Uninit × CStr) : Decidable (Observes stmt) := inferInstanceAs (Decidable (_ ∨ _))

theorem Database.exec_of_observes {db : Database} {stmt : Uninit × CStr} (h : Observes stmt)
    {auto : Option ℤ} : (db.exec (auto, statementOf stmt)).2 = db := by
  have hkeeps : (Table.exec (db (statementOf stmt).table) (auto, statementOf stmt)).2 =
      db (statementOf stmt).table := by
    unfold Table.exec
    rcases h with htype | htype <;> simp only [htype] <;> split <;> rfl
  exact (congrArg (Function.update db _) hkeeps).trans (Function.update_eq_self ..)

section Alike

variable {e e' : Engine} {db db' : Database} {name : CStr}

/-- Two processes whose files are the same tables, as far as the names go. -/
def SameTables (names : CStr → Prop) (e e' : Engine) : Prop :=
  ∃ db db', e.storage.Holds db ∧ e'.storage.Holds db' ∧ ∀ name, names name → db name = db' name

/-- A statement that gives its id is the same step in both. -/
theorem SameTables.step {names : CStr → Prop} {stmt : Uninit × CStr} (h : SameTables names e e')
    (hclean : Clean stmt) (hid : IdGiven (statementOf stmt)) (hname : names (statementOf stmt).table) :
    (Scanned (statementOf stmt) →
        (execMachine e stmt).1.answer = (execMachine e' stmt).1.answer) ∧
      SameTables names (execMachine e stmt).2 (execMachine e' stmt).2 := by
  obtain ⟨db, db', hholds, hholds', hsame⟩ := h
  obtain ⟨hplain, hvalues, hsets⟩ := hclean.spec
  obtain ⟨auto, hanswer, hnext⟩ := holds_executeStatement hholds hplain hvalues hsets
  obtain ⟨auto', hanswer', hnext'⟩ := holds_executeStatement hholds' hplain hvalues hsets
  have hcell : Table.exec (db (statementOf stmt).table) (auto, statementOf stmt) =
      Table.exec (db' (statementOf stmt).table) (auto', statementOf stmt) := by
    rw [← hsame _ hname]
    exact Table.exec_congr hid _ auto auto'
  unfold execMachine
  rw [execOne_eq, execOne_eq]
  refine ⟨fun hscan => ?_, _, _, hnext, hnext', fun name hmem => ?_⟩
  · rw [hanswer hscan, hanswer' hscan, Database.exec_fst, Database.exec_fst, hcell]
  · by_cases hne : name = (statementOf stmt).table
    · subst hne
      rw [Database.exec_self, Database.exec_self, hcell]
    · rw [Database.exec_of_ne _ _ hne, Database.exec_of_ne _ _ hne]
      exact hsame name hmem

/-- A statement on another table is not seen. -/
theorem SameTables.other {names : CStr → Prop} {stmt : Uninit × CStr} (h : SameTables names e e')
    (hclean : Clean stmt) (hname : ¬ names (statementOf stmt).table) :
    SameTables names (execMachine e stmt).2 e' := by
  obtain ⟨db, db', hholds, hholds', hsame⟩ := h
  obtain ⟨hplain, hvalues, hsets⟩ := hclean.spec
  obtain ⟨auto, -, hnext⟩ := holds_executeStatement hholds hplain hvalues hsets
  unfold execMachine
  rw [execOne_eq]
  refine ⟨_, _, hnext, hholds', fun name hmem => ?_⟩
  have hne : name ≠ (statementOf stmt).table := fun heq => hname (heq ▸ hmem)
  rw [Database.exec_of_ne _ _ hne]
  exact hsame name hmem

/-- A statement that only looks is not seen. -/
theorem SameTables.observer {names : CStr → Prop} {stmt : Uninit × CStr} (h : SameTables names e e')
    (hclean : Clean stmt) (hlooks : Observes stmt) : SameTables names (execMachine e stmt).2 e' := by
  obtain ⟨db, db', hholds, hholds', hsame⟩ := h
  obtain ⟨hplain, hvalues, hsets⟩ := hclean.spec
  obtain ⟨auto, -, hnext⟩ := holds_executeStatement hholds hplain hvalues hsets
  unfold execMachine
  rw [execOne_eq]
  rw [Database.exec_of_observes hlooks] at hnext
  exact ⟨db, db', hnext, hholds', hsame⟩

/-- The answers to the same statement, unless it goes by an index or by the trie. -/
def AnswersAlike (stmt : Uninit × CStr) (o o' : Outcome) : Prop :=
  Scanned (statementOf stmt) → o.answer = o'.answer

/-- Two processes with the same tables simulate each other. -/
theorem sameTables_simulates (names : CStr → Prop) :
    Simulation execMachine execMachine (SameTables names)
      (fun stmt => Clean stmt ∧ IdGiven (statementOf stmt) ∧ names (statementOf stmt).table)
      Eq AnswersAlike where
  step _ _ stmt h hok := ⟨stmt, rfl, h.step hok.1 hok.2.1 hok.2.2⟩

/-- Two processes with the same tables answer alike. -/
theorem SameTables.run {names : CStr → Prop} (h : SameTables names e e')
    {stmts : List (Uninit × CStr)} (hclean : ∀ stmt ∈ stmts, Clean stmt)
    (hid : ∀ stmt ∈ stmts, IdGiven (statementOf stmt))
    (hname : ∀ stmt ∈ stmts, names (statementOf stmt).table) :
    List.Forall₂ (fun stmt o' => AnswersAlike stmt.1 stmt.2 o')
        (stmts.zip (execMachine.run e stmts).1) (execMachine.run e' stmts).1 ∧
      SameTables names (execMachine.run e stmts).2 (execMachine.run e' stmts).2 := by
  obtain ⟨stmts', hstmts, hanswers, hend⟩ := (sameTables_simulates names).run
    (fun stmt hmem => ⟨hclean stmt hmem, hid stmt hmem, hname stmt hmem⟩) h
  rw [List.forall₂_eq_eq_eq] at hstmts
  subst hstmts
  exact ⟨hanswers, hend⟩

omit [CDouble] in
/-- The tables of a name are the same in the files of both. -/
theorem SameTables.ofFiles {names : CStr → Prop} (h : SameTables names e e') (hname : names name)
    (hplain : PlainName name) :
    Database.ofFiles e.storage.files name = Database.ofFiles e'.storage.files name := by
  obtain ⟨db, db', hholds, hholds', hsame⟩ := h
  rw [(hholds.table name hplain).ofFiles, (hholds'.table name hplain).ofFiles, hsame name hname]

end Alike

/-- **Stopping the process and starting it again on its files is not noticed**: as long as every
INSERT gives its id, the statements that follow are answered as if it had run on, and leave the same
tables. -/
theorem restart_of_run {files : Path → Option CStr} (hfiles : TidyFiles files)
    {before after : List ((ℕ → Uninit) × CStr)} (hbefore : ∀ stmt ∈ statementsOf before, Clean stmt)
    (hafter : ∀ stmt ∈ statementsOf after, Clean stmt ∧ IdGiven (statementOf stmt)) {e : Engine}
    (he : e = (callMachine.run (engineInit files) before).2)
    (hdict : dictionarySchemaExists e.storage = true) :
    List.Forall₂ (fun stmt o' => AnswersAlike stmt.1 stmt.2 o')
        ((statementsOf after).zip (callMachine.run e after).1.flatten)
        (callMachine.run (engineInit e.storage.files) after).1.flatten ∧
      ∀ name, PlainName name →
        Database.ofFiles (callMachine.run e after).2.storage.files name =
          Database.ofFiles (callMachine.run (engineInit e.storage.files) after).2.storage.files name := by
  have hstart : (engineInit files).storage.Holds (.start files) :=
    holds_start fun _ hplain => hfiles.represents hplain
  obtain ⟨events, -, -, hend⟩ := engine_simulates.run hbefore hstart
  rw [run_calls, ← he] at hend
  set db := (Database.exec.run (.start files) events).2
  have hagain : (engineInit e.storage.files).storage.Holds db := by
    have hholds := holds_start hend.table
    have hexists : dictionarySchemaExists (.start e.storage.files) = true := hdict
    rw [if_pos hexists] at hholds
    exact hholds
  have hsame : SameTables (fun _ => True) e (engineInit e.storage.files) :=
    ⟨db, db, hend, hagain, fun _ _ => rfl⟩
  have hrun := hsame.run (fun stmt hmem => (hafter stmt hmem).1) (fun stmt hmem => (hafter stmt hmem).2)
    fun _ _ => trivial
  rw [run_calls, run_calls] at hrun
  exact ⟨hrun.1, fun name hplain => hrun.2.ofFiles trivial hplain⟩

/-- A word more, and the question again. -/
def moreCalls : List ((ℕ → Uninit) × CStr) :=
  [(fun _ => .zero, "INSERT INTO dictionary (english, id) VALUES ('cat', 2)".toList),
    (fun _ => .zero, "SELECT * FROM dictionary; DELETE FROM dictionary WHERE english = 'dog'".toList)]

instance (sql : ParsedSQL) : Decidable (IdGiven sql) := inferInstanceAs (Decidable (_ → _))

omit [CDouble] in
/-- A dictionary across a new start. -/
theorem restart_dictionary :
    List.Forall₂ (fun stmt o' => @AnswersAlike stmt.1 stmt.2 o')
      ((statementsOf moreCalls).zip ((@callMachine .whole).run
        ((@callMachine .whole).run (@engineInit .whole fun _ => none) dictionaryCalls).2
          moreCalls).1.flatten)
      ((@callMachine .whole).run (@engineInit .whole ((@callMachine .whole).run
        (@engineInit .whole fun _ => none) dictionaryCalls).2.storage.files) moreCalls).1.flatten :=
  (@restart_of_run .whole _ tidyFiles_none dictionaryCalls moreCalls (by decide +kernel)
    (by decide +kernel) _ rfl (by decide +kernel)).1

/-- **The statements on one table do not notice those on the others**: leaving all others out of a
run changes neither what is in the table nor what the statements on it are answered then. -/
theorem isolation_of_run {files : Path → Option CStr} (hfiles : TidyFiles files) {name : CStr}
    (hname : PlainName name) {before after : List (Uninit × CStr)}
    (hbefore : ∀ stmt ∈ before, Clean stmt ∧
      ((statementOf stmt).table = name → IdGiven (statementOf stmt)))
    (hafter : ∀ stmt ∈ after, Clean stmt ∧ IdGiven (statementOf stmt) ∧
      (statementOf stmt).table = name) {e e' : Engine}
    (he : e = (execMachine.run (engineInit files) before).2)
    (he' : e' = (execMachine.run (engineInit files)
      (before.filter fun stmt => (statementOf stmt).table = name)).2) :
    Database.ofFiles e.storage.files name = Database.ofFiles e'.storage.files name ∧
      List.Forall₂ (fun stmt o' => AnswersAlike stmt.1 stmt.2 o')
        (after.zip (execMachine.run e after).1) (execMachine.run e' after).1 := by
  have hstart : (engineInit files).storage.Holds (.start files) :=
    holds_start fun _ hplain => hfiles.represents hplain
  have hself : SameTables (· = name) (engineInit files) (engineInit files) :=
    ⟨_, _, hstart, hstart, fun _ _ => rfl⟩
  have hsame : SameTables (· = name) e e' := by
    rw [he, he']
    apply Machine.run_filter _ _ hself
    · intro s s' stmt hmem htable h
      have htable : (statementOf stmt).table = name := by simpa using htable
      obtain ⟨hclean, hid⟩ := hbefore stmt hmem
      exact (h.step hclean (hid htable) htable).2
    · intro s s' stmt hmem htable h
      exact h.other (hbefore stmt hmem).1 (by simpa using htable)
  refine ⟨hsame.ofFiles rfl hname, ?_⟩
  exact (hsame.run (fun stmt hmem => (hafter stmt hmem).1) (fun stmt hmem => (hafter stmt hmem).2.1)
    fun stmt hmem => (hafter stmt hmem).2.2).1

/-- Two tables, one of which is asked for its rows. -/
def mixedStatements : List (Uninit × CStr) :=
  ["CREATE TABLE animals (id INT, legs INT)", "CREATE TABLE plants (name VARCHAR)",
    "INSERT INTO animals (id, legs) VALUES (7, 4)", "INSERT INTO plants (name) VALUES ('oak')",
    "DELETE FROM plants", "UPDATE animals SET legs = 5"].map fun text => (.zero, text.toList)

omit [CDouble] in
/-- The plants next to the animals. -/
theorem isolation_animals :
    List.Forall₂ (fun stmt o' => @AnswersAlike stmt.1 stmt.2 o')
      ([(Uninit.zero, "SELECT * FROM animals".toList)].zip ((@execMachine .whole).run
        ((@execMachine .whole).run (@engineInit .whole fun _ => none) mixedStatements).2
          [(Uninit.zero, "SELECT * FROM animals".toList)]).1)
      ((@execMachine .whole).run ((@execMachine .whole).run (@engineInit .whole fun _ => none)
        (mixedStatements.filter fun stmt => (statementOf stmt).table = "animals".toList)).2
          [(Uninit.zero, "SELECT * FROM animals".toList)]).1 :=
  (@isolation_of_run .whole _ tidyFiles_none "animals".toList (by decide) mixedStatements _
    (by decide +kernel) (by decide +kernel) _ _ rfl rfl).2

/-- **Looking changes nothing**: leaving the SELECTs and the texts that are no statements out of a run
changes neither the tables nor what is answered then, as long as every INSERT gives its id. -/
theorem observer_of_run {files : Path → Option CStr} (hfiles : TidyFiles files)
    {before after : List (Uninit × CStr)}
    (hbefore : ∀ stmt ∈ before, Clean stmt ∧ IdGiven (statementOf stmt))
    (hafter : ∀ stmt ∈ after, Clean stmt ∧ IdGiven (statementOf stmt)) {e e' : Engine}
    (he : e = (execMachine.run (engineInit files) before).2)
    (he' : e' = (execMachine.run (engineInit files) (before.filter fun stmt => ¬ Observes stmt)).2) :
    (∀ name, PlainName name →
        Database.ofFiles e.storage.files name = Database.ofFiles e'.storage.files name) ∧
      List.Forall₂ (fun stmt o' => AnswersAlike stmt.1 stmt.2 o')
        (after.zip (execMachine.run e after).1) (execMachine.run e' after).1 := by
  have hstart : (engineInit files).storage.Holds (.start files) :=
    holds_start fun _ hplain => hfiles.represents hplain
  have hself : SameTables (fun _ => True) (engineInit files) (engineInit files) :=
    ⟨_, _, hstart, hstart, fun _ _ => rfl⟩
  have hsame : SameTables (fun _ => True) e e' := by
    rw [he, he']
    apply Machine.run_filter _ _ hself
    · intro s s' stmt hmem _ h
      obtain ⟨hclean, hid⟩ := hbefore stmt hmem
      exact (h.step hclean hid trivial).2
    · intro s s' stmt hmem hlooks h
      exact h.observer (hbefore stmt hmem).1 (by simpa using hlooks)
  refine ⟨fun name hplain => hsame.ofFiles trivial hplain, ?_⟩
  exact (hsame.run (fun stmt hmem => (hafter stmt hmem).1) (fun stmt hmem => (hafter stmt hmem).2)
    fun _ _ => trivial).1

/-- A SELECT by the id, which builds the index, and a line that is none. -/
def lookingStatements : List (Uninit × CStr) :=
  ["CREATE TABLE animals (id INT, name VARCHAR)", "INSERT INTO animals (id, name) VALUES (3, 'dog')",
    "SELECT name FROM animals WHERE id = 3", "and then?",
    "INSERT INTO animals (id, name) VALUES (1, 'cat')"].map fun text => (.zero, text.toList)

omit [CDouble] in
/-- The animals without a look. -/
theorem observer_animals :
    List.Forall₂ (fun stmt o' => @AnswersAlike stmt.1 stmt.2 o')
      ([(Uninit.zero, "SELECT * FROM animals".toList)].zip ((@execMachine .whole).run
        ((@execMachine .whole).run (@engineInit .whole fun _ => none) lookingStatements).2
          [(Uninit.zero, "SELECT * FROM animals".toList)]).1)
      ((@execMachine .whole).run ((@execMachine .whole).run (@engineInit .whole fun _ => none)
        (lookingStatements.filter fun stmt => ¬ Observes stmt)).2
          [(Uninit.zero, "SELECT * FROM animals".toList)]).1 :=
  (@observer_of_run .whole _ tidyFiles_none lookingStatements _ (by decide +kernel)
    (by decide +kernel) _ _ rfl rfl).2

end MiniSql
