import MiniSql.Lib.Pathname
import MiniSql.RouterJson.Tables

/-!
# The files below the web root

`serve_static` puts the path of a request behind the web root. It refuses a path with `..` in it, so
what it reads lies below the web root, and whatever there is elsewhere cannot be told from the
responses.

## Main definitions

* `routerSetWebRoot` — the web root is never empty.
* `Moment.AgreesBelow` — the same moment, but for files elsewhere.

## Main results

* `staticPath_below` — the path that is read leads below the web root.
* `confined_of_run` — the responses do not depend on any other file.
-/

namespace MiniSql
open CText Pathname

/-- `router_set_web_root`, into an array of 512 bytes. -/
def routerSetWebRoot (sWebRoot : CStr) (webRoot : Option CStr) : CStr :=
  match webRoot with
  | none => sWebRoot
  | some [] => sWebRoot
  | some (c :: s) => (c :: s).take 511

theorem routerSetWebRoot_ne_nil {sWebRoot : CStr} (h : sWebRoot ≠ []) (webRoot : Option CStr) :
    routerSetWebRoot sWebRoot webRoot ≠ [] := by
  unfold routerSetWebRoot
  split
  · exact h
  · exact h
  · simp

/-- What the environment supplies is the same, but for files that are not below the web root. -/
structure Moment.AgreesBelow (cwd : List CStr) (webRoot : CStr) (m m' : Moment) : Prop where
  mem : m'.mem = m.mem
  stray : m'.stray = m.stray
  elapsed : m'.elapsed = m.elapsed
  lockWait : m'.lockWait = m.lockWait
  lookup : m'.lookup = m.lookup
  lockWaitTotal : m'.lockWaitTotal = m.lockWaitTotal
  web : ∀ path, resolve cwd webRoot <+: resolve cwd path → m'.web path = m.web path

namespace RouterState

variable {m m' : Moment} {s : RouterState} {req : HttpRequest} {cwd : List CStr}

/-- **The path that is read leads below the web root**, wherever the process was started. -/
theorem staticPath_below (hroot : s.webRoot ≠ []) {path : CStr} (h : staticPath s req = .ok path)
    (cwd : List CStr) : resolve cwd s.webRoot <+: resolve cwd path := by
  have hbehind : ∀ name, name.head? = some '/' → ¬ "..".toList <:+: name →
      resolve cwd s.webRoot <+: resolve cwd (s.webRoot ++ name) := by
    intro name hhead hdots
    cases name with
    | nil => exact absurd hhead (by simp)
    | cons c rest =>
      obtain rfl := Option.some.inj hhead
      apply resolve_below hroot
      exact fun hin => hdots (hin.trans (List.suffix_cons _ _).isInfix)
  unfold staticPath at h
  split_ifs at h with hmethod hbad hpage
  · cases hprint : snprintf 1024 (s.webRoot ++ "/concurrency.html".toList) with
    | none =>
      rw [hprint] at h
      exact absurd h (by simp)
    | some text =>
      rw [hprint] at h
      rw [← Except.ok.inj h, snprintf_eq_some hprint]
      exact hbehind _ rfl (by decide)
  · push Not at hbad
    obtain ⟨hhead, hdots, -⟩ := hbad
    cases hprint : snprintf 1024 (s.webRoot ++ req.path) with
    | none =>
      rw [hprint] at h
      exact absurd h (by simp)
    | some text =>
      rw [hprint] at h
      rw [← Except.ok.inj h, snprintf_eq_some hprint]
      exact hbehind _ hhead hdots

theorem serveStatic_below (hroot : s.webRoot ≠ []) (h : m.AgreesBelow cwd s.webRoot m') :
    serveStatic m' s req = serveStatic m s req := by
  unfold serveStatic
  cases hpath : staticPath s req with
  | error response => rfl
  | ok path =>
    dsimp only
    rw [readFileResponse, readFileResponse, h.web path (staticPath_below hroot hpath cwd)]

variable [CDouble]

theorem engineExec_below {webRoot : CStr} (h : m.AgreesBelow cwd webRoot m') (sql : CStr) :
    engineExec m' s sql = engineExec m s sql := by
  rw [engineExec, engineExec, h.mem, h.stray, h.elapsed, h.lockWait]

theorem askEngine_below {webRoot : CStr} (h : m.AgreesBelow cwd webRoot m') (query : DictQuery)
    (sql : CStr) (key : Option CStr) (lookup : ℕ) :
    askEngine m' s query sql key lookup = askEngine m s query sql key lookup := by
  rw [askEngine, askEngine, engineExec_below h]

/-- **One response, and the state behind it.** -/
theorem dispatchRequest_below (hroot : s.webRoot ≠ []) (h : m.AgreesBelow cwd s.webRoot m') :
    dispatchRequest m' s req = dispatchRequest m s req := by
  have hdict : handleDictRequest m' s req = handleDictRequest m s req := by
    simp only [handleDictRequest, askEngine_below h, h.lookup]
  have hauto : handleAutocompleteRequest m' s req = handleAutocompleteRequest m s req := by
    simp only [handleAutocompleteRequest, engineExec_below h]
  have hinsert : handleAdminInsertRequest m' s req = handleAdminInsertRequest m s req := by
    simp only [handleAdminInsertRequest, engineExec_below h]
  have hquery : handleQueryRequest m' s req = handleQueryRequest m s req := by
    simp only [handleQueryRequest, engineExec_below h]
  have hexplain : handleExplainRequest m' s req = handleExplainRequest m s req := by
    simp only [handleExplainRequest, h.mem]
  have hstats : handleStatsRequest m' s req = handleStatsRequest m s req := by
    simp only [handleStatsRequest, h.lockWaitTotal]
  rw [dispatchRequest, hdict, hauto, hinsert, hquery, hexplain, hstats, serveStatic_below hroot h,
    dispatchRequest]

/-! ## Runs -/

/-- What a request may do to the process: it executes statements or none, and changes the cache. -/
def Moves (m : Moment) (s s' : RouterState) : Prop :=
  ∃ cache, s' = { s with cache := cache } ∨
    ∃ sql, s' = { (engineExec m s sql).2 with cache := cache }

theorem Moves.webRoot {s' : RouterState} (h : Moves m s s') : s'.webRoot = s.webRoot := by
  obtain ⟨cache, rfl | ⟨sql, rfl⟩⟩ := h <;> rfl

theorem moves_self : Moves m s s := ⟨s.cache, .inl rfl⟩

theorem askEngine_moves (cache : DictCache CStr) (query : DictQuery) (sql : CStr) (key : Option CStr)
    (lookup : ℕ) : Moves m s (askEngine m { s with cache := cache } query sql key lookup).2 := by
  unfold askEngine
  split_ifs
  · exact ⟨cache, .inl rfl⟩
  · exact ⟨_, .inr ⟨sql, rfl⟩⟩

theorem dispatchRequest_moves : Moves m s (dispatchRequest m s req).2 := by
  have hdict : Moves m s (handleDictRequest m s req).2 := by
    unfold handleDictRequest
    by_cases hmethod : req.method ≠ "GET".toList
    · rw [if_pos hmethod]
      exact moves_self
    rw [if_neg hmethod]
    cases dictQueryOf req.query with
    | none => exact moves_self
    | some query =>
      dsimp only
      cases query.sql with
      | none => cases query <;> exact moves_self
      | some sql =>
        dsimp only
        split
        · exact askEngine_moves s.cache query sql none 0
        · split
          · exact ⟨_, .inl rfl⟩
          · exact askEngine_moves _ query sql _ _
  have hauto : Moves m s (handleAutocompleteRequest m s req).2 := by
    unfold handleAutocompleteRequest
    dsimp only
    repeat' split
    all_goals first | exact moves_self | exact ⟨s.cache, .inr ⟨_, rfl⟩⟩
  have hinsert : Moves m s (handleAdminInsertRequest m s req).2 := by
    unfold handleAdminInsertRequest
    dsimp only
    repeat' split
    all_goals first | exact moves_self | exact ⟨_, .inr ⟨_, rfl⟩⟩
  have hquery : Moves m s (handleQueryRequest m s req).2 := by
    unfold handleQueryRequest
    repeat' split
    all_goals first | exact moves_self | exact ⟨s.cache, .inr ⟨_, rfl⟩⟩
  unfold dispatchRequest
  split_ifs
  · exact hdict
  · exact hauto
  · exact hinsert
  · exact hquery
  all_goals exact moves_self

/-- One request in both environments. -/
theorem routerMachine_below (hroot : s.webRoot ≠ []) {request request' : Moment × Option HttpRequest}
    (hsame : request'.2 = request.2) (h : request.1.AgreesBelow cwd s.webRoot request'.1) :
    routerMachine s request' = routerMachine s request ∧
      (routerMachine s request).2.webRoot = s.webRoot := by
  obtain ⟨m, req⟩ := request
  obtain ⟨m', req'⟩ := request'
  obtain rfl : req' = req := hsame
  cases req' with
  | none => exact ⟨rfl, rfl⟩
  | some req => exact ⟨dispatchRequest_below hroot h, dispatchRequest_moves.webRoot⟩

/-- **The responses of a whole run, and the tables and the cache behind it, do not depend on any file
that is not below the web root.** -/
theorem confined_of_run (e : Engine) (queries : ℕ) (webRoot : Option CStr) (cwd : List CStr)
    {requests requests' : List (Moment × Option HttpRequest)} {root : CStr}
    (hroot : root = routerSetWebRoot "./web".toList webRoot)
    (h : List.Forall₂ (fun request request' =>
      request'.2 = request.2 ∧ request.1.AgreesBelow cwd root request'.1) requests requests') :
    routerMachine.run (start e queries root) requests' =
      routerMachine.run (start e queries root) requests := by
  have hne : root ≠ [] := hroot ▸ routerSetWebRoot_ne_nil (by decide) webRoot
  have hrun : ∀ s : RouterState, s.webRoot = root →
      routerMachine.run s requests' = routerMachine.run s requests := by
    clear hroot
    induction h with
    | nil => exact fun _ _ => rfl
    | cons hfirst hrest ih =>
      rintro s rfl
      obtain ⟨hsame, hkeeps⟩ := routerMachine_below hne hfirst.1 hfirst.2
      rw [Machine.run_cons, Machine.run_cons, hsame, ih _ hkeeps]
  exact hrun (start e queries root) rfl

omit [CDouble]

/-- A file elsewhere. -/
def elsewhere : Moment :=
  { noFiles with
    web := fun path => if path = "/etc/passwd".toList then .content "root".toList else .missing }

/-- Requests for it. -/
def curiousRequests (m : Moment) : List (Moment × Option HttpRequest) :=
  ["/../../etc/passwd", "//etc/passwd", "/etc/passwd"].map fun path =>
    (m, some ⟨"GET".toList, path.toList, [], 0, none⟩)

theorem agreesBelow_elsewhere :
    noFiles.AgreesBelow ["srv".toList] "./web".toList elsewhere where
  mem := rfl
  stray := rfl
  elapsed := rfl
  lockWait := rfl
  lookup := rfl
  lockWaitTotal := rfl
  web path hbelow := by
    apply if_neg
    rintro rfl
    exact absurd hbelow (by decide +kernel)

/-- The file is not found by them. -/
theorem confined_curious :
    (@routerMachine .whole).run (@boot .whole (fun _ => none) "./web".toList)
        (curiousRequests elsewhere) =
      (@routerMachine .whole).run (@boot .whole (fun _ => none) "./web".toList)
        (curiousRequests noFiles) :=
  @confined_of_run .whole _ _ none ["srv".toList] (curiousRequests noFiles) (curiousRequests elsewhere)
    _ rfl (.cons ⟨rfl, agreesBelow_elsewhere⟩ (.cons ⟨rfl, agreesBelow_elsewhere⟩
      (.cons ⟨rfl, agreesBelow_elsewhere⟩ .nil)))

end RouterState

end MiniSql
