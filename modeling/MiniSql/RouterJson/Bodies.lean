import MiniSql.EngineJson.Document
import MiniSql.RouterJson

/-!
# The bodies of the router are JSON

## Main results

* `appendJsonEscaped_spec` — the escaper writes the inside of a string, or it runs out of room.
* `isJson_buildSuggestionsArray` — the array of suggestions.
* `isJson_wrapDictResponse`, `isJson_buildAdminInsertResponse`, `isJson_buildAutocompleteResponse` —
  a JSON text of the engine is wrapped into another one.
* `isJson_path_iff` — when the path of a missing file is.
-/

namespace MiniSql
open CText Json

/-! ## The escaper -/

/-- The inside of a string. -/
def Inside (s : CStr) : Prop :=
  ∃ items : List (Item × CStr), (∀ p ∈ items, ItemText p.1 p.2) ∧ s = (items.map Prod.snd).flatten

theorem inside_nil : Inside [] := ⟨[], by simp, rfl⟩

theorem Inside.cons {item : Item} {t s : CStr} (ht : ItemText item t) (h : Inside s) :
    Inside (t ++ s) := by
  obtain ⟨items, hitems, rfl⟩ := h
  refine ⟨(item, t) :: items, fun p hp => ?_, rfl⟩
  rcases List.mem_cons.mp hp with rfl | hp
  · exact ht
  · exact hitems p hp

theorem Inside.jsonText {s : CStr} (h : Inside s) : ∃ v, JsonText v ('"' :: (s ++ ['"'])) := by
  obtain ⟨items, hitems, rfl⟩ := h
  exact ⟨_, .str hitems⟩

/-- **What is written is the inside of a string, or there is no room left for a quote.** -/
theorem appendJsonEscaped_spec (size : ℕ) (text out : CStr) :
    (∃ s, Inside s ∧ appendJsonEscaped size text out = out ++ s) ∨
      size ≤ (appendJsonEscaped size text out).length + 1 := by
  induction text generalizing out with
  | nil => exact .inl ⟨[], inside_nil, (List.append_nil out).symm⟩
  | cons c text ih =>
    -- an item, and then the rest
    have hitem : ∀ {item : Item} {t : CStr}, ItemText item t →
        (∃ s, Inside s ∧ appendJsonEscaped size text (out ++ t) = out ++ s) ∨
          size ≤ (appendJsonEscaped size text (out ++ t)).length + 1 := by
      intro item t ht
      rcases ih (out ++ t) with ⟨s, hs, heq⟩ | hfull
      · exact .inl ⟨t ++ s, hs.cons ht, by rw [heq, List.append_assoc]⟩
      · exact .inr hfull
    rw [appendJsonEscaped]
    by_cases hroom : out.length + 1 < size
    · rw [if_pos hroom]
      by_cases hquote : (c = '"' ∨ c = '\\') ∧ out.length + 2 < size
      · rw [if_pos hquote]
        rcases hquote.1 with rfl | rfl
        · exact hitem (.escape (e := '"') (c := '"') (by decide))
        · exact hitem (.escape (e := '\\') (c := '\\') (by decide))
      rw [if_neg hquote]
      by_cases hnl : c = '\n' ∧ out.length + 2 < size
      · rw [if_pos hnl]
        exact hitem (.escape (e := 'n') (c := '\n') (by decide))
      rw [if_neg hnl]
      by_cases hcr : c = '\r' ∧ out.length + 2 < size
      · rw [if_pos hcr]
        exact hitem (.escape (e := 'r') (c := '\r') (by decide))
      rw [if_neg hcr]
      by_cases htab : c = '\t' ∧ out.length + 2 < size
      · rw [if_pos htab]
        exact hitem (.escape (e := 't') (c := '\t') (by decide))
      rw [if_neg htab]
      by_cases hlow : 0x20 ≤ c.toNat
      · rw [if_pos hlow]
        by_cases hlast : out.length + 2 < size
        · refine hitem (.raw (Char.le_def.mpr hlow) ?_ ?_)
          · exact fun h => hquote ⟨.inl h, hlast⟩
          · exact fun h => hquote ⟨.inr h, hlast⟩
        · -- the last byte of the room
          have hfull : appendJsonEscaped size text (out ++ [c]) = out ++ [c] := by
            cases text with
            | nil => rfl
            | cons d text => rw [appendJsonEscaped, if_neg (by simp; omega)]
          rw [hfull, List.length_append, List.length_singleton]
          exact .inr (by omega)
      · rw [if_neg hlow]
        exact ih out
    · rw [if_neg hroom]
      exact .inr (by omega)

theorem length_appendJsonEscaped (size : ℕ) (text out : CStr) :
    (appendJsonEscaped size text out).length ≤ out.length + 2 * text.length := by
  induction text generalizing out with
  | nil => simp [appendJsonEscaped]
  | cons c text ih =>
    have hstep : ∀ t : CStr, t.length ≤ 2 →
        (appendJsonEscaped size text (out ++ t)).length ≤ out.length + 2 * (c :: text).length := by
      intro t ht
      have hle := ih (out ++ t)
      rw [List.length_append] at hle
      rw [List.length_cons]
      omega
    rw [appendJsonEscaped]
    split_ifs
    · exact hstep _ (by simp)
    · exact hstep _ (by simp)
    · exact hstep _ (by simp)
    · exact hstep _ (by simp)
    · exact hstep _ (by simp)
    · simpa using hstep [] (by simp)
    · rw [List.length_cons]
      omega

/-- A parameter from an array of 256 bytes fits the array for its escaped text. -/
theorem inside_appendJsonEscaped {text : CStr} (h : text.length < 256) :
    Inside (appendJsonEscaped 512 text []) := by
  have hlen := length_appendJsonEscaped 512 text []
  rw [List.length_nil] at hlen
  rcases appendJsonEscaped_spec 512 text [] with ⟨s, hs, heq⟩ | hfull
  · rw [heq]
    exact hs
  · omega

/-! ## Suggestions -/

theorem appendChar_eq_some {size : ℕ} {out out' : CStr} {c : Char} :
    appendChar size out c = some out' ↔ out.length + 1 < size ∧ out ++ [c] = out' := by
  unfold appendChar
  split_ifs with h
  · simp
    omega
  · simp
    omega

theorem commaSep_concat (texts : List CStr) (t : CStr) :
    commaSep (texts ++ [t]) = commaSep texts ++ (if texts.isEmpty then [] else [',']) ++ t := by
  induction texts with
  | nil => rfl
  | cons u texts ih =>
    cases texts with
    | nil => simp [commaSep]
    | cons w texts =>
      simp only [List.cons_append, List.isEmpty_cons] at ih ⊢
      rw [commaSep, ih, commaSep]
      simp

/-- An array that is not closed. -/
def OpenArray (first : Bool) (out : CStr) : Prop :=
  ∃ texts : List CStr, (∀ t ∈ texts, IsJson t) ∧ first = texts.isEmpty ∧ out = '[' :: commaSep texts

theorem openArray_appendSuggestion {size : ℕ} {first : Bool} {value out out' : CStr}
    (h : OpenArray first out) (happend : appendSuggestion size first value out = some out') :
    OpenArray false out' := by
  obtain ⟨texts, htexts, rfl, rfl⟩ := h
  obtain ⟨opened, hopened, hclosed⟩ := Option.bind_eq_some_iff.mp happend
  obtain ⟨sep, hsep, hopened⟩ := Option.bind_eq_some_iff.mp hopened
  obtain ⟨-, rfl⟩ := appendChar_eq_some.mp hopened
  obtain ⟨hroom, rfl⟩ := appendChar_eq_some.mp hclosed
  have hsep' : sep = '[' :: commaSep texts ++ if texts.isEmpty then [] else [','] := by
    cases texts with
    | nil => simpa using hsep.symm
    | cons t texts =>
      rw [List.isEmpty_cons, if_neg (by simp)] at hsep
      rw [← (appendChar_eq_some.mp hsep).2]
      rfl
  -- there was room for the quote
  rcases appendJsonEscaped_spec size value (sep ++ ['"']) with ⟨s, hs, heq⟩ | hfull
  · refine ⟨texts ++ ['"' :: (s ++ ['"'])], fun t ht => ?_, by simp, ?_⟩
    · rcases List.mem_append.mp ht with ht | ht
      · exact htexts t ht
      · rw [List.mem_singleton.mp ht]
        exact hs.jsonText
    · rw [heq, hsep', commaSep_concat]
      simp
  · omega

/-- **The loop writes strings, with commas between them.** -/
theorem openArray_suggestionsLoop {size n : ℕ} {first : Bool} {p out out' : CStr}
    (h : OpenArray first out) (hloop : suggestionsLoop size n first p out = some out') :
    ∃ first', OpenArray first' out' := by
  induction n generalizing first p out with
  | zero =>
    rw [← Option.some.inj hloop]
    exact ⟨first, h⟩
  | succ n ih =>
    rw [suggestionsLoop] at hloop
    split at hloop
    · rw [← Option.some.inj hloop]
      exact ⟨first, h⟩
    · rw [← Option.some.inj hloop]
      exact ⟨first, h⟩
    · split at hloop
      · simp only [Option.bind_eq_bind, Option.bind_eq_some_iff] at hloop
        obtain ⟨⟨value, rest⟩, -, out₁, hout, rest', -, hloop⟩ := hloop
        exact ih (openArray_appendSuggestion h hout) hloop
      · simp only [Option.bind_eq_bind, Option.bind_eq_some_iff] at hloop
        obtain ⟨rest, -, hloop⟩ := hloop
        exact ih h hloop
    · exact ih h hloop

theorem OpenArray.close {first : Bool} {out : CStr} (h : OpenArray first out) : IsJson (out ++ [']']) := by
  obtain ⟨texts, htexts, -, rfl⟩ := h
  exact isJson_arr htexts

theorem isJson_buildSuggestionsArray {size : ℕ} {engineJson out : CStr}
    (h : buildSuggestionsArray size engineJson = some out) : IsJson out := by
  have hopen : OpenArray true ['['] := ⟨[], by simp, rfl, rfl⟩
  unfold buildSuggestionsArray at h
  simp only [Option.bind_eq_bind, Option.bind_eq_some_iff] at h
  obtain ⟨opened, hopened, h⟩ := h
  obtain ⟨-, rfl⟩ := appendChar_eq_some.mp hopened
  cases hrows : afterFirst "\"rows\":[".toList engineJson with
  | none =>
    rw [hrows] at h
    obtain ⟨-, rfl⟩ := appendChar_eq_some.mp h
    exact hopen.close
  | some p =>
    simp only [hrows, Option.bind_eq_some_iff] at h
    obtain ⟨written, hwritten, h⟩ := h
    obtain ⟨-, rfl⟩ := appendChar_eq_some.mp h
    obtain ⟨first, hwritten⟩ := openArray_suggestionsLoop hopen hwritten
    exact hwritten.close

/-! ## Times -/

theorem jsonText_fixed6 (n : ℕ) : JsonText (.num (fixed6 n)) (fixed6 n) := by
  refine .num ?_
  have hcast : ((n : ℤ) / 1000000) = ((n / 1000000 : ℕ) : ℤ) := by norm_cast
  have hdigit : ∀ m : ℕ, (Nat.digitChar (m % 10)).isDigit = true :=
    fun m => (digitChar_spec (m % 10) (Nat.mod_lt _ (by decide))).1
  rw [fixed6, hcast, intText_natCast]
  refine isNumber_append (fun c => isDigit_of_mem_toDigits) (isInt_toDigits _) ?_ ?_
  · simp [isFracExp, isExp, hdigit]
  · intro c hc
    rw [← Option.some.inj hc]
    decide

theorem length_intText_le {n : ℕ} (h : n < 2 ^ 64) : (intText n).length ≤ 20 := by
  rw [intText_natCast, Nat.length_toDigits_le_iff (by decide) (by decide)]
  omega

theorem length_fixed3_le {n : ℕ} (h : n < 2 ^ 64) : (fixed3 n).length ≤ 32 := by
  have hcast : ((n : ℤ) / 1000) = ((n / 1000 : ℕ) : ℤ) := by norm_cast
  have hlen := @length_intText_le (n / 1000) (by omega)
  rw [fixed3, hcast, List.length_append]
  simp only [List.length_cons, List.length_nil]
  omega

theorem length_fixed6_le {n : ℕ} (h : n < 2 ^ 64) : (fixed6 n).length ≤ 32 := by
  have hcast : ((n : ℤ) / 1000000) = ((n / 1000000 : ℕ) : ℤ) := by norm_cast
  have hlen := @length_intText_le (n / 1000000) (by omega)
  rw [fixed6, hcast, List.length_append]
  simp only [List.length_cons, List.length_nil]
  omega

/-- The block is large enough. -/
theorem printTimed_eq {before time after : CStr} (h : time.length ≤ 32) :
    printTimed before time after = before ++ time ++ after := by
  refine List.take_of_length_le ?_
  simp only [List.length_append]
  omega

/-! ## Bodies -/

theorem isJson_buildAdminInsertResponse {english engineJson : CStr} (henglish : english.length < 256)
    (ok : Bool) {elapsed : ℕ} (helapsed : elapsed < 2 ^ 64) (hjson : IsJson engineJson) :
    IsJson (buildAdminInsertResponse english ok elapsed engineJson) := by
  obtain ⟨engine, hengine⟩ := hjson
  obtain ⟨word, hword⟩ := (inside_appendJsonEscaped henglish).jsonText
  have hobj := @jsonText_obj [("ok".toList, _, boolText ok), ("english".toList, _, _),
    ("elapsed_ms".toList, _, fixed3 elapsed), ("engine".toList, _, engineJson)] (by simp)
    ⟨by decide, jsonText_bool ok, by decide, hword, by decide, jsonText_fixed3 elapsed, by decide,
      hengine, trivial⟩
  have htext : buildAdminInsertResponse english ok elapsed engineJson = objText
      [("ok".toList, boolText ok),
        ("english".toList, '"' :: (appendJsonEscaped 512 english [] ++ ['"'])),
        ("elapsed_ms".toList, fixed3 elapsed), ("engine".toList, engineJson)] := by
    unfold buildAdminInsertResponse
    rw [printTimed_eq (length_fixed3_le helapsed)]
    generalize appendJsonEscaped 512 english [] = word
    generalize fixed3 elapsed = time
    generalize boolText ok = ok
    simp [objText, commaSep]
  rw [htext]
  exact ⟨_, hobj⟩

theorem isJson_buildAutocompleteResponse {pre engineJson json : CStr} (hpre : pre.length < 256)
    (ok : Bool) {elapsed : ℕ} (helapsed : elapsed < 2 ^ 64) (hjson : IsJson engineJson)
    (h : buildAutocompleteResponse pre ok elapsed engineJson = some json) : IsJson json := by
  obtain ⟨engine, hengine⟩ := hjson
  obtain ⟨word, hword⟩ := (inside_appendJsonEscaped hpre).jsonText
  obtain ⟨suggestions, hbuild, h⟩ := Option.bind_eq_some_iff.mp h
  obtain ⟨values, hvalues⟩ := isJson_buildSuggestionsArray hbuild
  have hobj := @jsonText_obj [("ok".toList, _, boolText ok), ("prefix".toList, _, _),
    ("suggestions".toList, _, suggestions), ("elapsed_ms".toList, _, fixed3 elapsed),
    ("engine".toList, _, engineJson)] (by simp)
    ⟨by decide, jsonText_bool ok, by decide, hword, by decide, hvalues, by decide,
      jsonText_fixed3 elapsed, by decide, hengine, trivial⟩
  have htext : json = objText
      [("ok".toList, boolText ok),
        ("prefix".toList, '"' :: (appendJsonEscaped 512 pre [] ++ ['"'])),
        ("suggestions".toList, suggestions), ("elapsed_ms".toList, fixed3 elapsed),
        ("engine".toList, engineJson)] := by
    rw [← Option.some.inj h, printTimed_eq (length_fixed3_le helapsed)]
    generalize appendJsonEscaped 512 pre [] = word
    generalize fixed3 elapsed = time
    generalize boolText ok = ok
    simp [objText, commaSep]
  rw [htext]
  exact ⟨_, hobj⟩

theorem isJson_wrapDictResponse {mode query engineJson : CStr} (hmode : IsPlain mode)
    (hquery : query.length < 256) (ok hit : Bool) {lookup : ℕ} (hlookup : lookup < 2 ^ 64)
    (hjson : IsJson engineJson) : IsJson (wrapDictResponse ok mode query hit lookup engineJson) := by
  obtain ⟨engine, hengine⟩ := hjson
  obtain ⟨word, hword⟩ := (inside_appendJsonEscaped hquery).jsonText
  have hobj := @jsonText_obj [("ok".toList, _, boolText ok), ("cache_hit".toList, _, boolText hit),
    ("cache_lookup_ms".toList, _, fixed6 lookup), ("mode".toList, _, _), ("query".toList, _, _),
    ("engine".toList, _, engineJson)] (by simp)
    ⟨by decide, jsonText_bool ok, by decide, jsonText_bool hit, by decide, jsonText_fixed6 lookup,
      by decide, jsonText_plain hmode, by decide, hword, by decide, hengine, trivial⟩
  have htext : wrapDictResponse ok mode query hit lookup engineJson = objText
      [("ok".toList, boolText ok), ("cache_hit".toList, boolText hit),
        ("cache_lookup_ms".toList, fixed6 lookup), ("mode".toList, '"' :: (mode ++ ['"'])),
        ("query".toList, '"' :: (appendJsonEscaped 512 query [] ++ ['"'])),
        ("engine".toList, engineJson)] := by
    unfold wrapDictResponse
    rw [printTimed_eq (length_fixed6_le hlookup)]
    generalize appendJsonEscaped 512 query [] = word
    generalize fixed6 lookup = time
    generalize boolText ok = ok
    generalize boolText hit = hit
    simp [objText, commaSep]
  rw [htext]
  exact ⟨_, hobj⟩

theorem isJson_explainText (e : Engine) (sql : ParsedSQL) : IsJson (explainText e sql) := by
  have hobj := @jsonText_obj [("ok".toList, _, boolText true),
    ("type".toList, _, jbAppendJsonString (queryTypeName sql.type)),
    ("table".toList, _, jbAppendJsonString sql.table),
    ("plan".toList, _, jbAppendJsonString (explainPlan e sql).1),
    ("index_used".toList, _, boolText (explainPlan e sql).2.1),
    ("nodes_visited".toList, _, intText (explainPlan e sql).2.2)] (by simp)
    ⟨by decide, jsonText_bool true, by decide, jsonText_string _, by decide, jsonText_string _,
      by decide, jsonText_string _, by decide, jsonText_bool _, by decide, jsonText_nat _, trivial⟩
  have htext : explainText e sql = objText [("ok".toList, boolText true),
      ("type".toList, jbAppendJsonString (queryTypeName sql.type)),
      ("table".toList, jbAppendJsonString sql.table),
      ("plan".toList, jbAppendJsonString (explainPlan e sql).1),
      ("index_used".toList, boolText (explainPlan e sql).2.1),
      ("nodes_visited".toList, intText (explainPlan e sql).2.2)] := by
    unfold explainText
    generalize jbAppendJsonString (queryTypeName sql.type) = type
    generalize jbAppendJsonString sql.table = table
    generalize jbAppendJsonString (explainPlan e sql).1 = plan
    generalize boolText (explainPlan e sql).2.1 = used
    generalize intText (explainPlan e sql).2.2 = nodes
    simp [objText, commaSep, boolText]
  rw [htext]
  exact ⟨_, hobj⟩

theorem isJson_engineExplain (mem : ℕ → Uninit) (e : Engine) (sql : CStr) :
    IsJson (engineExplain mem e sql).json := by
  unfold engineExplain
  split
  · decide +kernel
  · split
    · decide +kernel
    · split_ifs
      · decide +kernel
      · exact isJson_explainText e _

/-- The body of an error is JSON. -/
theorem isJson_error {name : CStr} (h : IsPlain name) :
    IsJson ("\x7b\"ok\":false,\"error\":\"".toList ++ name ++ "\"\x7d".toList) := by
  have hobj := @jsonText_obj [("ok".toList, _, boolText false), ("error".toList, _, _)] (by simp)
    ⟨by decide, jsonText_bool false, by decide, jsonText_plain h, trivial⟩
  have htext : "\x7b\"ok\":false,\"error\":\"".toList ++ name ++ "\"\x7d".toList =
      objText [("ok".toList, boolText false), ("error".toList, '"' :: (name ++ ['"']))] := by
    simp [objText, commaSep, boolText]
  rw [htext]
  exact ⟨_, hobj⟩

/-- **The path of a missing file is sent as it is.** -/
theorem isJson_path_iff (path : CStr) :
    IsJson ("\x7b\"ok\":false,\"error\":\"not_found\",\"path\":\"".toList ++ path ++
      "\"\x7d".toList) ↔ FillsQuotes path := by
  have hbefore : MembersOk [("ok".toList, .bool false, boolText false),
      ("error".toList, .str "not_found".toList, "\"not_found\"".toList)] :=
    ⟨by decide, jsonText_bool false, by decide, jsonText_plain (s := "not_found".toList) (by decide),
      trivial⟩
  rw [← @isJson_fill path _ hbefore "path".toList (by decide)]
  have htext : "\x7b\"ok\":false,\"error\":\"not_found\",\"path\":\"".toList ++ path ++
      "\"\x7d".toList = objText [("ok".toList, boolText false),
        ("error".toList, "\"not_found\"".toList), ("path".toList, '"' :: (path ++ ['"']))] := by
    simp [objText, commaSep, boolText]
  rw [htext]
  rfl

/-- The counters of `/api/stats` fit their array. -/
theorem isJson_stats {total wait hits misses : ℕ} (htotal : total < 2 ^ 64) (hwait : wait < 2 ^ 64)
    (hhits : hits < 2 ^ 64) (hmisses : misses < 2 ^ 64) :
    IsJson (("\x7b\"ok\":true,\"total_queries\":".toList ++ intText total ++
      ",\"lock_wait_ns_total\":".toList ++ intText wait ++ ",\"cache_hits\":".toList ++
      intText hits ++ ",\"cache_misses\":".toList ++ intText misses ++ ['}']).take 383) := by
  have hlen := length_intText_le htotal
  have hlen₁ := length_intText_le hwait
  have hlen₂ := length_intText_le hhits
  have hlen₃ := length_intText_le hmisses
  have hobj := @jsonText_obj [("ok".toList, _, boolText true), ("total_queries".toList, _, intText total),
    ("lock_wait_ns_total".toList, _, intText wait), ("cache_hits".toList, _, intText hits),
    ("cache_misses".toList, _, intText misses)] (by simp)
    ⟨by decide, jsonText_bool true, by decide, jsonText_nat _, by decide, jsonText_nat _, by decide,
      jsonText_nat _, by decide, jsonText_nat _, trivial⟩
  have htext : "\x7b\"ok\":true,\"total_queries\":".toList ++ intText total ++
      ",\"lock_wait_ns_total\":".toList ++ intText wait ++ ",\"cache_hits\":".toList ++
      intText hits ++ ",\"cache_misses\":".toList ++ intText misses ++ ['}'] = objText
        [("ok".toList, boolText true), ("total_queries".toList, intText total),
          ("lock_wait_ns_total".toList, intText wait), ("cache_hits".toList, intText hits),
          ("cache_misses".toList, intText misses)] := by
    generalize intText total = total
    generalize intText wait = wait
    generalize intText hits = hits
    generalize intText misses = misses
    simp [objText, commaSep, boolText]
  rw [List.take_of_length_le, htext]
  · exact ⟨_, hobj⟩
  · simp only [List.length_append, String.length_toList, List.length_singleton]
    have hconst : "\x7b\"ok\":true,\"total_queries\":".length + ",\"lock_wait_ns_total\":".length +
        ",\"cache_hits\":".length + ",\"cache_misses\":".length ≤ 200 := by decide
    omega

end MiniSql
