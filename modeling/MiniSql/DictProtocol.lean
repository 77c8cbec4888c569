import MiniSql.Lib.CacheAside
import MiniSql.RouterDict

/-!
# Lookups and inserts side by side

The steps of `handle_dict_request` on a word and of `handle_admin_insert_request`, interleaved.
A lookup that misses reads the engine and then puts what it has read into the cache. Where a word
is inserted, invalidated and replied to between the two, the cache is left with a body without
the inserted row.

## Main definitions

* `dictLookupCache` — the cache by words.
* `dictRead`, `dictWrite` — the steps that use the engine.
* `CanRead`, `CanWrite` — what the steps ask of the dictionary.

## Main results

* `dictLaws` — the engine is a store in the sense of `CacheAside`.
* `dict_answer_of_run` — lookups that start after the reply to an insert.
-/

namespace MiniSql
open CText CacheAside

theorem englishKey_ne {word word' : Param 256} (h : word' ≠ word) :
    englishKey word'.1 ≠ englishKey word.1 :=
  fun heq => h (Subtype.ext (englishKey_inj heq))

/-- The cache, by the words under whose `english:` keys it holds something. -/
def dictLookupCache : LookupCache (DictCache (List Outcome)) (Param 256) (List Outcome) where
  lookup c word := c.lookup (englishKey word.1)
  get c word := c.get (englishKey word.1)
  put c word outcomes := c.put (englishKey word.1) outcomes
  invalidate c word := c.invalidate (englishKey word.1)
  get_fst _ word := (DictCache.lookup_get (englishKey_ne_nil word.1)).1
  lookup_get _ word word' := (DictCache.lookup_get (englishKey_ne_nil word.1)).2 (englishKey word'.1)
  lookup_put_self c word outcomes := DictCache.lookup_put_self c (englishKey_ne_nil word.1) outcomes
  lookup_put_of_ne _ _ _ _ _ h hb := DictCache.lookup_put_of_ne (englishKey_ne h) hb
  lookup_invalidate_self c word := DictCache.lookup_invalidate_self c (englishKey_ne_nil word.1)
  lookup_invalidate_of_ne _ _ _ h := DictCache.lookup_invalidate_of_ne (englishKey_ne h)

/-- The lookups and inserts in flight, with the engine and the cache. -/
abbrev DictState :=
  CacheAside.State Engine (DictCache (List Outcome)) (Param 256) (List Outcome) CStr

/-- A step of a request. A read and a write come with the heap memory that the parser gets, and a
write with its translation. -/
abbrev DictEvent := CacheAside.Event (Param 256) (ℕ → Uninit) ((ℕ → Uninit) × Param 256)

variable [CDouble]

/-- The read of a lookup: what it caches, or nothing where the engine fails. -/
def dictRead (mem : ℕ → Uninit) (e : Engine) (word : Param 256) : Option (List Outcome) × Engine :=
  match readDict mem e (.english word) with
  | (.answer true outcomes, e) => (some outcomes, e)
  | (_, e) => (none, e)

/-- The write of an insert: the translation in the row that it has added, or nothing where the
engine fails. -/
def dictWrite (input : (ℕ → Uninit) × Param 256) (e : Engine) (word : Param 256) :
    Option CStr × Engine :=
  match insertWord input.1 e word input.2 with
  | (.answer true _, e') =>
    (some (((e'.storage.translations word.1).bind (·.getLast?)).getD []), e')
  | (_, e') => (none, e')

/-! ## The engine as a store -/

/-- The dictionary can be searched for the word. -/
def CanRead (e : Engine) (word : Param 256) (_mem : ℕ → Uninit) : Prop :=
  isAsciiLowercaseWord word.1 = true → e.storage.FindsWord word.1

/-- The file of the dictionary ends a line. -/
def CanWrite (e : Engine) (_word : Param 256) (_input : (ℕ → Uninit) × Param 256) : Prop :=
  ∀ file ∈ e.storage.content dictionaryName, EndsRecord file

/-- An engine that is ready serves words. -/
def ServesWords (e : Engine) : Prop :=
  engineIsReady e = true → Serves e ∧ e.storage.GoodWords

/-- The dictionary has the word with the translation. -/
def HasTranslation (e : Engine) (word : Param 256) (korean : CStr) : Prop :=
  engineIsReady e = true ∧ isAsciiLowercaseWord word.1 = true ∧
    ∃ translations, e.storage.translations word.1 = some translations ∧ korean ∈ translations

/-- The body of a lookup contains the row with the translation. -/
def ContainsRow (outcomes : List Outcome) (korean : CStr) : Prop :=
  ∃ path rs, outcomes = [.rows path rs] ∧ [korean] ∈ rs.rows

omit [CDouble] in
theorem translations_of_files {st st' : Storage} (h : st'.files = st.files) (word : CStr) :
    st'.translations word = st.translations word := by
  rw [Storage.translations, (sameTable_of_files h dictionaryName).dictionaryRows,
    Storage.translations]

omit [CDouble] in
/-- A dictionary of words has the translations of every word. -/
theorem translations_isSome {st : Storage} (hwords : st.GoodWords) (word : CStr) :
    (st.translations word).isSome = true := by
  obtain ⟨schema, file, j, rows, hschema, hfile, hj, hload, -⟩ := goodWords_iff.mp hwords
  have hrows : st.dictionaryRows = some (schema, rows) :=
    dictionaryRows_eq_some.mpr ⟨hschema, by rw [hfile]; exact hload⟩
  rw [Storage.translations, hrows, Option.bind_some]
  dsimp only
  rw [hj]
  rfl

theorem dictRead_snd (mem : ℕ → Uninit) (e : Engine) (word : Param 256) :
    (dictRead mem e word).2 = (readDict mem e (.english word)).2 := by
  unfold dictRead
  split
  · rename_i heq
    rw [heq]
  · rename_i heq
    rw [heq]

theorem dictWrite_snd (input : (ℕ → Uninit) × Param 256) (e : Engine) (word : Param 256) :
    (dictWrite input e word).2 = (insertWord input.1 e word input.2).2 := by
  unfold dictWrite
  split
  · rename_i heq
    rw [heq]
  · rename_i heq
    rw [heq]

section Laws

variable {e : Engine} {word other : Param 256} {korean : CStr} {mem : ℕ → Uninit}
variable {input : (ℕ → Uninit) × Param 256}

/-- A lookup leaves the files and the readiness. -/
theorem dictRead_keeps (h : ServesWords e) (mem : ℕ → Uninit) (word : Param 256) :
    engineIsReady (dictRead mem e word).2 = engineIsReady e ∧
      (dictRead mem e word).2.storage.files = e.storage.files ∧ ServesWords (dictRead mem e word).2 := by
  rw [dictRead_snd]
  by_cases hready : engineIsReady e = true
  · obtain ⟨hserves, hwords⟩ := h hready
    obtain ⟨st, heq, hsound, hfiles⟩ := readDict_sound hserves.sound mem (.english word)
    rw [heq]
    have hgood : st.GoodWords := (sameTable_of_files hfiles dictionaryName).goodWords.mpr hwords
    exact ⟨rfl, hfiles, fun _ => ⟨⟨hready, hsound, .inr hgood⟩, hgood⟩⟩
  · obtain ⟨status, hbusy⟩ := readDict_busy hready mem (.english word)
    rw [hbusy]
    exact ⟨rfl, rfl, h⟩

theorem dictRead_holds (h : ServesWords e) (hitem : HasTranslation e other korean) :
    HasTranslation (dictRead mem e word).2 other korean := by
  obtain ⟨hready, hfiles, -⟩ := dictRead_keeps h mem word
  rw [HasTranslation, hready, translations_of_files hfiles]
  exact hitem

/-- A lookup finds what the dictionary has. -/
theorem dictRead_finds (h : ServesWords e) (hread : CanRead e word mem)
    (hitem : HasTranslation e word korean) :
    ∃ outcomes, (dictRead mem e word).1 = some outcomes ∧ ContainsRow outcomes korean := by
  obtain ⟨hready, hword, translations, htrans, hmem⟩ := hitem
  obtain ⟨rs, hanswer, hrows⟩ :=
    readDict_finds (h hready).1.sound hready hword (hread hword) htrans mem
  refine ⟨[.rows .scan rs], ?_, .scan, rs, rfl, hrows korean hmem⟩
  unfold dictRead
  rcases hres : readDict mem e (.english word) with ⟨reply, e'⟩
  rw [hres] at hanswer
  obtain rfl : reply = .answer true [.rows .scan rs] := hanswer
  rfl

/-- What an insert keeps. -/
theorem dictWrite_keeps (h : ServesWords e) (hready : engineIsReady e = true)
    (hwrite : CanWrite e word input) :
    ∃ row, Serves (dictWrite input e word).2 ∧ (dictWrite input e word).2.storage.GoodWords ∧
      WordInserted e.storage (dictWrite input e word).2.storage word.1 row ∧
      ∀ item, (dictWrite input e word).1 = some item → row.isSome = true ∧
        item = (((dictWrite input e word).2.storage.translations word.1).bind (·.getLast?)).getD [] := by
  obtain ⟨hserves, hwords⟩ := h hready
  obtain ⟨row, hserves', hinserted, hrow⟩ := @insertWord_spec _ e word input.2 hserves
    hwrite input.1
  rw [dictWrite_snd]
  refine ⟨row, hserves', ?_, hinserted, fun item hitem => ?_⟩
  · rcases hserves'.words with hnone | hgood
    · obtain ⟨schema, file, j, rows, hschema, -⟩ := goodWords_iff.mp hwords
      rw [hinserted.schema, hschema] at hnone
      exact absurd hnone (by simp)
    · exact hgood
  · unfold dictWrite at hitem
    rcases hres : insertWord input.1 e word input.2 with ⟨_ | ⟨_ | _, outcomes⟩, e'⟩ <;>
      rw [hres] at hitem hrow <;> dsimp only at hitem
    · exact absurd hitem (by simp)
    · exact absurd hitem (by simp)
    · obtain rfl := Option.some.inj hitem
      exact ⟨hrow outcomes rfl, rfl⟩

/-- An engine that is not ready is not written. -/
theorem dictWrite_busy (hready : ¬ engineIsReady e = true) : dictWrite input e word = (none, e) := by
  obtain ⟨status, hbusy⟩ := @insertWord_busy _ e word input.2 hready input.1
  unfold dictWrite
  rw [hbusy]

theorem dictWrite_good (h : ServesWords e) (hwrite : CanWrite e word input) :
    ServesWords (dictWrite input e word).2 := by
  by_cases hready : engineIsReady e = true
  · obtain ⟨row, hserves, hgood, -⟩ := dictWrite_keeps h hready hwrite
    exact fun _ => ⟨hserves, hgood⟩
  · rw [dictWrite_busy hready]
    exact h

/-- What the dictionary had before an insert it has behind it. -/
theorem dictWrite_holds (h : ServesWords e) (hwrite : CanWrite e word input)
    (hitem : HasTranslation e other korean) : HasTranslation (dictWrite input e word).2 other korean := by
  obtain ⟨hready, hother, translations, htrans, hmem⟩ := hitem
  obtain ⟨row, hserves, -, hinserted, -⟩ := dictWrite_keeps h hready hwrite
  obtain ⟨added, htrans', -⟩ := hinserted.translations hwrite htrans
  exact ⟨hserves.ready, hother, _, htrans', List.mem_append_left _ hmem⟩

/-- The row that an insert has added is in the dictionary. -/
theorem dictWrite_item (h : ServesWords e) (hwrite : CanWrite e word input)
    (hitem : (dictWrite input e word).1 = some korean) :
    HasTranslation (dictWrite input e word).2 word korean := by
  have hready : engineIsReady e = true := by
    by_contra hbusy
    rw [dictWrite_busy hbusy] at hitem
    exact absurd hitem (by simp)
  obtain ⟨row, hserves, -, hinserted, hlast⟩ := dictWrite_keeps h hready hwrite
  obtain ⟨hrow, rfl⟩ := hlast korean hitem
  obtain ⟨translations, htrans⟩ :=
    Option.isSome_iff_exists.mp (translations_isSome (h hready).2 word.1)
  obtain ⟨added, htrans', hadded⟩ := hinserted.translations hwrite htrans
  refine ⟨hserves.ready, hinserted.valid hrow, _, htrans', ?_⟩
  -- the last translation is the one that was added
  have hne : translations ++ added ≠ [] := by simp [hadded rfl hrow]
  rw [htrans', Option.bind_some, List.getLast?_eq_some_getLast hne, Option.getD_some]
  exact List.getLast_mem hne

end Laws

/-- **The engine keeps what was inserted, and finds it.** -/
theorem dictLaws : StoreLaws dictRead dictWrite CanRead CanWrite ServesWords HasTranslation
    ContainsRow where
  read_good h _ := (dictRead_keeps h _ _).2.2
  read_holds h _ hitem := dictRead_holds h hitem
  read_finds h hread hitem := dictRead_finds h hread hitem
  write_good h hwrite := dictWrite_good h hwrite
  write_holds h hwrite hitem := dictWrite_holds h hwrite hitem
  write_item h hwrite hitem := dictWrite_item h hwrite hitem

/-! ## Runs -/

/-- The steps of the requests. -/
abbrev dictStep : DictState → DictEvent → Option DictState :=
  CacheAside.step dictLookupCache dictRead dictWrite

/-- A process that has just started. -/
abbrev dictStart (files : Path → Option CStr) (cache : DictCache (List Outcome)) : DictState :=
  ⟨engineInit files, cache, [], []⟩

/-- A lookup that nothing comes between takes these steps. -/
theorem handleDictRequest_steps (mem : ℕ → Uninit) (s : Server) (word : Param 256) :
    ∃ events readers, Runs.run dictStep ⟨s.engine, s.cache, [], []⟩ events =
      some ⟨(handleDictRequest mem s (.english word) false).2.engine,
        (handleDictRequest mem s (.english word) false).2.cache, readers, []⟩ := by
  have hsql : (DictQuery.english word).sql = some ((DictQuery.english word).text ++ [';']) :=
    DictQuery.sql_eq trivial
  unfold handleDictRequest
  rw [hsql, if_neg (by decide)]
  dsimp only [DictQuery.key]
  rcases hget : s.cache.get (englishKey word.1) with ⟨_ | outcomes, cache⟩
  · have hlookup : dictLookupCache.get s.cache word = (none, cache) := hget
    rcases hread : readDict mem s.engine (.english word) with ⟨_ | ⟨_ | _, outcomes⟩, e⟩
    · refine ⟨[.lookup word, .read 0 mem], [⟨word, .done none⟩], ?_⟩
      simp only [Runs.run, CacheAside.step, hlookup, dictRead, hread, List.nil_append,
        List.getElem?_cons_zero, Option.bind_some]
      rfl
    · refine ⟨[.lookup word, .read 0 mem], [⟨word, .done none⟩], ?_⟩
      simp only [Runs.run, CacheAside.step, hlookup, dictRead, hread, List.nil_append,
        List.getElem?_cons_zero, Option.bind_some]
      rfl
    · refine ⟨[.lookup word, .read 0 mem, .put 0], [⟨word, .done (some outcomes)⟩], ?_⟩
      simp only [Runs.run, CacheAside.step, hlookup, dictRead, hread, List.nil_append,
        List.getElem?_cons_zero, List.set_cons_zero, Option.bind_some]
      rfl
  · have hlookup : dictLookupCache.get s.cache word = (some outcomes, cache) := hget
    refine ⟨[.lookup word], [⟨word, .done (some outcomes)⟩], ?_⟩
    simp only [Runs.run, CacheAside.step, hlookup, Option.bind_some]
    rfl

/-- An insert that nothing comes between takes these steps. -/
theorem handleAdminInsertRequest_steps (mem : ℕ → Uninit) (s : Server) (word korean : Param 256) :
    ∃ events writers, Runs.run dictStep ⟨s.engine, s.cache, [], []⟩ events =
      some ⟨(handleAdminInsertRequest mem s word korean).2.engine,
        (handleAdminInsertRequest mem s word korean).2.cache, [], writers⟩ := by
  unfold handleAdminInsertRequest
  rcases hwrite : insertWord mem s.engine word korean with ⟨_ | ⟨_ | _, outcomes⟩, e⟩
  · refine ⟨[.write word (mem, korean)], [], ?_⟩
    simp only [Runs.run, CacheAside.step, dictWrite, hwrite, Option.bind_some]
    rfl
  · refine ⟨[.write word (mem, korean)], [], ?_⟩
    simp only [Runs.run, CacheAside.step, dictWrite, hwrite, Option.bind_some]
    rfl
  · refine ⟨[.write word (mem, korean), .invalidate 0, .reply 0],
      [⟨word, ((e.storage.translations word.1).bind (·.getLast?)).getD [], .replied 0⟩], ?_⟩
    simp only [Runs.run, CacheAside.step, dictWrite, hwrite, Option.map_some, Option.toList_some,
      List.nil_append, List.getElem?_cons_zero, List.set_cons_zero, Option.bind_some]
    rfl

/-- **As long as no lookup caches what it has read before an insert of its word behind the
invalidation of this insert, and the dictionary can be searched and written, every lookup that
starts after the reply to an insert returns the row that was inserted.** -/
theorem dict_answer_of_run {files : Path → Option CStr} {cache : DictCache (List Outcome)}
    {events : List DictEvent}
    (hallowed : Runs.Meets dictStep (Allowed CanRead CanWrite) (dictStart files cache) events)
    {s : DictState}
    (hrun : Runs.run dictStep (dictStart files cache) events = some s) {g p n : ℕ} {word : Param 256}
    {answer : Option (List Outcome)} {korean : CStr}
    (hget : s.readers[g]? = some ⟨word, .done answer⟩)
    (hpost : s.writers[p]? = some ⟨word, korean, .replied n⟩) (hafter : n ≤ g) :
    ∃ outcomes, answer = some outcomes ∧ ContainsRow outcomes korean := by
  have hstart : ServesWords (engineInit files) := fun hready =>
    ⟨serves_engineInit hready, goodWords_engineInit hready⟩
  exact answer_of_run dictLaws hstart hallowed hrun hget hpost hafter

instance (st : Storage) (word : CStr) : Decidable (st.FindsWord word) :=
  inferInstanceAs (Decidable (∀ d ∈ st.dictionaryRows, _ ∧ ∀ row ∈ d.2,
    ∃ m ∈ evaluateSelectClause d.1 row (wordClause word),
      ∀ i ∈ findSchemaIndex d.1 "english".toList, row[i]? = some word → m = true))

instance (e : Engine) (word : Param 256) (mem : ℕ → Uninit) : Decidable (CanRead e word mem) :=
  inferInstanceAs (Decidable (_ → _))

instance (e : Engine) (word : Param 256) (input : (ℕ → Uninit) × Param 256) :
    Decidable (CanWrite e word input) :=
  inferInstanceAs (Decidable (∀ file ∈ e.storage.content dictionaryName, EndsRecord file))

/-- The word and the translation of an insert. -/
def dog : Param 256 := ⟨"dog".toList, by decide⟩
def gae : Param 256 := ⟨"gae".toList, by decide⟩

/-- An insert, and then a lookup. -/
def insertThenLookup : List DictEvent :=
  [.write dog (fun _ => .zero, gae), .invalidate 0, .reply 0, .lookup dog, .read 0 (fun _ => .zero),
    .put 0]

/-- A lookup that is overtaken by an insert, and then another one. -/
def overtakenLookup : List DictEvent :=
  [.lookup dog, .read 0 (fun _ => .zero), .write dog (fun _ => .zero, gae), .invalidate 0, .reply 0,
    .put 0, .lookup dog]

omit [CDouble]

/-- A lookup behind an insert returns the inserted row. -/
theorem dict_answer_dog : ∃ outcomes,
    ((Runs.run (@dictStep .whole) (@dictStart .whole (fun _ => none) (.create 1024)) insertThenLookup).bind
      fun s => s.readers[0]?).map (·.phase) = some (.done (some outcomes)) ∧
    ContainsRow outcomes "gae".toList := by
  obtain ⟨s, hrun⟩ : ∃ s, Runs.run (@dictStep .whole)
      (@dictStart .whole (fun _ => none) (.create 1024)) insertThenLookup = some s :=
    Option.isSome_iff_exists.mp (by decide +kernel)
  have hposts : (Runs.run (@dictStep .whole) (@dictStart .whole (fun _ => none) (.create 1024))
      insertThenLookup).bind (fun s => s.writers[0]?) = some ⟨dog, "gae".toList, .replied 0⟩ := by
    decide +kernel
  have hgets : (Runs.run (@dictStep .whole) (@dictStart .whole (fun _ => none) (.create 1024))
      insertThenLookup).bind (fun s => s.readers[0]?) =
        some ⟨dog, .done (some [.rows .scan ⟨["korean".toList], [["gae".toList]]⟩])⟩ := by
    decide +kernel
  rw [hrun] at hposts hgets ⊢
  obtain ⟨outcomes, houtcomes, hrow⟩ := @dict_answer_of_run .whole (fun _ => none) (.create 1024)
    insertThenLookup (by decide +kernel) s hrun 0 0 0 dog _ "gae".toList hgets hposts le_rfl
  refine ⟨outcomes, ?_, hrow⟩
  rw [hgets, houtcomes]
  rfl

/-- A lookup that misses and reads before an insert and caches behind its reply: the next lookup
does not return the inserted row. -/
theorem dict_answer_stale :
    ((Runs.run (@dictStep .whole) (@dictStart .whole (fun _ => none) (.create 1024))
      overtakenLookup).map fun s => (s.readers[1]?, s.writers[0]?)) =
      some (some ⟨dog, .done (some [.rows .scan ⟨["korean".toList], []⟩])⟩,
        some ⟨dog, "gae".toList, .replied 1⟩) ∧
    ¬ ContainsRow [.rows .scan ⟨["korean".toList], []⟩] "gae".toList := by
  refine ⟨by decide +kernel, ?_⟩
  rintro ⟨path, rs, hrows, hmem⟩
  obtain ⟨-, rfl⟩ := Outcome.rows.inj (List.singleton_inj.mp hrows)
  exact absurd hmem (by simp)

end MiniSql
