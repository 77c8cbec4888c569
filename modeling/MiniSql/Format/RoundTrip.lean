import MiniSql.Format.Survival

/-!
# Parsing a printed statement

A statement whose text is printed and parsed again comes back exactly when it is one of those of
`Statement.Survives`. Both parses may see other memory behind a full array.

## Main definitions

* `RoundTrips` — the printed text is parsed to the same `ParsedSQL`.

## Main results

* `roundTrips_iff` — the statements that come back.
-/

namespace MiniSql
open CText

namespace Grammar

/-- Parsing, printing and parsing again gives the first `ParsedSQL`. -/
def RoundTrips (s : CStr) : Prop :=
  ∀ (mem mem' : Uninit) (sql : ParsedSQL), parseSql mem s = some sql →
    parseSql mem' (printFormat sql) = some sql

/-! ## The columns of a `CREATE` -/

/-- What the parser finds in the printed columns. -/
def readDefs (defs : List (Name × Name)) : List (CStr × CStr) :=
  colDefLoop (commaTokens (defs.map defTokens) ++ [[')'], [';']])

theorem parse_create (table : Name) (defs : List (Name × Name)) (mem : Uninit) :
    parseTokens mem (printedTokens (Statement.create table defs).stored) =
      some { (Statement.create table defs).stored with
        colDefs := (readDefs defs).map colDefText } := by
  have hdefs : (defs.map fun d => colDefText (d.1.text, d.2.text)).map tokenize =
      defs.map defTokens := by
    rw [List.map_map]
    exact List.map_congr_left fun d _ => (lexes_colDefText d).tokenize
  have hprinted : printedTokens (Statement.create table defs).stored =
      ["CREATE".toList, "TABLE".toList, table.text.take 63, ['(']] ++
        (commaTokens (defs.map defTokens) ++ [[')'], [';']]) := by
    rw [← hdefs]
    rfl
  have htable : (table.text.take 63).take 63 = table.text.take 63 := by
    rw [List.take_take, min_self]
  rw [hprinted]
  change some (parseCreate ("TABLE".toList :: table.text.take 63 :: ['('] ::
    (commaTokens (defs.map defTokens) ++ [[')'], [';']])) parsedNew) = _
  rw [parseCreate]
  dsimp only
  rw [declaredColumns, matchTok_ieq (by decide)]
  dsimp only
  rw [matchTok_ieq (by decide), Option.map_some, Option.getD_some, htable]
  rfl

theorem Name.not_comma (n : Name) : ieq n.text [','] = false := by
  by_contra h
  have hmap := equalsIgnoreCase_iff.mp (Bool.not_eq_false _ ▸ h)
  obtain ⟨c, hc⟩ : ∃ c, n.text = [c] := List.length_eq_one_iff.mp (by
    have := congrArg List.length hmap
    simpa using this)
  rw [hc, List.map_singleton, List.map_singleton, List.cons.injEq] at hmap
  have hword := n.word c (by simp [hc])
  have hlower : c.toLower = ',' := hmap.1
  by_cases hupper : c.val ≥ 'A'.val ∧ c.val ≤ 'Z'.val
  · have hval : (c.val + ('a'.val - 'A'.val)).toNat = 44 := by
      have hdef : c.toLower.val = c.val + ('a'.val - 'A'.val) := by
        delta Char.toLower
        rw [dif_pos hupper]
      rw [← hdef, hlower]
      rfl
    rw [UInt32.toNat_add] at hval
    have hlow := UInt32.le_iff_toNat_le.mp hupper.1
    have hhigh := UInt32.le_iff_toNat_le.mp hupper.2
    simp at hval hlow hhigh
    omega
  · have hsame : c.toLower = c := dif_neg hupper
    obtain rfl : c = ',' := hsame.symm.trans hlower
    exact absurd hword (by decide)

theorem defTokens_eq (d : Name × Name) : ∃ ts, defTokens d = (d.1.cut 159 (by decide)).text :: ts := by
  unfold defTokens
  split_ifs with h
  · have hcut : (d.1.cut 159 (by decide)).text = d.1.text := List.take_of_length_le (by omega)
    exact ⟨[d.2.text.take (158 - d.1.text.length)], by rw [hcut]⟩
  · exact ⟨[], rfl⟩

/-- A name that leaves no room for the type takes the comma for the type, and the list ends. -/
theorem readDefs_of_full {d e : Name × Name} {defs : List (Name × Name)}
    (h : ¬ d.1.text.length ≤ 157) : (readDefs (d :: e :: defs)).length = 1 := by
  have hd : d.1.text.take 159 ≠ [')'] := (d.1.cut 159 (by decide)).ne_close
  obtain ⟨ts, hts⟩ : ∃ ts, commaTokens ((e :: defs).map defTokens) ++ [[')'], [';']] =
      (e.1.cut 159 (by decide)).text :: ts := by
    obtain ⟨us, hus⟩ := defTokens_eq e
    cases defs with
    | nil => exact ⟨us ++ [[')'], [';']], by simp [commaTokens, hus]⟩
    | cons e' defs =>
      exact ⟨us ++ [','] :: commaTokens ((e' :: defs).map defTokens) ++ [[')'], [';']],
        by simp [commaTokens, hus]⟩
  rw [readDefs, List.map_cons, List.map_cons, defTokens, if_neg h]
  change (colDefLoop (d.1.text.take 159 :: [','] ::
    (commaTokens ((e :: defs).map defTokens) ++ [[')'], [';']]))).length = 1
  rw [hts, colDefLoop, if_neg hd, if_neg (by rw [Name.not_comma]; decide)]
  rfl

/-- A name with room for its type, and what follows the comma. -/
theorem readDefs_cons {d e : Name × Name} {defs : List (Name × Name)}
    (h : d.1.text.length ≤ 157) : readDefs (d :: e :: defs) =
      (d.1.text, d.2.text.take (158 - d.1.text.length)) :: readDefs (e :: defs) := by
  rw [readDefs, List.map_cons, List.map_cons, defTokens, if_pos h]
  change colDefLoop (d.1.text :: d.2.text.take (158 - d.1.text.length) :: [','] ::
    (commaTokens ((e :: defs).map defTokens) ++ [[')'], [';']])) = _
  rw [colDefLoop, if_neg d.1.ne_close, if_pos (by decide)]
  rfl

theorem colDefText_cut {d : Name × Name} (h : d.1.text.length ≤ 157) :
    colDefText (d.1.text, d.2.text.take (158 - d.1.text.length)) =
      colDefText (d.1.text, d.2.text) := by
  obtain ⟨n, t⟩ := d
  dsimp only at h
  obtain ⟨k, hk⟩ : ∃ k, 159 - n.text.length = k + 1 := ⟨158 - n.text.length, by omega⟩
  have hk' : 158 - n.text.length = k := by omega
  simp only [colDefText, List.take_append, hk, hk', List.take_succ_cons, List.take_take, min_self]

/-- Of one column, the name and as much of the type as there is room for come back. -/
theorem readDefs_singleton (d : Name × Name) :
    (readDefs [d]).map colDefText = [colDefText (d.1.text, d.2.text)] := by
  rw [readDefs, List.map_singleton, commaTokens, defTokens]
  split_ifs with h
  · change (colDefLoop [d.1.text, d.2.text.take (158 - d.1.text.length), [')'], [';']]).map _ = _
    rw [colDefLoop, if_neg d.1.ne_close, if_neg (by decide), List.map_singleton, colDefText_cut h]
  · have hd : d.1.text.take 159 ≠ [')'] := (d.1.cut 159 (by decide)).ne_close
    change (colDefLoop [d.1.text.take 159, [')'], [';']]).map _ = _
    rw [colDefLoop, if_neg hd, if_neg (by decide), List.map_singleton]
    obtain ⟨n, t⟩ := d
    simp only [colDefText, List.cons.injEq, and_true]
    dsimp only at h
    rcases Nat.lt_or_ge 158 n.text.length with hlen | hlen
    · rw [List.take_append_of_le_length (by simp; omega), List.take_append_of_le_length (by omega),
        List.take_take, min_self]
    · have hone : 159 - n.text.length = 1 := by omega
      rw [List.take_of_length_le (l := n.text) (by omega), List.take_append, List.take_append, hone]
      rfl

/-- The columns come back exactly when each one but the last has room for its type. -/
theorem readDefs_iff (defs : List (Name × Name)) :
    (readDefs defs).map colDefText = defs.map (fun d => colDefText (d.1.text, d.2.text)) ↔
      ∀ d ∈ defs.dropLast, d.1.text.length ≤ 157 := by
  induction defs with
  | nil => simp [readDefs, commaTokens, colDefLoop]
  | cons d defs ih =>
    cases defs with
    | nil => simp [readDefs_singleton]
    | cons e defs =>
      by_cases h : d.1.text.length ≤ 157
      · rw [readDefs_cons h, List.map_cons, List.map_cons, colDefText_cut h, List.cons.injEq, ih,
          List.dropLast_cons_cons]
        simp [h]
      · refine iff_of_false (fun heq => ?_) fun hall => h (hall d (by simp))
        have hlen := congrArg List.length heq
        rw [List.length_map, readDefs_of_full h] at hlen
        simp at hlen

/-! ## What a parse in zeroed memory gives -/

/-- A condition whose fields fit, with a value made of one of the tokens. -/
structure CondFrom (ts : List CStr) (w : WhereClause) : Prop where
  column : w.column.length ≤ 63
  valueTo : w.valueTo.length ≤ 255
  value : ∃ t ∈ ts, w.value = t.take 255

structure SetFrom (ts : List CStr) (s : SetClause) : Prop where
  column : s.column.length ≤ 63
  value : ∃ t ∈ ts, s.value = t.take 255

theorem CondFrom.mono {ts us : List CStr} {w : WhereClause} (h : CondFrom ts w) (hsub : ts ⊆ us) :
    CondFrom us w := by
  obtain ⟨t, ht, hvalue⟩ := h.value
  exact ⟨h.column, h.valueTo, t, hsub ht, hvalue⟩

theorem whereClause_from {ts : List CStr} {val : CStr} (hval : val ∈ ts) (i : ℕ) (col op : CStr) :
    CondFrom ts (whereClause Uninit.zero i col op val) := by
  refine ⟨?_, by simp [whereClause], val, hval, by simp [whereClause, Uninit.zero]⟩
  simp [whereClause, Uninit.zero]

theorem betweenClause_from {ts : List CStr} {val : CStr} (hval : val ∈ ts) (i : ℕ)
    (col high : CStr) : CondFrom ts (betweenClause Uninit.zero i col val high) := by
  refine ⟨?_, ?_, val, hval, by simp [betweenClause, Uninit.zero]⟩
  · simp [betweenClause, Uninit.zero]
  · simp [betweenClause, Uninit.zero]

theorem readCondition_from {i : ℕ} {ts rest : List CStr} {w : WhereClause} {more : Bool}
    (h : readCondition Uninit.zero i ts = some (w, more, rest)) : CondFrom ts w ∧ rest ⊆ ts := by
  unfold readCondition at h
  split at h
  · rename_i col op val ts'
    have hval : val ∈ col :: op :: val :: ts' := by simp
    split_ifs at h with hbetween
    · split at h
      · rename_i andTok high ts''
        split_ifs at h with hand
        · obtain ⟨rfl, -, rfl⟩ := by simpa using h
          exact ⟨betweenClause_from hval .., fun t ht => by simp [ht]⟩
        · obtain ⟨rfl, -, rfl⟩ := by simpa using h
          exact ⟨whereClause_from hval .., fun t ht => by simp [ht]⟩
      · obtain ⟨rfl, -, rfl⟩ := by simpa using h
        exact ⟨whereClause_from hval .., by simp⟩
    · obtain ⟨rfl, -, rfl⟩ := by simpa using h
      exact ⟨whereClause_from hval .., fun t ht => by simp [ht]⟩
  · exact absurd h (by simp)

theorem parseWhereLoop_from {n : ℕ} {ts : List CStr} {ws : List WhereClause} {links : List CStr} :
    ∀ w ∈ (parseWhereLoop Uninit.zero n ts ws links).1, w ∈ ws ∨ CondFrom ts w := by
  induction n generalizing ts ws links with
  | zero => exact fun w hw => Or.inl hw
  | succ n ih =>
    have hadd : ∀ {w w' : WhereClause} {more : Bool} {rest : List CStr},
        readCondition Uninit.zero ws.length ts = some (w, more, rest) → w' ∈ ws ++ [w] →
        w' ∈ ws ∨ CondFrom ts w' := by
      intro w w' more rest hread hw'
      rcases List.mem_append.mp hw' with hw' | hw'
      · exact Or.inl hw'
      · obtain rfl := List.mem_singleton.mp hw'
        exact Or.inr (readCondition_from hread).1
    rw [parseWhereLoop]
    split
    · exact fun w hw => Or.inl hw
    · rename_i w ts' hread
      exact fun w' hw' => hadd hread hw'
    · rename_i w hread
      exact fun w' hw' => hadd hread hw'
    · rename_i w l ts' hread
      have hsub : ts' ⊆ ts :=
        List.Subset.trans (List.subset_cons_self l ts') (readCondition_from hread).2
      by_cases hlink : (ieq l "AND".toList || ieq l "OR".toList) = true
      · rw [if_pos hlink]
        intro w' hw'
        rcases ih w' hw' with hw' | hw'
        · exact hadd hread hw'
        · exact Or.inr (hw'.mono hsub)
      · rw [if_neg hlink]
        exact fun w' hw' => hadd hread hw'

theorem parseOptWhere_from {ts : List CStr} {sql : ParsedSQL} (hsql : sql.conds = []) :
    ∀ w ∈ (parseOptWhere Uninit.zero ts sql).1.conds, CondFrom ts w := by
  unfold parseOptWhere
  split
  · rename_i ts' hmatch
    intro w hw
    have hloop := parseWhereLoop_from w hw
    exact (hloop.resolve_left (by simp)).mono (matchTok_subset hmatch)
  · rw [hsql]
    simp

theorem setLoop_from (i : ℕ) (ts : List CStr) :
    (∀ s ∈ (setLoop Uninit.zero i ts).1, SetFrom ts s) ∧ (setLoop Uninit.zero i ts).2 ⊆ ts := by
  have hset : ∀ (i : ℕ) {col val : CStr} {ts : List CStr}, val ∈ ts →
      SetFrom ts (setClause Uninit.zero i col val) := by
    intro i col val ts hval
    refine ⟨?_, val, hval, ?_⟩
    · simp [setClause, Uninit.zero]
    · simp [setClause, Uninit.zero]
  fun_induction setLoop Uninit.zero i ts with
  | case1 => simp
  | case2 => simp
  | case3 i col hend op val s ts' hs ih =>
    have hsub : ts' ⊆ col :: op :: val :: s :: ts' := fun t ht => by simp [ht]
    refine ⟨fun set hmem => ?_, List.Subset.trans ih.2 hsub⟩
    rcases List.mem_cons.mp hmem with rfl | hmem
    · exact hset i (by simp)
    · obtain ⟨hcolumn, t, ht, hvalue⟩ := ih.1 set hmem
      exact ⟨hcolumn, t, hsub ht, hvalue⟩
  | case4 i col hend op val s ts' hs =>
    refine ⟨fun set hmem => ?_, fun t ht => by simp only [List.mem_cons] at ht ⊢; tauto⟩
    obtain rfl := List.mem_singleton.mp hmem
    exact hset i (by simp)
  | case5 i col hend op val =>
    refine ⟨fun set hmem => ?_, by simp⟩
    obtain rfl := List.mem_singleton.mp hmem
    exact hset i (by simp)
  | case6 => simp

theorem callArgs_subset (ts : List CStr) (buf : CStr) : (callArgs ts buf).2 ⊆ ts := by
  induction ts generalizing buf with
  | nil => simp [callArgs]
  | cons t ts ih =>
    rw [callArgs]
    split_ifs
    · exact List.subset_cons_self t ts
    · exact List.Subset.refl _
    · exact List.subset_cons_of_subset t (ih _)

theorem selectColumn_subset (first : CStr) (ts : List CStr) : (selectColumn first ts).2 ⊆ ts := by
  unfold selectColumn
  split
  · split_ifs
    · exact List.subset_cons_of_subset _ (callArgs_subset _ _)
    · exact List.Subset.refl _
  · exact List.Subset.refl _

theorem selectColumnsLoop_subset (n : ℕ) (ts : List CStr) : (selectColumnsLoop n ts).2 ⊆ ts := by
  induction n generalizing ts with
  | zero => exact List.Subset.refl _
  | succ n ih =>
    cases ts with
    | nil => exact List.Subset.refl _
    | cons first ts =>
      rw [selectColumnsLoop]
      split_ifs
      · exact List.Subset.refl _
      · have hcol := List.subset_cons_of_subset first (selectColumn_subset first ts)
        dsimp only
        split
        · rename_i ts₂ hmatch
          exact List.Subset.trans (ih ts₂) (List.Subset.trans (matchTok_subset hmatch) hcol)
        · exact hcol

theorem sets_parseOptWhere (mem : Uninit) (ts : List CStr) (sql : ParsedSQL) :
    (parseOptWhere mem ts sql).1.sets = sql.sets := by
  obtain ⟨conds, links, logic, h⟩ := parseOptWhere_fields mem ts sql
  rw [h]

theorem sets_parseOrderBy (ts : List CStr) (sql : ParsedSQL) :
    (parseOrderBy ts sql).1.sets = sql.sets := by
  obtain ⟨order, h⟩ := parseOrderBy_fields ts sql
  rw [h]

theorem sets_parseLimit (ts : List CStr) (sql : ParsedSQL) :
    (parseLimit ts sql).sets = sql.sets := by
  obtain ⟨limit, h⟩ := parseLimit_fields ts sql
  rw [h]

/-- The conditions and the assignments are made of tokens. -/
structure ClausesFrom (ts : List CStr) (sql : ParsedSQL) : Prop where
  conds : ∀ w ∈ sql.conds, CondFrom ts w
  sets : ∀ s ∈ sql.sets, SetFrom ts s

theorem ClausesFrom.mono {ts us : List CStr} {sql : ParsedSQL} (h : ClausesFrom ts sql)
    (hsub : ts ⊆ us) : ClausesFrom us sql := by
  refine ⟨fun w hw => (h.conds w hw).mono hsub, fun s hs => ?_⟩
  obtain ⟨hcolumn, t, ht, hvalue⟩ := h.sets s hs
  exact ⟨hcolumn, t, hsub ht, hvalue⟩

theorem clausesFrom_of_nil {ts : List CStr} {sql : ParsedSQL} (hconds : sql.conds = [])
    (hsets : sql.sets = []) : ClausesFrom ts sql := by
  refine ⟨?_, ?_⟩
  · simp [hconds]
  · simp [hsets]

theorem parseSelect_from (ts : List CStr) :
    ClausesFrom ts (parseSelect Uninit.zero ts parsedNew) := by
  unfold parseSelect
  dsimp only
  split
  · exact clausesFrom_of_nil rfl rfl
  · rename_i ts₂ hfrom
    have hsub : ts₂.tail ⊆ ts := fun t ht =>
      selectColumnsLoop_subset _ ts (matchTok_subset hfrom (List.mem_of_mem_tail ht))
    refine ⟨?_, ?_⟩
    · rw [parseLimit_conds, parseOrderBy_conds]
      exact fun w hw => (parseOptWhere_from rfl w hw).mono hsub
    · rw [sets_parseLimit, sets_parseOrderBy, sets_parseOptWhere]
      simp [parsedNew]

theorem parseDelete_from (ts : List CStr) :
    ClausesFrom ts (parseDelete Uninit.zero ts parsedNew) := by
  unfold parseDelete
  dsimp only
  split
  · exact clausesFrom_of_nil rfl rfl
  · rename_i ts₁ hfrom
    have hsub : ts₁.tail ⊆ ts := fun t ht => matchTok_subset hfrom (List.mem_of_mem_tail ht)
    refine ⟨fun w hw => (parseOptWhere_from rfl w hw).mono hsub, ?_⟩
    rw [sets_parseOptWhere]
    simp [parsedNew]

theorem parseUpdate_from (ts : List CStr) :
    ClausesFrom ts (parseUpdate Uninit.zero ts parsedNew) := by
  unfold parseUpdate
  dsimp only
  split
  · exact clausesFrom_of_nil rfl rfl
  · rename_i ts₁ hset
    have hsub : ts₁ ⊆ ts := fun t ht => List.mem_of_mem_tail (matchTok_subset hset ht)
    obtain ⟨hsets, hrest⟩ := setLoop_from 0 ts₁
    refine ClausesFrom.mono ⟨fun w hw => (parseOptWhere_from rfl w hw).mono hrest, ?_⟩ hsub
    rw [sets_parseOptWhere]
    exact hsets

/-- Where the conditions and the assignments of a statement come from. -/
theorem parseTokens_from {ts : List CStr} {sql : ParsedSQL}
    (h : parseTokens Uninit.zero ts = some sql) : ClausesFrom ts sql := by
  cases ts with
  | nil => exact absurd h (by simp [parseTokens])
  | cons kw ts =>
    rw [parseTokens, Option.some.injEq] at h
    rw [← h]
    have hsub : ts ⊆ kw :: ts := List.subset_cons_self kw ts
    split_ifs
    · exact clausesFrom_of_nil (by unfold parseCreate; dsimp only; split <;> rfl)
        (by unfold parseCreate; dsimp only; split <;> rfl)
    · have hfields : (parseInsert ts parsedNew).conds = [] ∧
          (parseInsert ts parsedNew).sets = [] := by
        unfold parseInsert
        dsimp only
        split
        · exact ⟨rfl, rfl⟩
        · exact ⟨rfl, rfl⟩
        · split
          · exact ⟨rfl, rfl⟩
          · split <;> exact ⟨rfl, rfl⟩
      exact clausesFrom_of_nil hfields.1 hfields.2
    · exact (parseSelect_from ts).mono hsub
    · exact (parseDelete_from ts).mono hsub
    · exact (parseUpdate_from ts).mono hsub
    · exact clausesFrom_of_nil rfl rfl

/-! ## Full arrays are lost -/

/-- Memory without a NUL behind the arrays. -/
def dirty : Uninit :=
  ⟨fun _ => 'x', fun _ => 'x', fun _ => 'x', fun _ => 'x', fun _ => [], fun _ => 'x', fun _ => 'x',
    fun _ => []⟩

theorem length_of_cField_le (size : ℕ) {token behind : CStr}
    (h : (cField size token 'x' behind).length ≤ size - 1) : token.length < size - 1 := by
  by_contra hlen
  have hx : cstr ('x' :: behind) = 'x' :: cstr behind := rfl
  rw [cField, if_neg hlen, hx, List.length_append, List.length_take_of_le (Nat.not_lt.mp hlen),
    List.length_cons] at h
  omega

theorem CondFrom.fits {ts : List CStr} {c : Cond} {i : ℕ} (h : CondFrom ts (c.clause dirty i)) :
    c.Fits := by
  obtain ⟨t, -, hvalue⟩ := h.value
  have hlen : (c.clause dirty i).value.length ≤ 255 := by
    rw [hvalue]
    exact List.length_take_le 255 t
  cases c with
  | compare column op value =>
    exact ⟨Nat.le_of_lt_succ (length_of_cField_le 64 h.column),
      Nat.le_of_lt_succ (length_of_cField_le 256 hlen)⟩
  | between column low high =>
    exact ⟨Nat.le_of_lt_succ (length_of_cField_le 64 h.column),
      Nat.le_of_lt_succ (length_of_cField_le 256 hlen),
      Nat.le_of_lt_succ (length_of_cField_le 256 h.valueTo)⟩

theorem SetFrom.fits {ts : List CStr} {s : Name × Literal} {i : ℕ}
    (h : SetFrom ts (setClause dirty i s.1.text s.2.text)) : SetFits i s := by
  by_cases hi : i < 4
  · exact Or.inl hi
  · obtain ⟨t, -, hvalue⟩ := h.value
    have hlen : (setClause dirty i s.1.text s.2.text).value.length ≤ 255 := by
      rw [hvalue]
      exact List.length_take_le 255 t
    have hcolumn := h.column
    simp only [setClause, if_neg hi, dirty] at hlen hcolumn
    exact Or.inr ⟨Nat.le_of_lt_succ (length_of_cField_le 64 hcolumn),
      Nat.le_of_lt_succ (length_of_cField_le 256 hlen)⟩

theorem conds_fit {ts : List CStr} {conds : Option Where} {sql : ParsedSQL}
    (h : ClausesFrom ts (withWhere dirty conds sql)) : ∀ w ∈ conds, ∀ c ∈ w.conds, c.Fits := by
  intro w hw c hc
  obtain rfl := Option.mem_def.mp hw
  have hclause : ∀ (cs : List Cond) (i : ℕ), (∀ x ∈ clauses dirty i cs, CondFrom ts x) →
      ∀ d ∈ cs, d.Fits := by
    intro cs
    induction cs with
    | nil => simp
    | cons d cs ih =>
      intro i hall e he
      rcases List.mem_cons.mp he with rfl | he
      · exact (hall (e.clause dirty i) (by simp [clauses])).fits
      · exact ih (i + 1) (fun x hx => hall x (by simp [clauses, hx])) e he
  exact hclause w.conds 0 h.conds c hc

theorem sets_fit {ts : List CStr} {sets : List (Name × Literal)} {i : ℕ}
    (h : ∀ s ∈ setClauses dirty i sets, SetFrom ts s) : SetsFit i sets := by
  induction sets generalizing i with
  | nil => trivial
  | cons s sets ih =>
    exact ⟨(h _ (by simp [setClauses])).fits, ih fun x hx => h x (by simp [setClauses, hx])⟩

/-- In memory that is not zeroed, the fields have to leave room for a NUL. -/
theorem Statement.fits_of_parse {st : Statement} {ts : List CStr}
    (h : ClausesFrom ts (st.parsed dirty)) : st.Fits := by
  cases st with
  | create table defs => trivial
  | insert table columns values => trivial
  | select columns table conds order limit => exact conds_fit h
  | delete table conds => exact conds_fit h
  | update table sets conds =>
    refine ⟨?_, conds_fit h⟩
    cases conds <;> exact sets_fit h.sets

/-! ## Values that are not safe are lost -/

theorem Name.plain (n : Name) : Plain n.text := Or.inl n.word

theorem Operator.plain (op : Operator) : Plain op.text := by
  have hsymbol : ∀ t ∈ ["=".toList, ">".toList, "<".toList, ">=".toList, "<=".toList, "!=".toList],
      Plain t := by
    simp only [List.mem_cons, List.not_mem_nil, or_false]
    rintro t (rfl | rfl | rfl | rfl | rfl | rfl) <;> exact Or.inr (by simp)
  rcases op.known with h | h
  · exact hsymbol _ h
  · refine Or.inl fun c hc => ?_
    have hmem : c.toLower ∈ "LIKE".toList.map Char.toLower :=
      equalsIgnoreCase_iff.mp h ▸ List.mem_map_of_mem hc
    have halpha : c.toLower.isAlpha = true := by
      simp only [List.mem_map] at hmem
      obtain ⟨d, hd, hcd⟩ := hmem
      have hall : "LIKE".toList.all (fun d => d.toLower.isAlpha) = true := by decide
      exact hcd ▸ List.all_eq_true.mp hall d hd
    simp [isWordChar, Char.isAlphanum, isAlpha_of_toLower halpha]

theorem steady_whereTokens {conds : Option Where} {sql : ParsedSQL} (hsql : sql.conds = []) :
    ∀ t ∈ whereTokens (withWhere Uninit.zero conds sql), Steady t := by
  intro t ht
  cases conds with
  | none =>
    have hnil : whereTokens (withWhere Uninit.zero none sql) = [] := if_pos hsql
    rw [hnil] at ht
    exact absurd ht (by simp)
  | some w =>
    rw [whereTokens, conds_withWhere, if_neg (List.cons_ne_nil _ _)] at ht
    have hall : ∀ w' ∈ w.first.stored :: w.rest.map fun c => c.2.stored,
        ∃ c : Cond, w' = c.stored := by
      intro w' hw'
      rcases List.mem_cons.mp hw' with rfl | hw'
      · exact ⟨w.first, rfl⟩
      · obtain ⟨c, -, rfl⟩ := List.mem_map.mp hw'
        exact ⟨c.2, rfl⟩
    rcases List.mem_cons.mp ht with rfl | ht
    · exact steady_keyword "WHERE".toList (by decide)
    · rcases mem_condTokens ht with rfl | rfl | ⟨w', hw', ht⟩
      · exact steady_keyword "OR".toList (by decide)
      · exact steady_keyword "AND".toList (by decide)
      · obtain ⟨c, rfl⟩ := hall w' hw'
        cases c with
        | compare column op value =>
          rcases ht with rfl | rfl | ht
          · exact Plain.steady (column.cut 63 (by decide)).plain
          · exact Plain.steady op.plain
          · exact safe_take_of_mem_valueTokens
              ⟨(value.cut 255).no_single, (value.cut 255).no_double⟩ (List.length_take_le _ _) ht
        | between column low high =>
          rcases ht with rfl | rfl | ht
          · exact Plain.steady (column.cut 63 (by decide)).plain
          · exact steady_keyword "BETWEEN".toList (by decide)
          · exact safe_take_of_mem_valueTokens
              ⟨(low.cut 255).no_single, (low.cut 255).no_double⟩ (List.length_take_le _ _) ht

theorem mem_commaTokens {xs : List (List CStr)} {t : CStr} (h : t ∈ commaTokens xs) :
    t = [','] ∨ ∃ x ∈ xs, t ∈ x := by
  induction xs with
  | nil => exact absurd h (by simp [commaTokens])
  | cons x xs ih =>
    cases xs with
    | nil => exact Or.inr ⟨x, by simp, h⟩
    | cons y xs =>
      rw [commaTokens] at h
      rcases List.mem_append.mp h with h | h
      · exact Or.inr ⟨x, by simp, h⟩
      · rcases List.mem_cons.mp h with rfl | h
        · exact Or.inl rfl
        · obtain h | ⟨z, hz, h⟩ := ih h
          · exact Or.inl h
          · exact Or.inr ⟨z, List.mem_cons_of_mem x hz, h⟩

theorem Column.no_quotes (c : Column) : '\'' ∉ c.text ∧ '"' ∉ c.text := by
  have hname : ∀ n : Name, '\'' ∉ n.text ∧ '"' ∉ n.text := fun n =>
    ⟨fun h => absurd (n.word _ h) (by decide), fun h => absurd (n.word _ h) (by decide)⟩
  have harg : ∀ arg : Option Name, '\'' ∉ (arg.map Name.text).getD ['*'] ∧
      '"' ∉ (arg.map Name.text).getD ['*'] := by
    intro arg
    cases arg with
    | none => decide
    | some n => exact hname n
  cases c with
  | star => decide
  | name n =>
    exact ⟨fun h => (hname n).1 (List.mem_of_mem_take h),
      fun h => (hname n).2 (List.mem_of_mem_take h)⟩
  | call f arg =>
    obtain ⟨hf, hf'⟩ := hname f
    obtain ⟨ha, ha'⟩ := harg arg
    refine ⟨fun h => ?_, fun h => ?_⟩
    · have := List.mem_of_mem_take h
      simp [hf, ha] at this
    · have := List.mem_of_mem_take h
      simp [hf', ha'] at this

theorem steady_intText {n : ℤ} (hn : 0 ≤ n) : Steady (intText n) := by
  have htext : intText n = Nat.toDigits 10 n.natAbs := if_neg (by omega)
  refine Plain.steady (Or.inl fun c hc => ?_)
  rw [htext] at hc
  simp [isWordChar, Char.isAlphanum, isDigit_of_mem_toDigits hc]

theorem steady_single {c : Char} (h : c.isDigit = false ∧ c ≠ '+') : Steady [c] := by
  refine Plain.steady (Or.inr fun d hd => ?_)
  obtain rfl : c = d := by simpa using hd
  exact h

theorem steady_select (columns : List Column) (table : Name) (conds : Option Where)
    (order : Option Order) (limit : Option CStr) :
    ∀ t ∈ printedTokens (Statement.select columns table conds order limit).stored, Steady t := by
  intro t ht
  rw [printedTokens_select] at ht
  simp only [List.mem_append, List.mem_cons, List.not_mem_nil, or_false] at ht
  rcases ht with rfl | ht | (rfl | rfl) | ht | ht | ht | rfl
  · exact steady_keyword "SELECT".toList (by decide)
  · rcases mem_commaTokens ht with rfl | ⟨ts, hts, ht⟩
    · exact steady_single (by decide)
    · obtain ⟨text, htext, rfl⟩ := List.mem_map.mp hts
      obtain ⟨c, -, rfl⟩ := List.mem_map.mp htext
      exact Plain.steady (plain_of_mem_tokenize c.no_quotes ht)
  · exact steady_keyword "FROM".toList (by decide)
  · exact Plain.steady (table.cut 63 (by decide)).plain
  · exact steady_whereTokens rfl t ht
  · cases order with
    | none => exact absurd ht (by simp)
    | some o =>
      simp only [Option.map_some, Option.getD_some, orderTokens, List.mem_cons, List.not_mem_nil,
        or_false] at ht
      rcases ht with rfl | rfl | rfl | rfl
      · exact steady_keyword "ORDER".toList (by decide)
      · exact steady_keyword "BY".toList (by decide)
      · exact Plain.steady (o.column.cut 63 (by decide)).plain
      · split_ifs
        · exact steady_keyword "ASC".toList (by decide)
        · exact steady_keyword "DESC".toList (by decide)
  · split_ifs at ht with hlimit
    · simp only [List.mem_cons, List.not_mem_nil, or_false] at ht
      rcases ht with rfl | rfl
      · exact steady_keyword "LIMIT".toList (by decide)
      · exact steady_intText hlimit
    · exact absurd ht (by simp)
  · exact steady_single (by decide)

theorem steady_delete (table : Name) (conds : Option Where) :
    ∀ t ∈ printedTokens (Statement.delete table conds).stored, Steady t := by
  intro t ht
  rw [printedTokens_delete] at ht
  simp only [List.mem_append, List.mem_cons, List.not_mem_nil, or_false] at ht
  rcases ht with (rfl | rfl | rfl) | ht | rfl
  · exact steady_keyword "DELETE".toList (by decide)
  · exact steady_keyword "FROM".toList (by decide)
  · exact Plain.steady (table.cut 63 (by decide)).plain
  · exact steady_whereTokens rfl t ht
  · exact steady_single (by decide)

theorem steady_update (table : Name) (sets : List (Name × Literal)) (conds : Option Where) :
    ∀ t ∈ printedTokens (Statement.update table sets conds).stored, Steady t := by
  intro t ht
  rw [printedTokens_update] at ht
  simp only [List.mem_append, List.mem_cons, List.not_mem_nil, or_false] at ht
  rcases ht with (rfl | rfl | rfl) | ht | ht | rfl
  · exact steady_keyword "UPDATE".toList (by decide)
  · exact Plain.steady (table.cut 63 (by decide)).plain
  · exact steady_keyword "SET".toList (by decide)
  · rcases mem_commaTokens ht with rfl | ⟨ts, hts, ht⟩
    · exact steady_single (by decide)
    · obtain ⟨set, hset, rfl⟩ := List.mem_map.mp hts
      obtain ⟨s, -, rfl⟩ := List.mem_map.mp hset
      rcases List.mem_cons.mp ht with rfl | ht
      · exact Plain.steady (s.1.cut 63 (by decide)).plain
      · rcases List.mem_cons.mp ht with rfl | ht
        · exact steady_single (by decide)
        · exact safe_take_of_mem_valueTokens
            ⟨(s.2.cut 255).no_single, (s.2.cut 255).no_double⟩ (List.length_take_le _ _) ht
  · exact steady_whereTokens rfl t ht
  · exact steady_single (by decide)

theorem ClausesFrom.safe {ts : List CStr} {sql : ParsedSQL} (h : ClausesFrom ts sql)
    (hts : ∀ t ∈ ts, Steady t) :
    (∀ w ∈ sql.conds, Safe w.value) ∧ ∀ s ∈ sql.sets, Safe s.value := by
  refine ⟨fun w hw => ?_, fun s hs => ?_⟩
  · obtain ⟨t, ht, hvalue⟩ := (h.conds w hw).value
    rw [hvalue]
    exact hts t ht
  · obtain ⟨t, ht, hvalue⟩ := (h.sets s hs).value
    rw [hvalue]
    exact hts t ht

/-- A value of an `INSERT` that is not safe is no token of the printed statement. -/
theorem safe_insert (table : Name) (columns : List Name) (values : List Literal) :
    ∀ t ∈ printedTokens (Statement.insert table columns values).stored, Safe t := by
  intro t ht
  have hkeyword : ∀ kw : CStr, kw.all isWordChar = true → Safe kw := fun _ h =>
    Or.inr (List.all_eq_true.mp h)
  have hsingle : ∀ c : Char, c.isDigit = false ∧ c ≠ '+' → Safe [c] := fun c hc =>
    Plain.safe (Or.inr fun d hd => by
      obtain rfl : c = d := by simpa using hd
      exact hc)
  have hprinted : printedTokens (Statement.insert table columns values).stored =
      ["INSERT".toList, "INTO".toList, table.text.take 63, ['(']] ++
        (commaTokens ((columns.map Name.text).map tokenize) ++ ([[')'], "VALUES".toList, ['(']] ++
          (commaTokens (((values.map Literal.text).takeWhile (· ≠ [')'])).map valueTokens) ++
            [[')'], [';']]))) := rfl
  rw [hprinted] at ht
  simp only [List.mem_append, List.mem_cons, List.not_mem_nil, or_false] at ht
  rcases ht with (rfl | rfl | rfl | rfl) | ht | (rfl | rfl | rfl) | ht | rfl | rfl
  · exact hkeyword "INSERT".toList (by decide)
  · exact hkeyword "INTO".toList (by decide)
  · exact Plain.safe (table.cut 63 (by decide)).plain
  · exact hsingle '(' (by decide)
  · rcases mem_commaTokens ht with rfl | ⟨ts, hts, ht⟩
    · exact hsingle ',' (by decide)
    · obtain ⟨text, htext, rfl⟩ := List.mem_map.mp hts
      obtain ⟨n, -, rfl⟩ := List.mem_map.mp htext
      rw [n.lexes.tokenize] at ht
      obtain rfl := List.mem_singleton.mp ht
      exact Plain.safe n.plain
  · exact hsingle ')' (by decide)
  · exact hkeyword "VALUES".toList (by decide)
  · exact hsingle '(' (by decide)
  · rcases mem_commaTokens ht with rfl | ⟨ts, hts, ht⟩
    · exact hsingle ',' (by decide)
    · obtain ⟨v, hv, rfl⟩ := List.mem_map.mp hts
      obtain ⟨v, -, rfl⟩ := List.mem_map.mp ((List.takeWhile_sublist _).subset hv)
      exact safe_of_mem_valueTokens ⟨v.no_single, v.no_double⟩ ht
  · exact hsingle ')' (by decide)
  · exact hsingle ';' (by decide)

/-! ## An upper bound is lost -/

/-- The operator of a condition, as it is printed. -/
def PlainOp (w : WhereClause) : Prop :=
  (w.op = "BETWEEN".toList ∨ ieq w.op "BETWEEN".toList = false) ∧ NoLink w.op

/-- Without an `AND` behind the lower bound, the conditions end. -/
theorem readCondition_no_and (mem : Uninit) (i : ℕ) (ts : List CStr)
    (h : ∀ t ∈ ts.head?, ieq t "AND".toList = false) (col val : CStr) :
    ∃ rest, readCondition mem i (col :: "BETWEEN".toList :: val :: ts) =
      some (whereClause mem i col "BETWEEN".toList val, false, rest) := by
  rw [readCondition.eq_def]
  dsimp only
  rw [if_pos (by decide)]
  split
  · rename_i andTok high ts'
    exact ⟨ts', if_neg (by rw [h andTok rfl]; decide)⟩
  · exact ⟨_, rfl⟩

/-- The conditions end at the first `BETWEEN`: the next condition is taken for its upper bound, or
its operator fills the array. -/
theorem parseWhereLoop_between (sql : ParsedSQL) {w : WhereClause} {ws : List WhereClause}
    (hsafe : ∀ x ∈ w :: ws, Safe x.value) (hop : ∀ x ∈ w :: ws, PlainOp x)
    (hbetween : ∃ x ∈ w :: ws, x.op = "BETWEEN".toList) {rest : List CStr}
    (hrest : ∀ t ∈ rest.head?, NoLink t) (i : ℕ) {n : ℕ} (acc : List WhereClause)
    (links : List CStr)
    (hn : (w.column :: w.op :: w.value :: (condTokens sql (i + 1) ws ++ rest)).length ≤ n) :
    (parseWhereLoop dirty n (w.column :: w.op :: w.value :: (condTokens sql (i + 1) ws ++ rest))
        acc links).1.length < acc.length + 1 + ws.length ∨
      ∃ x ∈ (parseWhereLoop dirty n
        (w.column :: w.op :: w.value :: (condTokens sql (i + 1) ws ++ rest)) acc links).1,
        8 ≤ x.op.length := by
  have hfull : ∀ (j : ℕ) (col val : CStr),
      8 ≤ (whereClause dirty j col "BETWEEN".toList val).op.length := by
    intro j col val
    have hop : (whereClause dirty j col "BETWEEN".toList val).op =
        "BETWEEN".toList ++ 'x' :: cstr (cField 256 val 'x' []) := rfl
    rw [hop]
    simp
  induction ws generalizing w i n acc links with
  | nil =>
    obtain ⟨n, rfl⟩ : ∃ k, n = k + 1 := ⟨n - 1, by simp at hn; omega⟩
    obtain ⟨x, hx, hxop⟩ := hbetween
    obtain rfl := List.mem_singleton.mp hx
    obtain ⟨ts', hread⟩ := readCondition_no_and dirty acc.length rest
      (fun t ht => (hrest t ht).1) x.column x.value
    have hread' : readCondition dirty acc.length
        (x.column :: x.op :: x.value :: (condTokens sql (i + 1) [] ++ rest)) =
        some (whereClause dirty acc.length x.column "BETWEEN".toList x.value, false, ts') := by
      rw [hxop]
      exact hread
    refine Or.inr ⟨whereClause dirty acc.length x.column "BETWEEN".toList x.value, ?_, hfull ..⟩
    rw [parseWhereLoop, hread']
    simp
  | cons w' ws ih =>
    obtain ⟨n, rfl⟩ : ∃ k, n = k + 1 := ⟨n - 1, by simp at hn; omega⟩
    have htokens : condTokens sql (i + 1) (w' :: ws) ++ rest =
        whereLinkAt sql i :: w'.column :: w'.op :: w'.value ::
          (condTokens sql (i + 1 + 1) ws ++ rest) := by
      rw [condTokens, if_pos (Nat.succ_pos i), (hsafe w' (by simp)).valueTokens]
      simp
    rw [htokens] at hn ⊢
    obtain ⟨hbetweenOp, hlinkOp⟩ := hop w' (by simp)
    rcases (hop w (by simp)).1 with hw | hw
    · refine Or.inl ?_
      rcases whereLinkAt_eq sql i with hlink | hlink
      · obtain ⟨ts', hread⟩ := readCondition_no_and dirty acc.length
          (whereLinkAt sql i :: w'.column :: w'.op :: w'.value ::
            (condTokens sql (i + 1 + 1) ws ++ rest))
          (fun t ht => by
            obtain rfl : whereLinkAt sql i = t := by simpa using ht
            rw [hlink]
            decide) w.column w.value
        rw [hw, parseWhereLoop, hread]
        simp
      · have hread : readCondition dirty acc.length (w.column :: w.op :: w.value ::
            whereLinkAt sql i :: w'.column :: w'.op :: w'.value ::
              (condTokens sql (i + 1 + 1) ws ++ rest)) =
            some (betweenClause dirty acc.length w.column w.value w'.column, true,
              w'.op :: w'.value :: (condTokens sql (i + 1 + 1) ws ++ rest)) := by
          rw [readCondition.eq_def]
          dsimp only
          rw [if_pos (by rw [hw]; decide), if_pos (by rw [hlink]; decide)]
        rw [parseWhereLoop, hread]
        dsimp only
        rw [if_neg (by rw [hlinkOp.1, hlinkOp.2]; decide)]
        simp
    · have hread : readCondition dirty acc.length (w.column :: w.op :: w.value ::
          whereLinkAt sql i :: w'.column :: w'.op :: w'.value ::
            (condTokens sql (i + 1 + 1) ws ++ rest)) =
          some (whereClause dirty acc.length w.column w.op w.value, true,
            whereLinkAt sql i :: w'.column :: w'.op :: w'.value ::
              (condTokens sql (i + 1 + 1) ws ++ rest)) := by
        rw [readCondition.eq_def]
        dsimp only
        rw [if_neg (by rw [hw]; decide)]
      have hlink : (ieq (whereLinkAt sql i) "AND".toList ||
          ieq (whereLinkAt sql i) "OR".toList) = true := by
        rcases whereLinkAt_eq sql i with hlink | hlink <;> rw [hlink] <;> decide
      have hbetween' : ∃ x ∈ w' :: ws, x.op = "BETWEEN".toList := by
        obtain ⟨x, hx, hxop⟩ := hbetween
        rcases List.mem_cons.mp hx with rfl | hx
        · rw [hxop] at hw
          exact absurd hw (by decide)
        · exact ⟨x, hx, hxop⟩
      have hrec := ih (fun x hx => hsafe x (List.mem_cons_of_mem w hx))
        (fun x hx => hop x (List.mem_cons_of_mem w hx)) hbetween' (i + 1) (n := n)
        (acc ++ [whereClause dirty acc.length w.column w.op w.value])
        (links ++ [if ieq (whereLinkAt sql i) "OR".toList then "OR".toList
          else "AND".toList]) (by simp at hn ⊢; omega)
      rw [parseWhereLoop, hread]
      dsimp only
      rw [if_pos hlink]
      refine hrec.imp_left fun hlen => ?_
      simp only [List.length_append, List.length_singleton] at hlen
      rw [List.length_cons]
      omega

/-! ## A call that is cut swallows what follows -/

/-- The tokens that `callArgs` leaves. -/
def afterCall : List CStr → List CStr
  | [] => []
  | t :: ts => if t = [')'] then ts else if t = [';'] then t :: ts else afterCall ts

theorem callArgs_snd (ts : List CStr) (buf : CStr) : (callArgs ts buf).2 = afterCall ts := by
  induction ts generalizing buf with
  | nil => rfl
  | cons t ts ih =>
    rw [callArgs, afterCall]
    split_ifs
    · rfl
    · rfl
    · exact ih _

theorem length_afterCall_le (ts : List CStr) : (afterCall ts).length ≤ ts.length := by
  induction ts with
  | nil => exact le_rfl
  | cons t ts ih =>
    rw [afterCall]
    split_ifs
    · exact Nat.le_succ _
    · exact le_rfl
    · exact ih.trans (Nat.le_succ _)

theorem length_selectColumn_le (first : CStr) (ts : List CStr) :
    (selectColumn first ts).2.length ≤ ts.length := by
  unfold selectColumn
  split
  · split_ifs
    · rw [callArgs_snd]
      exact (length_afterCall_le _).trans (Nat.le_succ _)
    · exact le_rfl
  · exact le_rfl

theorem afterCall_skip {t : CStr} (h : t ≠ [')'] ∧ t ≠ [';']) (ts : List CStr) :
    afterCall (t :: ts) = afterCall ts := by rw [afterCall, if_neg h.1, if_neg h.2]

theorem afterCall_append {args : List CStr} (h : ∀ t ∈ args, t ≠ [')'] ∧ t ≠ [';'])
    (ts : List CStr) : afterCall (args ++ ts) = afterCall ts := by
  induction args with
  | nil => rfl
  | cons t args ih =>
    rw [List.cons_append, afterCall_skip (h t (by simp)),
      ih fun u hu => h u (List.mem_cons_of_mem t hu)]

theorem Name.not_stop_call (n : Name) : n.text ≠ [')'] ∧ n.text ≠ [';'] := ⟨n.ne_close, n.ne_end⟩

/-- A printed column, and the tokens left behind it. -/
theorem selectColumn_printed (c : Column) {ts : List CStr} (hts : ts.head? ≠ some ['(']) :
    ∃ first us, tokenize c.text = first :: us ∧ isSelectStopToken first = false ∧
      (c.Survives → (selectColumn first (us ++ ts)).2 = ts) ∧
      (¬ c.Survives → (selectColumn first (us ++ ts)).2 = afterCall ts) := by
  by_cases h : c.Survives
  · obtain ⟨first, us, hus, hstop, hcol⟩ :=
      selectColumn_spelled (spells_text c.normal.symbols) ts hts
    refine ⟨first, us, h.lexes.tokenize.trans hus, hstop, fun _ => ?_, fun hnot => absurd h hnot⟩
    rw [hcol]
  · obtain ⟨f, args, hlexes, hargs⟩ := Column.lexes_of_not_survives h
    refine ⟨f.text, ['('] :: args, hlexes.tokenize, f.not_stop, fun hs => absurd hs h, fun _ => ?_⟩
    rw [List.cons_append, selectColumn, if_pos rfl, callArgs_snd,
      afterCall_append fun t ht => ⟨(hargs t ht).1, (hargs t ht).2.1⟩]

theorem afterCall_column (c : Column) (ts : List CStr) :
    afterCall (tokenize c.text ++ ts) = ts ∨
      afterCall (tokenize c.text ++ ts) = afterCall ts := by
  by_cases h : c.Survives
  · rw [h.lexes.tokenize]
    cases hn : c.normal with
    | star => exact Or.inr (afterCall_skip (by decide) ts)
    | name n => exact Or.inr (afterCall_skip n.not_stop_call ts)
    | call f arg =>
      have harg : (arg.map Name.text).getD ['*'] ≠ [')'] ∧
          (arg.map Name.text).getD ['*'] ≠ [';'] := by
        cases arg with
        | none => decide
        | some n => exact n.not_stop_call
      refine Or.inl ?_
      change afterCall (f.text :: ['('] :: (arg.map Name.text).getD ['*'] :: [')'] :: ts) = ts
      rw [afterCall_skip f.not_stop_call, afterCall_skip (by decide), afterCall_skip harg, afterCall,
        if_pos rfl]
  · obtain ⟨f, args, hlexes, hargs⟩ := Column.lexes_of_not_survives h
    rw [hlexes.tokenize]
    refine Or.inr ?_
    rw [List.cons_append, List.cons_append, afterCall_skip f.not_stop_call,
      afterCall_skip (by decide), afterCall_append fun t ht => ⟨(hargs t ht).1, (hargs t ht).2.1⟩]

/-- The tokens of a list of columns. -/
def columnTokens (columns : List Column) : List CStr :=
  commaTokens ((columns.map Column.text).map tokenize)

/-- The tokens behind a column, with the other columns. -/
def columnTail (ts : List CStr) : List Column → List CStr
  | [] => ts
  | c :: columns => [','] :: (columnTokens (c :: columns) ++ ts)

theorem columnTokens_cons (c : Column) (columns : List Column) (ts : List CStr) :
    columnTokens (c :: columns) ++ ts = tokenize c.text ++ columnTail ts columns := by
  cases columns with
  | nil => rfl
  | cons d columns => exact List.append_assoc ..

/-- The columns are swallowed up to a `)`, or all of them and what follows. -/
theorem afterCall_columnTail (columns : List Column) (ts : List CStr) :
    afterCall (columnTail ts columns) = afterCall ts ∨
      ∃ rest : List Column, rest.length < columns.length ∧
        afterCall (columnTail ts columns) = columnTail ts rest := by
  induction columns with
  | nil => exact Or.inl rfl
  | cons c columns ih =>
    rw [columnTail, afterCall_skip (by decide), columnTokens_cons]
    rcases afterCall_column c (columnTail ts columns) with h | h
    · exact Or.inr ⟨columns, Nat.lt_succ_self _, h⟩
    · rw [h]
      refine ih.imp_right ?_
      rintro ⟨rest, hlen, hrest⟩
      exact ⟨rest, hlen.trans (Nat.lt_succ_self _), hrest⟩

/-- No list of columns goes on here, and no table follows. -/
def NoTable (ts : List CStr) : Prop :=
  ∀ t ∈ ts.head?, ieq t [','] = false ∧ ieq t "FROM".toList = false

theorem matchTok_of_noTable {ts : List CStr} (h : NoTable ts) :
    matchTok [','] ts = none ∧ matchTok "FROM".toList ts = none := by
  cases ts with
  | nil => exact ⟨rfl, rfl⟩
  | cons t ts => exact ⟨matchTok_not (h t rfl).1 ts, matchTok_not (h t rfl).2 ts⟩

/-- With a call that is cut, a column is missing, or else the table. -/
theorem selectColumnsLoop_printed {ts : List CStr} (hts : NoTable (afterCall ("FROM".toList :: ts)))
    (columns : List Column) {n : ℕ}
    (hn : (columnTokens columns ++ "FROM".toList :: ts).length ≤ n) :
    matchTok "FROM".toList
        (selectColumnsLoop n (columnTokens columns ++ "FROM".toList :: ts)).2 = none ∨
      (selectColumnsLoop n (columnTokens columns ++ "FROM".toList :: ts)).1.length ≤
          columns.length ∧
        ((∃ c ∈ columns, ¬ c.Survives) →
          (selectColumnsLoop n (columnTokens columns ++ "FROM".toList :: ts)).1.length <
            columns.length) := by
  -- a cut call may swallow several columns, so the induction is on the number of columns
  induction hk : columns.length using Nat.strong_induction_on generalizing columns n with
  | _ k ih =>
    obtain ⟨n, rfl⟩ : ∃ m, n = m + 1 := ⟨n - 1, by simp at hn; omega⟩
    cases columns with
    | nil =>
      have hstop : isSelectStopToken "FROM".toList = true := by decide
      refine Or.inr ?_
      change (selectColumnsLoop (n + 1) ("FROM".toList :: ts)).1.length ≤ k ∧ _
      rw [selectColumnsLoop, if_pos hstop]
      simp
    | cons c columns =>
      have hhead : (columnTail ("FROM".toList :: ts) columns).head? ≠ some ['('] := by
        cases columns <;> simp [columnTail]
      obtain ⟨first, us, hus, hstop, hkept, hcut⟩ := selectColumn_printed c hhead
      -- the columns that are left behind the first one
      have hleft : (selectColumn first (us ++ columnTail ("FROM".toList :: ts) columns)).2 =
            afterCall ("FROM".toList :: ts) ∨
          ∃ rest : List Column, rest.length ≤ columns.length ∧
            (¬ c.Survives → rest.length < columns.length) ∧ (c.Survives → rest = columns) ∧
            (selectColumn first (us ++ columnTail ("FROM".toList :: ts) columns)).2 =
              columnTail ("FROM".toList :: ts) rest := by
        by_cases hc : c.Survives
        · exact Or.inr ⟨columns, le_rfl, fun hnot => absurd hc hnot, fun _ => rfl, hkept hc⟩
        · rw [hcut hc]
          refine (afterCall_columnTail columns _).imp_right ?_
          rintro ⟨rest, hlen, hrest⟩
          exact ⟨rest, hlen.le, fun _ => hlen, fun hs => absurd hs hc, hrest⟩
      rw [columnTokens_cons, hus] at hn ⊢
      rw [List.cons_append, selectColumnsLoop, if_neg (by simp [hstop])]
      dsimp only
      rcases hleft with hleft | ⟨rest, hlen, hcutLen, hkeptEq, hleft⟩
      · obtain ⟨hcomma, hfrom⟩ := matchTok_of_noTable hts
        rw [hleft, hcomma]
        exact Or.inl hfrom
      · rw [hleft]
        have hshort : (columnTail ("FROM".toList :: ts) rest).length ≤ n := by
          rw [← hleft]
          exact (length_selectColumn_le first _).trans (Nat.le_of_succ_le_succ hn)
        -- a column that is cut is the first one, or one of those left behind it
        have hbadRest : (∃ d ∈ c :: columns, ¬ d.Survives) →
            rest.length < columns.length ∨ ∃ d ∈ rest, ¬ d.Survives := by
          rintro ⟨d, hd, hbad⟩
          by_cases hc : c.Survives
          · rcases List.mem_cons.mp hd with rfl | hd
            · exact absurd hc hbad
            · exact Or.inr ⟨d, hkeptEq hc ▸ hd, hbad⟩
          · exact Or.inl (hcutLen hc)
        cases rest with
        | nil =>
          have hcomma : matchTok [','] ("FROM".toList :: ts) = none := matchTok_not (by decide) ts
          rw [columnTail, hcomma]
          refine Or.inr ⟨by simp at hk ⊢; omega, fun hbad => ?_⟩
          have hpos : 0 < columns.length := (hbadRest hbad).resolve_right (by simp)
          simp at hk ⊢
          omega
        | cons d rest =>
          have hcomma : matchTok [','] (columnTail ("FROM".toList :: ts) (d :: rest)) =
              some (columnTokens (d :: rest) ++ "FROM".toList :: ts) := matchTok_ieq (by decide) _
          rw [hcomma]
          dsimp only
          have hrec := ih (d :: rest).length (by simp at hk hlen ⊢; omega) (d :: rest) (n := n)
            (by simp only [columnTail, List.length_cons] at hshort; omega) rfl
          refine hrec.imp_right ?_
          rintro ⟨hle, hlt⟩
          refine ⟨by simp at hk hlen hle ⊢; omega, fun hbad => ?_⟩
          rcases hbadRest hbad with hless | hbad
          · simp at hk hless hle ⊢
            omega
          · have := hlt hbad
            simp at hk hlen this ⊢
            omega

/-- A printed condition: `afterCall` may stop in its value only. -/
theorem noTable_conds {sql : ParsedSQL} {ws : List WhereClause}
    (h : ∀ w ∈ ws, Safe w.value ∧ (w.column ≠ [')'] ∧ w.column ≠ [';']) ∧
      (w.op ≠ [')'] ∧ w.op ≠ [';'])) {rest : List CStr} (hrest : NoTable rest)
    (hafter : NoTable (afterCall rest)) (i : ℕ) :
    NoTable (condTokens sql (i + 1) ws ++ rest) ∧
      NoTable (afterCall (condTokens sql i ws ++ rest)) := by
  induction ws generalizing i with
  | nil => exact ⟨hrest, hafter⟩
  | cons w ws ih =>
    obtain ⟨hsafe, hcolumn, hop⟩ := h w (by simp)
    obtain ⟨hhead, -⟩ := ih (fun x hx => h x (List.mem_cons_of_mem w hx)) i
    have hskip' := (ih (fun x hx => h x (List.mem_cons_of_mem w hx)) (i + 1)).2
    have hlinkSkip : ∀ j, whereLinkAt sql j ≠ [')'] ∧ whereLinkAt sql j ≠ [';'] := by
      intro j
      rcases whereLinkAt_eq sql j with hlink | hlink <;> rw [hlink] <;> decide
    have hcond : NoTable (afterCall
        (w.column :: w.op :: w.value :: (condTokens sql (i + 1) ws ++ rest))) := by
      rw [afterCall_skip hcolumn, afterCall_skip hop, afterCall]
      split_ifs with hclose hend
      · exact hhead
      · intro t ht
        obtain rfl : w.value = t := by simpa using ht
        rw [hend]
        decide
      · exact hskip'
    refine ⟨?_, ?_⟩
    · rw [condTokens, if_pos (Nat.succ_pos i)]
      intro t ht
      obtain rfl : whereLinkAt sql (i + 1 - 1) = t := by simpa using ht
      rcases whereLinkAt_eq sql (i + 1 - 1) with hlink | hlink <;> rw [hlink] <;> decide
    · rw [condTokens, hsafe.valueTokens]
      by_cases hi : 0 < i
      · rw [if_pos hi, List.append_assoc, List.singleton_append, afterCall_skip (hlinkSkip _)]
        simpa using hcond
      · rw [if_neg hi]
        simpa using hcond

/-- The tokens behind the conditions of a `SELECT`. -/
def selectEnd (order : Option Order) (limit : Option CStr) : List CStr :=
  ((order.map fun o => OrderBy.mk (o.column.text.take 63) (o.asc.getD true)).map
    orderTokens).getD [] ++ ((if 0 ≤ (limit.map atoi).getD (-1) then
      ["LIMIT".toList, intText ((limit.map atoi).getD (-1))] else []) ++ [[';']])

theorem intText_skip {n : ℤ} (hn : 0 ≤ n) : intText n ≠ [')'] ∧ intText n ≠ [';'] := by
  have htext : intText n = Nat.toDigits 10 n.natAbs := if_neg (by omega)
  have hdigit : ∀ c ∈ intText n, c.isDigit = true := by
    rw [htext]
    exact fun c hc => isDigit_of_mem_toDigits hc
  refine ⟨fun h => ?_, fun h => ?_⟩
  · exact absurd (hdigit ')' (by rw [h]; simp)) (by decide)
  · exact absurd (hdigit ';' (by rw [h]; simp)) (by decide)

theorem afterCall_selectEnd (order : Option Order) (limit : Option CStr) :
    afterCall (selectEnd order limit) = [[';']] := by
  have horder : ∀ t ∈ ((order.map fun o => OrderBy.mk (o.column.text.take 63)
      (o.asc.getD true)).map orderTokens).getD [], t ≠ [')'] ∧ t ≠ [';'] := by
    cases order with
    | none => simp
    | some o =>
      simp only [Option.map_some, Option.getD_some, orderTokens, List.mem_cons, List.not_mem_nil,
        or_false]
      rintro t (rfl | rfl | rfl | rfl)
      · decide
      · decide
      · exact (o.column.cut 63 (by decide)).not_stop_call
      · split_ifs <;> decide
  have hlimit : ∀ t ∈ (if 0 ≤ (limit.map atoi).getD (-1) then
      ["LIMIT".toList, intText ((limit.map atoi).getD (-1))] else []), t ≠ [')'] ∧ t ≠ [';'] := by
    split_ifs with hpos
    · simp only [List.mem_cons, List.not_mem_nil, or_false]
      rintro t (rfl | rfl)
      · decide
      · exact intText_skip hpos
    · simp
  rw [selectEnd, afterCall_append horder, afterCall_append hlimit]
  rfl

theorem head_selectEnd (order : Option Order) (limit : Option CStr) :
    ∀ t ∈ (selectEnd order limit).head?, t = "ORDER".toList ∨ t = "LIMIT".toList ∨ t = [';'] := by
  intro t ht
  unfold selectEnd at ht
  cases order with
  | none =>
    split_ifs at ht
    · exact Or.inr (Or.inl (by simpa using ht.symm))
    · exact Or.inr (Or.inr (by simpa using ht.symm))
  | some o => exact Or.inl (by simpa [orderTokens] using ht.symm)

theorem noTable_selectEnd (order : Option Order) (limit : Option CStr) :
    NoTable (selectEnd order limit) := by
  intro t ht
  rcases head_selectEnd order limit t ht with rfl | rfl | rfl <;> exact ⟨by decide, by decide⟩

theorem noLink_selectEnd (order : Option Order) (limit : Option CStr) :
    ∀ t ∈ (selectEnd order limit).head?, NoLink t := by
  intro t ht
  rcases head_selectEnd order limit t ht with rfl | rfl | rfl <;> exact ⟨by decide, by decide⟩

/-- A stored condition has no token that ends a call or a statement, its value apart. -/
theorem Cond.stored_skip (c : Cond) : (c.stored.column ≠ [')'] ∧ c.stored.column ≠ [';']) ∧
    (c.stored.op ≠ [')'] ∧ c.stored.op ≠ [';']) := by
  cases c with
  | compare column op value =>
    refine ⟨(column.cut 63 (by decide)).not_stop_call, ?_⟩
    have hsymbol : ∀ t ∈ ["=".toList, ">".toList, "<".toList, ">=".toList, "<=".toList,
        "!=".toList], t ≠ [')'] ∧ t ≠ [';'] := by decide
    rcases op.known with h | h
    · exact hsymbol _ h
    · have hlen := length_eq_of_equalsIgnoreCase h
      refine ⟨fun heq => ?_, fun heq => ?_⟩
      · change op.text = [')'] at heq
        rw [heq] at hlen
        exact absurd hlen (by decide)
      · change op.text = [';'] at heq
        rw [heq] at hlen
        exact absurd hlen (by decide)
  | between column low high =>
    exact ⟨(column.cut 63 (by decide)).not_stop_call,
      show "BETWEEN".toList ≠ [')'] ∧ "BETWEEN".toList ≠ [';'] by decide⟩

theorem mem_conds_stored {conds : Option Where} {sql : ParsedSQL} (hsql : sql.conds = [])
    {w : WhereClause} (hw : w ∈ (withWhere Uninit.zero conds sql).conds) :
    ∃ c : Cond, (∃ clause ∈ conds, c ∈ clause.conds) ∧ w = c.stored := by
  cases conds with
  | none => exact absurd (hsql ▸ hw : w ∈ []) (by simp)
  | some clause =>
    rw [conds_withWhere] at hw
    rcases List.mem_cons.mp hw with rfl | hw
    · exact ⟨clause.first, ⟨clause, rfl, by simp [Where.conds]⟩, rfl⟩
    · obtain ⟨c, hc, rfl⟩ := List.mem_map.mp hw
      exact ⟨c.2, ⟨clause, rfl, List.mem_cons_of_mem _ (List.mem_map_of_mem hc)⟩, rfl⟩

theorem parseSelect_columns (mem : Uninit) (ts : List CStr) :
    (parseSelect mem ts parsedNew).columns = (selectColumnsLoop ts.length ts).1 := by
  unfold parseSelect
  dsimp only
  split
  · rfl
  · obtain ⟨limit, hlimit⟩ := parseLimit_fields _ _
    rw [hlimit]
    obtain ⟨order, horder⟩ := parseOrderBy_fields _ _
    rw [horder]
    obtain ⟨conds, links, logic, hwhere⟩ := parseOptWhere_fields _ _ _
    rw [hwhere]

theorem parseSelect_table_of_none (mem : Uninit) {ts : List CStr}
    (h : matchTok "FROM".toList (selectColumnsLoop ts.length ts).2 = none) :
    (parseSelect mem ts parsedNew).table = [] := by
  rw [parseSelect]
  dsimp only
  rw [h]
  rfl

/-- A call that is cut does not come back. -/
theorem survives_of_parse_columns {columns : List Column} {table : Name} {conds : Option Where}
    {order : Option Order} {limit : Option CStr}
    (hsafe : ∀ w ∈ (Statement.select columns table conds order limit).stored.conds, Safe w.value)
    {mem : Uninit}
    (h : parseTokens mem (printedTokens (Statement.select columns table conds order limit).stored) =
      some (Statement.select columns table conds order limit).stored) :
    ∀ c ∈ columns, c.Survives := by
  by_contra hbad
  simp only [not_forall] at hbad
  obtain ⟨c, hc, hcut⟩ := hbad
  let rest := table.text.take 63 ::
    (whereTokens (withWhere Uninit.zero conds (selectStored columns table order limit)) ++
      selectEnd order limit)
  have hprinted : printedTokens (Statement.select columns table conds order limit).stored =
      "SELECT".toList :: (columnTokens columns ++ "FROM".toList :: rest) :=
    printedTokens_select columns table conds order limit
  have hafter : NoTable (afterCall ("FROM".toList :: rest)) := by
    have hends : NoTable (afterCall (selectEnd order limit)) := by
      rw [afterCall_selectEnd]
      intro t ht
      obtain rfl : [';'] = t := by simpa using ht
      exact ⟨by decide, by decide⟩
    have hskip : afterCall rest = afterCall (whereTokens (withWhere Uninit.zero conds
        (selectStored columns table order limit)) ++ selectEnd order limit) :=
      afterCall_skip (table.cut 63 (by decide)).not_stop_call _
    rw [afterCall_skip (by decide), hskip]
    unfold whereTokens
    split_ifs with hconds
    · exact hends
    · rw [List.cons_append, afterCall_skip (by decide)]
      refine (noTable_conds (fun w hw => ?_) (noTable_selectEnd order limit) hends 0).2
      obtain ⟨d, -, rfl⟩ := mem_conds_stored rfl hw
      exact ⟨hsafe _ hw, d.stored_skip⟩
  have hloop := selectColumnsLoop_printed hafter columns le_rfl
  have hselect : parseSelect mem (columnTokens columns ++ "FROM".toList :: rest) parsedNew =
      (Statement.select columns table conds order limit).stored := by
    rw [hprinted] at h
    exact Option.some.inj h
  rcases hloop with hnone | ⟨-, hless⟩
  · have htable := parseSelect_table_of_none mem hnone
    rw [hselect, (show (Statement.select columns table conds order limit).stored.table =
      table.text.take 63 by cases conds <;> rfl)] at htable
    exact (table.cut 63 (by decide)).ne_nil htable
  · have hlen := hless ⟨c, hc, hcut⟩
    rw [← parseSelect_columns mem, hselect,
      (show (Statement.select columns table conds order limit).stored.columns =
        columns.map Column.text by cases conds <;> rfl), List.length_map] at hlen
    exact Nat.lt_irrefl _ hlen

/-! ## What comes back -/

theorem Cond.plainOp_stored (c : Cond) : PlainOp c.stored := by
  cases c with
  | compare column op value =>
    have hsymbol : ∀ t ∈ ["=".toList, ">".toList, "<".toList, ">=".toList, "<=".toList,
        "!=".toList], ieq t "AND".toList = false ∧ ieq t "OR".toList = false := by decide
    refine ⟨Or.inr op.not_between, ?_⟩
    rcases op.known with h | h
    · exact hsymbol _ h
    · exact ⟨ieq_other h (by decide), ieq_other h (by decide)⟩
  | between column low high =>
    exact ⟨Or.inl rfl, show NoLink "BETWEEN".toList from ⟨by decide, by decide⟩⟩

theorem Cond.length_op_le (c : Cond) : c.stored.op.length ≤ 7 := by
  cases c with
  | compare column op value => exact op.length_le.trans (by decide)
  | between column low high => exact le_of_eq rfl

/-- Conditions that come back are no `BETWEEN`. -/
theorem not_between_of_parse {conds : Option Where} {sql sql' : ParsedSQL} (hsql : sql.conds = [])
    (rest : List CStr) (hrest : ∀ t ∈ rest.head?, NoLink t)
    (hsafe : ∀ w ∈ (withWhere Uninit.zero conds sql).conds, Safe w.value)
    (h : (parseOptWhere dirty (whereTokens (withWhere Uninit.zero conds sql) ++ rest) sql').1.conds =
      (withWhere Uninit.zero conds sql).conds) :
    ∀ w ∈ (withWhere Uninit.zero conds sql).conds, w.op ≠ "BETWEEN".toList := by
  intro x hx hbetween
  cases conds with
  | none => exact absurd (hsql ▸ hx : x ∈ []) (by simp)
  | some w =>
    have hmem := hx
    have hconds := conds_withWhere w sql
    have hplain : ∀ y ∈ w.first.stored :: w.rest.map fun c => c.2.stored, PlainOp y := by
      intro y hy
      rw [← hconds] at hy
      obtain ⟨c, -, rfl⟩ := mem_conds_stored hsql hy
      exact c.plainOp_stored
    have hsafe' := hsafe
    rw [hconds] at hsafe' hmem
    have htokens : whereTokens (withWhere Uninit.zero (some w) sql) ++ rest =
        "WHERE".toList :: w.first.stored.column :: w.first.stored.op :: w.first.stored.value ::
          (condTokens (withWhere Uninit.zero (some w) sql) (0 + 1)
            (w.rest.map fun c => c.2.stored) ++ rest) := by
      rw [whereTokens, hconds, if_neg (List.cons_ne_nil _ _), condTokens,
        if_neg (Nat.lt_irrefl 0), (hsafe' w.first.stored (by simp)).valueTokens]
      simp
    have hloop := parseWhereLoop_between (withWhere Uninit.zero (some w) sql) hsafe' hplain
      ⟨x, hmem, hbetween⟩ hrest 0 [] [] le_rfl
    rw [htokens, parseOptWhere, matchTok_ieq (by decide)] at h
    dsimp only at h
    rw [parseWhere, hconds] at h
    dsimp only at h
    rw [h] at hloop
    rcases hloop with hlen | ⟨y, hy, hlen⟩
    · simp at hlen
      omega
    · rw [← hconds] at hy
      obtain ⟨c, -, rfl⟩ := mem_conds_stored hsql hy
      have := c.length_op_le
      omega

theorem survives_of_stored {conds : Option Where} {sql : ParsedSQL}
    (hfits : ∀ w ∈ conds, ∀ c ∈ w.conds, c.Fits)
    (hsafe : ∀ w ∈ (withWhere Uninit.zero conds sql).conds, Safe w.value)
    (hop : ∀ w ∈ (withWhere Uninit.zero conds sql).conds, w.op ≠ "BETWEEN".toList) :
    ∀ w ∈ conds, w.Survives := by
  intro w hw c hc
  obtain rfl := Option.mem_def.mp hw
  have hmem : c.stored ∈ (withWhere Uninit.zero (some w) sql).conds := by
    rw [conds_withWhere]
    rcases List.mem_cons.mp hc with rfl | hc
    · simp
    · obtain ⟨d, hd, rfl⟩ := List.mem_map.mp hc
      exact List.mem_cons_of_mem _ (List.mem_map_of_mem (f := fun c => c.2.stored) hd)
  have hcfits := hfits w rfl c hc
  have hcsafe := hsafe _ hmem
  have hcop := hop _ hmem
  cases c with
  | compare column op value =>
    refine ⟨hcfits.1, hcfits.2, ?_⟩
    have hcut : value.text.take 255 = value.text := List.take_of_length_le (by have := hcfits.2; omega)
    rw [← hcut]
    exact hcsafe
  | between column low high => exact absurd rfl hcop

theorem setsSurvive_of_stored {i : ℕ} {sets : List (Name × Literal)} (hfits : SetsFit i sets)
    (hsafe : ∀ s ∈ sets.map storedSet, Safe s.value) : SetsSurvive i sets := by
  induction sets generalizing i with
  | nil => trivial
  | cons s sets ih =>
    have hs : Safe (s.2.text.take 255) := hsafe (storedSet s) (by simp)
    refine ⟨?_, ih hfits.2 fun x hx => hsafe x (by simp only [List.map_cons, List.mem_cons, hx, or_true])⟩
    unfold SetSurvives
    split_ifs with hi
    · exact hs
    · obtain ⟨hc, hv⟩ := hfits.1.resolve_left hi
      rw [List.take_of_length_le (by omega)] at hs
      exact ⟨hc, hv, hs⟩

theorem parseSelect_conds (mem : Uninit) {ts cols : List CStr} {kw table : CStr} {rest : List CStr}
    (hloop : selectColumnsLoop ts.length ts = (cols, kw :: table :: rest))
    (hkw : ieq kw "FROM".toList = true) : ∃ sql' : ParsedSQL,
      (parseSelect mem ts parsedNew).conds = (parseOptWhere mem rest sql').1.conds := by
  rw [parseSelect, hloop]
  dsimp only
  rw [matchTok_ieq hkw]
  dsimp only [List.head?_cons, Option.getD_some, List.tail_cons]
  rw [parseLimit_conds, parseOrderBy_conds]
  exact ⟨_, rfl⟩

theorem survives_select {columns : List Column} {table : Name} {conds : Option Where}
    {order : Option Order} {limit : Option CStr}
    (hfits : (Statement.select columns table conds order limit).Fits)
    (h : ∀ mem, parseTokens mem
      (printedTokens (Statement.select columns table conds order limit).stored) =
      some (Statement.select columns table conds order limit).stored) :
    (Statement.select columns table conds order limit).Survives := by
  have hsafe := ((parseTokens_from (h Uninit.zero)).safe
    (steady_select columns table conds order limit)).1
  have hcolumns := survives_of_parse_columns hsafe (h Uninit.zero)
  have hop : ∀ w ∈ (withWhere Uninit.zero conds (selectStored columns table order limit)).conds,
      w.op ≠ "BETWEEN".toList := by
    let back := whereTokens (withWhere Uninit.zero conds (selectStored columns table order limit)) ++
      selectEnd order limit
    have hloop : selectColumnsLoop
        (columnTokens columns ++ "FROM".toList :: table.text.take 63 :: back).length
        (columnTokens columns ++ "FROM".toList :: table.text.take 63 :: back) =
        ((columns.map Column.normal).map Column.text,
          "FROM".toList :: table.text.take 63 :: back) := by
      have hspells := spells_text (sepBy ((columns.map Column.normal).map Column.symbols))
      rw [← columns_normal hcolumns] at hspells
      refine selectColumnsLoop_spelled hspells (by decide) _ ?_
      rw [List.length_append, List.length_cons]
      exact Nat.lt_add_of_pos_right (Nat.succ_pos _)
    obtain ⟨sql', hselect⟩ := parseSelect_conds dirty hloop (by decide)
    have hprinted : printedTokens (Statement.select columns table conds order limit).stored =
        "SELECT".toList :: (columnTokens columns ++ "FROM".toList :: table.text.take 63 :: back) :=
      printedTokens_select columns table conds order limit
    have hparse := h dirty
    rw [hprinted] at hparse
    have hstored : (parseSelect dirty (columnTokens columns ++
        "FROM".toList :: table.text.take 63 :: back) parsedNew).conds =
        (withWhere Uninit.zero conds (selectStored columns table order limit)).conds :=
      congrArg ParsedSQL.conds (Option.some.inj hparse)
    exact not_between_of_parse rfl _ (noLink_selectEnd order limit) hsafe (hselect.symm.trans hstored)
  have hconds := survives_of_stored hfits hsafe hop
  refine ⟨hcolumns, hconds, fun n hn => ?_⟩
  have hlimit := congrArg (Option.map ParsedSQL.limit)
    ((h Uninit.zero).symm.trans (parse_select hcolumns hconds Uninit.zero))
  obtain rfl := Option.mem_def.mp hn
  have hvalue : (Statement.select columns table conds order (some n)).stored.limit = atoi n := by
    cases conds <;> rfl
  rw [Option.map_some, Option.map_some, hvalue, Option.some.injEq] at hlimit
  simp only [Option.map_some, Option.getD_some] at hlimit
  split_ifs at hlimit with hpos
  · omega
  · omega

theorem survives_delete {table : Name} {conds : Option Where}
    (hfits : (Statement.delete table conds).Fits)
    (h : ∀ mem, parseTokens mem (printedTokens (Statement.delete table conds).stored) =
      some (Statement.delete table conds).stored) : (Statement.delete table conds).Survives := by
  have hsafe := ((parseTokens_from (h Uninit.zero)).safe (steady_delete table conds)).1
  have hparse := h dirty
  rw [printedTokens_delete] at hparse
  have hstored := congrArg ParsedSQL.conds (Option.some.inj hparse)
  refine survives_of_stored hfits hsafe (not_between_of_parse rfl [[';']] ?_ hsafe hstored)
  intro t ht
  obtain rfl : [';'] = t := by simpa using ht
  exact ⟨by decide, by decide⟩

theorem survives_update {table : Name} {sets : List (Name × Literal)} {conds : Option Where}
    (hfits : (Statement.update table sets conds).Fits)
    (h : ∀ mem, parseTokens mem (printedTokens (Statement.update table sets conds).stored) =
      some (Statement.update table sets conds).stored) :
    (Statement.update table sets conds).Survives := by
  obtain ⟨hsafe, hsafeSets⟩ := (parseTokens_from (h Uninit.zero)).safe
    (steady_update table sets conds)
  have hstoredSets : (Statement.update table sets conds).stored.sets = sets.map storedSet := by
    rw [stored_update]
    cases conds <;> rfl
  rw [hstoredSets] at hsafeSets
  have hsets := setsSurvive_of_stored hfits.1 hsafeSets
  rw [stored_update] at hsafe
  refine ⟨hsets, survives_of_stored hfits.2 hsafe ?_⟩
  let stored := withWhere Uninit.zero conds { parsedNew with
    type := .update, table := table.text.take 63, sets := sets.map storedSet }
  have hhead : ∀ t ∈ (whereTokens stored ++ [[';']]).head?,
      ieq t "WHERE".toList = true ∨ t = [';'] := by
    intro t ht
    unfold whereTokens at ht
    split_ifs at ht
    · exact Or.inr (by simpa using ht.symm)
    · obtain rfl : "WHERE".toList = t := by simpa using ht
      exact Or.inl (by decide)
  have hloop := setLoop_spelled (sets.map normalSet) (spells_text _) hhead dirty 0
  rw [← setTokens_normal hsets] at hloop
  have hparse := h dirty
  rw [printedTokens_update] at hparse
  change some (parseUpdate dirty (table.text.take 63 :: "SET".toList ::
    (commaTokens ((sets.map storedSet).map fun s => s.column :: ['='] :: valueTokens s.value) ++
      (whereTokens stored ++ [[';']]))) parsedNew) = _ at hparse
  rw [parseUpdate] at hparse
  dsimp only [List.tail_cons] at hparse
  rw [matchTok_ieq (by decide)] at hparse
  dsimp only at hparse
  rw [hloop] at hparse
  have hstored := congrArg ParsedSQL.conds (Option.some.inj hparse)
  rw [stored_update] at hstored
  refine not_between_of_parse rfl [[';']] ?_ hsafe hstored
  intro t ht
  obtain rfl : [';'] = t := by simpa using ht
  exact ⟨by decide, by decide⟩

theorem survives_insert {table : Name} {columns : List Name} {values : List Literal}
    (h : parseSql Uninit.zero (printFormat (Statement.insert table columns values).stored) =
      some (Statement.insert table columns values).stored) :
    (Statement.insert table columns values).Survives := by
  intro v hv
  have hmem := (parseSql_from h).values hv
  rw [tokenize_printFormat (Statement.tokenizable _)] at hmem
  exact safe_insert table columns values v hmem

/-- The stored statement comes back from every memory exactly when the statement survives. -/
theorem Statement.survives_iff {st : Statement} (hfits : st.Fits) :
    (∀ mem, parseTokens mem (printedTokens st.stored) = some st.stored) ↔ st.Survives := by
  cases st with
  | create table defs =>
    rw [Survives, ← readDefs_iff]
    constructor
    · intro h
      have hsql := Option.some.inj ((parse_create table defs Uninit.zero).symm.trans (h Uninit.zero))
      exact congrArg ParsedSQL.colDefs hsql
    · intro h mem
      rw [parse_create, h]
      rfl
  | insert table columns values =>
    constructor
    · intro h
      refine survives_insert ?_
      rw [parseSql, tokenize_printFormat (Statement.tokenizable _)]
      exact h Uninit.zero
    · exact fun h mem => parse_insert h mem
  | select columns table conds order limit =>
    refine ⟨survives_select hfits, fun h mem => ?_⟩
    obtain ⟨hcolumns, hconds, hlimit⟩ := h
    have hstored : (select columns table conds order limit).stored.limit =
        (limit.map atoi).getD (-1) := by
      cases conds <;> rfl
    have hkept : (if 0 ≤ (limit.map atoi).getD (-1) then (limit.map atoi).getD (-1) else -1) =
        (limit.map atoi).getD (-1) := by
      cases limit with
      | none => rfl
      | some n =>
        have := hlimit n rfl
        simp only [Option.map_some, Option.getD_some]
        split_ifs
        · rfl
        · omega
    rw [parse_select hcolumns hconds, hkept, ← hstored]
  | delete table conds => exact ⟨survives_delete hfits, fun h mem => parse_delete h mem⟩
  | update table sets conds => exact ⟨survives_update hfits, fun h mem => parse_update h.1 h.2 mem⟩

/-- **Which statements come back**: parsing, printing and parsing the text of a statement again
gives the same `ParsedSQL` exactly when the statement survives. -/
theorem roundTrips_iff {st : Statement} {s : CStr} (h : st.Spelled (tokenize s)) :
    RoundTrips s ↔ st.Survives := by
  have hparse : ∀ mem, parseSql mem s = some (st.parsed mem) := parseTokens_spelled h
  have hprinted : ∀ mem, parseSql mem (printFormat st.stored) =
      parseTokens mem (printedTokens st.stored) := by
    intro mem
    rw [parseSql, tokenize_printFormat st.tokenizable]
  constructor
  · intro hround
    have hfits : st.Fits :=
      Statement.fits_of_parse (parseTokens_from (hround dirty Uninit.zero _ (hparse dirty)))
    refine (Statement.survives_iff hfits).mp fun mem => ?_
    rw [← hprinted]
    exact hround Uninit.zero mem st.stored (hparse Uninit.zero)
  · intro hsurvives mem mem' sql hsql
    obtain rfl := Option.some.inj ((hparse mem).symm.trans hsql)
    rw [Statement.parsed_of_fits hsurvives.fits mem, hprinted]
    exact (Statement.survives_iff hsurvives.fits).mpr hsurvives mem'

/-- A name and a value for the statements below. -/
def idName : Name :=
  ⟨"id".toList, by decide, List.all_eq_true.mp (by decide), by decide, by decide⟩

def oneLiteral : Literal := ⟨"1".toList, by decide, by decide⟩

def deleteStatement : Statement :=
  .delete idName (some ⟨.compare idName ⟨"=".toList, Or.inl (by decide)⟩ oneLiteral, []⟩)

theorem roundTrips_iff_delete : RoundTrips "DELETE FROM id WHERE id = 1".toList := by
  have hspelled : deleteStatement.Spelled (tokenize "DELETE FROM id WHERE id = 1".toList) :=
    ⟨_, [], by decide +kernel, spells_text _, Or.inl rfl⟩
  refine (roundTrips_iff hspelled).mpr fun w hw c hc => ?_
  obtain rfl := Option.some.inj (Option.mem_def.mp hw)
  obtain rfl := List.mem_singleton.mp hc
  exact ⟨by decide, by decide, Or.inr (List.all_eq_true.mp (by decide))⟩

/-- The upper bound of a `BETWEEN` is not printed. -/
theorem roundTrips_between :
    (∃ st : Statement, st.Spelled (tokenize "SELECT * FROM id WHERE id BETWEEN 1 AND 1".toList)) ∧
      ¬ RoundTrips "SELECT * FROM id WHERE id BETWEEN 1 AND 1".toList := by
  constructor
  · exact ⟨.select [.star] idName (some ⟨.between idName oneLiteral oneLiteral, []⟩) none none,
      _, [], by decide +kernel, spells_text _, Or.inl rfl⟩
  · intro h
    have hparse := h Uninit.zero Uninit.zero
      ((parseSql Uninit.zero "SELECT * FROM id WHERE id BETWEEN 1 AND 1".toList).getD parsedNew)
      (by decide +kernel)
    revert hparse
    decide +kernel

end Grammar

end MiniSql
