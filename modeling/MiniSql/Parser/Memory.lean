import MiniSql.Parser.Conditions

/-!
# What uninitialized memory adds to a statement

`strncpy` leaves out the last byte of an array that a token fills. In an array from `realloc` this
byte is what memory held, and where it is not NUL the string runs on into what lies behind.

## Main definitions

* `MemoryFree` — the conditions and assignments are the tokens, cut to the size of the arrays.
* `NoneFills` — no token fills an array of which memory supplies the last byte.

## Main results

* `memoryFree_iff` — these are the same.
-/

namespace MiniSql
open CText

namespace Operands

/-- The condition without what memory adds: the tokens, cut to the size of the arrays. -/
def truncated : Operands → WhereClause
  | compare column op value => ⟨column.take 63, op.take 7, value.take 255, []⟩
  | between column _ low _ high =>
    ⟨column.take 63, "BETWEEN".toList, low.take 255, high.take 255⟩

/-- No token fills an array of which the last byte is never written. -/
def Short : Operands → Prop
  | compare column op value => column.length < 63 ∧ op.length < 7 ∧ value.length < 255
  | between column _ low _ high => column.length < 63 ∧ low.length < 255 ∧ high.length < 255

instance : DecidablePred Short := fun o => by
  cases o <;> exact inferInstanceAs (Decidable (_ ∧ _))

end Operands

/-- Each string ends within its array. -/
structure WhereClause.Terminated (w : WhereClause) : Prop where
  column : w.column.length < 64
  op : w.op.length < 8
  value : w.value.length < 256
  valueTo : w.valueTo.length < 256

@[inherit_doc WhereClause.Terminated]
structure SetClause.Terminated (s : SetClause) : Prop where
  column : s.column.length < 64
  value : s.value.length < 256

/-- An assignment without what memory adds. -/
def truncatedSet (p : CStr × CStr) : SetClause := ⟨p.1.take 63, p.2.take 255⟩

/-- The conditions and assignments of a text are the same whatever memory holds: strings that end
within their arrays, and the tokens cut to the size of these. -/
structure MemoryFree (input : CStr) : Prop where
  same : ∀ mem mem' sql sql', parseSql mem input = some sql → parseSql mem' input = some sql' →
    sql.conds = sql'.conds ∧ sql.sets = sql'.sets
  conds : ∀ mem sql, parseSql mem input = some sql →
    sql.conds = (conditionsOf input).1.map Operands.truncated ∧ ∀ w ∈ sql.conds, w.Terminated
  sets : ∀ mem sql, parseSql mem input = some sql →
    sql.sets = (assignmentsOf input).map truncatedSet ∧ ∀ s ∈ sql.sets, s.Terminated

/-- No token fills an array that comes from `realloc`. The first four assignments are in memory
from `calloc`, and so is the `BETWEEN` of a complete range terminated by hand. -/
structure NoneFills (input : CStr) : Prop where
  conds : ∀ o ∈ (conditionsOf input).1, o.Short
  sets : ∀ p ∈ (assignmentsOf input).drop 4, p.1.length < 63 ∧ p.2.length < 255

theorem cField_eq_take {size : ℕ} {token : CStr} (h : token.length < size - 1) (last : Char)
    (behind : CStr) : cField size token last behind = token.take (size - 1) := by
  rw [cField_of_lt h, List.take_of_length_le h.le]

/-- A token that fills an array runs over its end when the last byte is not NUL. -/
theorem length_cField_x {size : ℕ} {token : CStr} (h : ¬ token.length < size - 1)
    (behind : CStr) : size - 1 < (cField size token 'x' behind).length := by
  rw [cField, if_neg h, List.length_append, List.length_take]
  have hpos : 0 < (cstr ('x' :: behind)).length := by
    simp [cstr]
  omega

namespace Operands

theorem clause_of_short {o : Operands} (h : o.Short) (mem : Uninit) (i : ℕ) :
    o.clause mem i = o.truncated := by
  cases o with
  | compare column op value =>
    obtain ⟨hcolumn, hop, hvalue⟩ := h
    simp only [clause, whereClause, truncated]
    rw [@cField_eq_take 256 value hvalue, @cField_eq_take 8 op hop,
      @cField_eq_take 64 column hcolumn]
  | between column op low andTok high =>
    obtain ⟨hcolumn, hlow, hhigh⟩ := h
    simp only [clause, betweenClause, truncated]
    rw [@cField_eq_take 256 low hlow, @cField_eq_take 256 high hhigh,
      @cField_eq_take 64 column hcolumn]

theorem truncated_terminated (o : Operands) : o.truncated.Terminated := by
  have htake : ∀ (n : ℕ) (s : CStr), (s.take n).length < n + 1 := by
    intro n s
    rw [List.length_take]
    omega
  cases o with
  | compare column op value => exact ⟨htake 63 _, htake 7 _, htake 255 _, by simp [truncated]⟩
  | between column op low andTok high =>
    exact ⟨htake 63 _, by simp [truncated], htake 255 _, htake 255 _⟩

end Operands

/-- Memory that holds no NUL byte. -/
def Uninit.noisy : Uninit :=
  ⟨fun _ => 'x', fun _ => 'x', fun _ => 'x', fun _ => 'x', fun _ => [],
    fun _ => 'x', fun _ => 'x', fun _ => []⟩

theorem Operands.short_of_terminated {o : Operands} {i : ℕ}
    (h : (o.clause .noisy i).Terminated) : o.Short := by
  have hfits : ∀ {size : ℕ} {token behind : CStr},
      (cField size token 'x' behind).length < size → token.length < size - 1 := by
    intro size token behind hlength
    by_contra hfull
    have := length_cField_x hfull behind
    omega
  cases o with
  | compare column op value => exact ⟨hfits h.column, hfits h.op, hfits h.value⟩
  | between column op low andTok high => exact ⟨hfits h.column, hfits h.value, hfits h.valueTo⟩

theorem mem_clausesFrom {mem : Uninit} {k : ℕ} {os : List Operands} {o : Operands} (h : o ∈ os) :
    ∃ i, o.clause mem i ∈ clausesFrom mem k os := by
  induction os generalizing k with
  | nil => exact absurd h (by simp)
  | cons o' os ih =>
    rcases List.mem_cons.mp h with rfl | h
    · exact ⟨k, List.mem_cons_self⟩
    · obtain ⟨i, hi⟩ := @ih (k + 1) h
      exact ⟨i, List.mem_cons_of_mem _ hi⟩

theorem clausesFrom_of_short {os : List Operands} (h : ∀ o ∈ os, o.Short) (mem : Uninit) (k : ℕ) :
    clausesFrom mem k os = os.map Operands.truncated := by
  induction os generalizing k with
  | nil => rfl
  | cons o os ih =>
    rw [clausesFrom, ih (fun o ho => h o (List.mem_cons_of_mem _ ho)),
      Operands.clause_of_short (h o List.mem_cons_self), List.map_cons]

/-- An assignment is the tokens if it comes from `calloc` or fills no array. -/
theorem setClause_eq {i : ℕ} {p : CStr × CStr} (h : 4 ≤ i → p.1.length < 63 ∧ p.2.length < 255)
    (mem : Uninit) : setClause mem i p.1 p.2 = truncatedSet p := by
  unfold setClause truncatedSet
  dsimp only
  by_cases hi : i < 4
  · rw [if_pos hi, if_pos hi, cField_nul, cField_nul]
  · obtain ⟨hcolumn, hvalue⟩ := h (by omega)
    rw [@cField_eq_take 256 p.2 hvalue, @cField_eq_take 64 p.1 hcolumn]

theorem setsFrom_of_short {ps : List (CStr × CStr)} {i : ℕ}
    (h : ∀ p ∈ ps.drop (4 - i), p.1.length < 63 ∧ p.2.length < 255) (mem : Uninit) :
    setsFrom mem i ps = ps.map truncatedSet := by
  induction ps generalizing i with
  | nil => rfl
  | cons p ps ih =>
    rw [setsFrom, List.map_cons, setClause_eq, ih]
    · intro q hq
      apply h q
      by_cases hi : i < 4
      · have hdrop : 4 - i = 4 - (i + 1) + 1 := by omega
        rw [hdrop, List.drop_succ_cons]
        exact hq
      · have hdrop : 4 - i = 0 := by omega
        have hdrop' : 4 - (i + 1) = 0 := by omega
        rw [hdrop'] at hq
        rw [hdrop]
        exact List.mem_cons_of_mem _ hq
    · intro hi
      apply h p
      have hdrop : 4 - i = 0 := by omega
      rw [hdrop]
      exact List.mem_cons_self

theorem mem_setsFrom {mem : Uninit} {i : ℕ} {ps : List (CStr × CStr)} {p : CStr × CStr}
    (h : p ∈ ps.drop (4 - i)) : ∃ j, 4 ≤ j ∧ setClause mem j p.1 p.2 ∈ setsFrom mem i ps := by
  induction ps generalizing i with
  | nil => exact absurd h (by simp)
  | cons q ps ih =>
    by_cases hi : i < 4
    · have hdrop : 4 - i = 4 - (i + 1) + 1 := by omega
      rw [hdrop, List.drop_succ_cons] at h
      obtain ⟨j, hj, hmem⟩ := ih h
      exact ⟨j, hj, List.mem_cons_of_mem _ hmem⟩
    · have hdrop : 4 - i = 0 := by omega
      rw [hdrop] at h
      rcases List.mem_cons.mp h with rfl | h
      · exact ⟨i, by omega, List.mem_cons_self⟩
      · have hdrop' : 4 - (i + 1) = 0 := by omega
        obtain ⟨j, hj, hmem⟩ := @ih (i + 1) (by rw [hdrop']; exact h)
        exact ⟨j, hj, List.mem_cons_of_mem _ hmem⟩

theorem memoryFree_of_noneFills {input : CStr} (h : NoneFills input) : MemoryFree input := by
  have hconds : ∀ mem sql, parseSql mem input = some sql →
      sql.conds = (conditionsOf input).1.map Operands.truncated := by
    intro mem sql hsql
    rw [(whereFields_parseSql hsql).conds, clausesFrom_of_short h.conds]
  have hsets : ∀ mem sql, parseSql mem input = some sql →
      sql.sets = (assignmentsOf input).map truncatedSet := by
    intro mem sql hsql
    rw [sets_parseSql hsql, setsFrom_of_short h.sets]
  refine ⟨?_, ?_, ?_⟩
  · intro mem mem' sql sql' hsql hsql'
    rw [hconds mem sql hsql, hconds mem' sql' hsql', hsets mem sql hsql, hsets mem' sql' hsql']
    exact ⟨rfl, rfl⟩
  · intro mem sql hsql
    refine ⟨hconds mem sql hsql, ?_⟩
    intro w hw
    rw [hconds mem sql hsql] at hw
    obtain ⟨o, -, rfl⟩ := List.mem_map.mp hw
    exact o.truncated_terminated
  · intro mem sql hsql
    refine ⟨hsets mem sql hsql, ?_⟩
    intro set hset
    rw [hsets mem sql hsql] at hset
    obtain ⟨p, -, rfl⟩ := List.mem_map.mp hset
    constructor
    · have := List.length_take_le 63 p.1
      simp only [truncatedSet]
      omega
    · have := List.length_take_le 255 p.2
      simp only [truncatedSet]
      omega

/-- A text without tokens has no conditions and no assignments. -/
theorem noneFills_of_none {mem : Uninit} {input : CStr} (h : parseSql mem input = none) :
    NoneFills input := by
  have htokens : tokenize input = [] := by
    unfold parseSql at h
    cases htok : tokenize input with
    | nil => rfl
    | cons kw ts =>
      rw [htok, parseTokens] at h
      exact absurd h (Option.some_ne_none _)
  constructor
  · intro o ho
    rw [conditionsOf, htokens] at ho
    exact absurd ho List.not_mem_nil
  · intro p hp
    rw [assignmentsOf, htokens] at hp
    exact absurd hp List.not_mem_nil

/-- Memory without NUL bytes shows in every array that a token fills. -/
theorem noneFills_of_memoryFree {input : CStr} (h : MemoryFree input) : NoneFills input := by
  cases hsql : parseSql .noisy input with
  | none => exact noneFills_of_none hsql
  | some sql =>
    constructor
    · intro o ho
      obtain ⟨i, hi⟩ := @mem_clausesFrom .noisy 0 _ o ho
      rw [← (whereFields_parseSql hsql).conds] at hi
      exact Operands.short_of_terminated ((h.conds .noisy sql hsql).2 _ hi)
    · intro p hp
      obtain ⟨j, hj, hmem⟩ := @mem_setsFrom .noisy 0 _ p hp
      rw [← sets_parseSql hsql] at hmem
      have hterm := (h.sets .noisy sql hsql).2 _ hmem
      have hcolumn := hterm.column
      have hvalue := hterm.value
      have hlate : ¬ j < 4 := by omega
      unfold setClause at hcolumn hvalue
      simp only [if_neg hlate] at hcolumn hvalue
      constructor
      · by_contra hfull
        have := @length_cField_x 64 p.1 hfull
          (cField 256 p.2 (Uninit.noisy.setValue j) (Uninit.noisy.behindSet j))
        simp only [Uninit.noisy] at this hcolumn
        omega
      · by_contra hfull
        have := @length_cField_x 256 p.2 hfull (Uninit.noisy.behindSet j)
        simp only [Uninit.noisy] at this hvalue
        omega

/-- **The conditions and assignments do not depend on memory exactly when no token fills an array
of which memory supplies the last byte.** -/
theorem memoryFree_iff (input : CStr) : MemoryFree input ↔ NoneFills input :=
  ⟨noneFills_of_memoryFree, memoryFree_of_noneFills⟩

/-- A condition on a column with a name of 63 bytes. -/
def longColumnText : CStr :=
  "SELECT * FROM t WHERE ".toList ++ List.replicate 63 'c' ++ " = 1".toList

theorem not_memoryFree_longColumn : ¬ MemoryFree longColumnText := by
  intro h
  have hzero : ∃ sql, parseSql .zero longColumnText = some sql ∧
      sql.conds = [⟨List.replicate 63 'c', ['='], ['1'], []⟩] :=
    ⟨(parseSql .zero longColumnText).getD parsedNew, by decide +kernel, by decide +kernel⟩
  have hnoisy : ∃ sql, parseSql .noisy longColumnText = some sql ∧
      sql.conds = [⟨List.replicate 63 'c' ++ ['x', '='], ['='], ['1'], []⟩] :=
    ⟨(parseSql .noisy longColumnText).getD parsedNew, by decide +kernel, by decide +kernel⟩
  obtain ⟨sql, hsql, hconds⟩ := hzero
  obtain ⟨sql', hsql', hconds'⟩ := hnoisy
  have hsame := (h.same .zero .noisy sql sql' hsql hsql').1
  rw [hconds, hconds'] at hsame
  exact absurd hsame (by decide)

end MiniSql
