import Mathlib.Computability.Language
import Mathlib.Data.List.SplitBy
import MiniSql.Where

/-!
# What a condition means

`row_matches_delete` keeps two flags while it goes through the conditions. Its result is the
disjunction over the runs of conditions that `AND` joins. `like_match` decides the language of
its pattern, in which every character stands for a set of texts.

## Main definitions

* `andRuns`, `standardReading` — a `WHERE` clause in which `AND` binds tighter than `OR`.
* `likeLanguage` — the texts a pattern describes.
* `likeMatchSteps` — `like_match` with its loops and calls as they stand.

## Main results

* `rowMatchesDelete_eq` — when the conditions can be evaluated, and what comes out.
* `likeMatch_mem_likeLanguage` — `like_match` returns, and accepts the language of the pattern.
-/

namespace MiniSql
open CText

/-! ## Conditions joined by `AND` and `OR` -/

section Runs

variable [CDouble]

/-- The connective behind condition `i` is `AND`. -/
def linkIsAnd (sql : ParsedSQL) (i : ℕ) : Bool :=
  equalsIgnoreCase (resolveWhereLink sql i) "AND".toList

/-- The connective behind condition `i` is `OR`. -/
def linkIsOr (sql : ParsedSQL) (i : ℕ) : Bool :=
  equalsIgnoreCase (resolveWhereLink sql i) "OR".toList

/-- The numbers of the conditions, cut into the longest runs that `AND` joins. -/
def andRuns (sql : ParsedSQL) : List (List ℕ) :=
  (List.range sql.conds.length).splitBy fun i _ => linkIsAnd sql i

/-- The value of condition `i` on a row. -/
def conditionValue (schema : List ColDef) (row : Row) (sql : ParsedSQL) (i : ℕ) : Option Bool :=
  sql.conds[i]?.bind (evaluateSelectClause schema row)

/-- Some run holds altogether; a clause without conditions holds. -/
def standardReading (schema : List ColDef) (row : Row) (sql : ParsedSQL) : Bool :=
  sql.conds.isEmpty ||
    (andRuns sql).any fun run => run.all fun i => conditionValue schema row sql i == some true

/-- Every condition has a value, and every connective is `AND` or `OR`. -/
def Evaluates (schema : List ColDef) (row : Row) (sql : ParsedSQL) : Prop :=
  (∀ clause ∈ sql.conds, (evaluateSelectClause schema row clause).isSome) ∧
    ∀ i < sql.conds.length - 1, linkIsAnd sql i ∨ linkIsOr sql i

instance (schema : List ColDef) (row : Row) (sql : ParsedSQL) :
    Decidable (Evaluates schema row sql) := inferInstanceAs (Decidable (_ ∧ _))

/-- The loop from condition `index + 1` on. `runs` are the runs that are closed and `run` the
one that is open, both turned round, the latter without condition `index`. -/
theorem matchLoop_eq {schema : List ColDef} {row : Row} {sql : ParsedSQL} {index : ℕ}
    {clauses : List WhereClause} (hclauses : sql.conds.drop (index + 1) = clauses)
    (runs : List (List ℕ)) (run : List ℕ) :
    let holds := fun i => conditionValue schema row sql i == some true
    matchLoop schema row sql (index + 1) clauses (runs.any fun r => r.all holds)
        ((index :: run).all holds) =
      if (∀ clause ∈ clauses, (evaluateSelectClause schema row clause).isSome) ∧
          ∀ i, index ≤ i → i < index + clauses.length → linkIsAnd sql i ∨ linkIsOr sql i then
        some ((List.splitBy.loop (fun i _ => linkIsAnd sql i)
          (List.range' (index + 1) clauses.length) index run runs).any fun r => r.all holds)
      else none := by
  intro holds
  induction clauses generalizing index runs run with
  | nil =>
    rw [if_pos ⟨by simp, by intro i hi hlt; simp at hlt; omega⟩]
    simp [matchLoop, List.splitBy.loop, Bool.or_comm, Bool.and_comm]
  | cons clause clauses ih =>
    have hget : sql.conds[index + 1]? = some clause := by
      rw [← List.head?_drop, hclauses, List.head?_cons]
    have hnext : sql.conds.drop (index + 1 + 1) = clauses := by
      rw [← List.tail_drop, hclauses, List.tail_cons]
    rw [matchLoop, Nat.add_sub_cancel]
    cases hvalue : evaluateSelectClause schema row clause with
    | none => rw [if_neg (by simp [hvalue])]
    | some m =>
      have hm : holds (index + 1) = m := by
        simp [holds, conditionValue, hget, hvalue]
      have hvalues : (∀ c ∈ clause :: clauses, (evaluateSelectClause schema row c).isSome) ↔
          ∀ c ∈ clauses, (evaluateSelectClause schema row c).isSome := by simp [hvalue]
      have hlinks : (linkIsAnd sql index ∨ linkIsOr sql index) →
          ((∀ i, index ≤ i → i < index + (clauses.length + 1) → linkIsAnd sql i ∨ linkIsOr sql i) ↔
            ∀ i, index + 1 ≤ i → i < index + 1 + clauses.length →
              linkIsAnd sql i ∨ linkIsOr sql i) := by
        intro hindex
        refine ⟨fun h i hi hlt => h i (by omega) (by omega), fun h i hi hlt => ?_⟩
        rcases Nat.eq_or_lt_of_le hi with rfl | hi
        · exact hindex
        · exact h i (by omega) (by omega)
      rw [List.length_cons, List.range'_succ]
      dsimp only
      rw [← linkIsAnd, ← linkIsOr]
      cases hand : linkIsAnd sql index with
      | true =>
        rw [if_pos rfl, List.splitBy.loop, hand]
        have hrun : ((index + 1) :: index :: run).all holds = ((index :: run).all holds && m) := by
          rw [List.all_cons, hm, Bool.and_comm]
        rw [← hrun]
        exact (ih hnext runs (index :: run)).trans
          (if_congr (and_congr hvalues (hlinks (.inl hand))).symm rfl rfl)
      | false =>
        rw [if_neg Bool.false_ne_true]
        cases hor : linkIsOr sql index with
        | true =>
          rw [if_pos rfl, List.splitBy.loop, hand]
          have hruns : ((index :: run).reverse :: runs).any (fun r => r.all holds) =
              (runs.any (fun r => r.all holds) || (index :: run).all holds) := by
            rw [List.any_cons, List.all_reverse, Bool.or_comm]
          have hrun : [index + 1].all holds = m := by simp [hm]
          rw [← hruns, ← hrun]
          exact (ih hnext ((index :: run).reverse :: runs) []).trans
            (if_congr (and_congr hvalues (hlinks (.inr hor))).symm rfl rfl)
        | false =>
          rw [if_neg Bool.false_ne_true, if_neg]
          rintro ⟨-, h⟩
          simpa [hand, hor] using h index le_rfl (by omega)

/-- **The conditions of a row are the disjunction, over the runs joined by `AND`, of the
conjunction of each run; they have a value when each of them has one and no connective is
unknown.** -/
theorem rowMatchesDelete_eq (schema : List ColDef) (row : Row) (sql : ParsedSQL) :
    rowMatchesDelete schema row sql =
      if Evaluates schema row sql then some (standardReading schema row sql) else none := by
  unfold rowMatchesDelete
  cases hconds : sql.conds with
  | nil => simp [Evaluates, standardReading, hconds]
  | cons clause clauses =>
    dsimp only
    cases hvalue : evaluateSelectClause schema row clause with
    | none =>
      rw [if_neg]
      · rfl
      · rintro ⟨h, -⟩
        simpa [hvalue] using h clause (by simp [hconds])
    | some m =>
      have hm : [0].all (fun i => conditionValue schema row sql i == some true) = m := by
        simp [conditionValue, hconds, hvalue]
      have hloop := @matchLoop_eq _ schema row sql 0 clauses (by simp [hconds]) [] []
      dsimp only at hloop
      rw [Option.bind_some, ← hm]
      refine hloop.trans (if_congr ?_ ?_ rfl)
      · simp [Evaluates, hconds, hvalue]
      · simp [standardReading, hconds, andRuns, List.splitBy, List.range_eq_range',
          List.range'_succ]

end Runs

/-! ## Patterns -/

section Patterns

/-- The texts a character of a pattern stands for. -/
def likeCharLanguage (c : Char) : Language Char :=
  {text : CStr | c = '%' ∨ if c = '_' then text.length = 1 else text = [c]}

theorem mem_likeCharLanguage {c : Char} {text : CStr} : text ∈ likeCharLanguage c ↔
    c = '%' ∨ if c = '_' then text.length = 1 else text = [c] := Iff.rfl

/-- The texts a pattern describes. -/
def likeLanguage (pattern : CStr) : Language Char := (pattern.map likeCharLanguage).prod

@[simp] theorem likeLanguage_nil : likeLanguage [] = 1 := rfl

@[simp] theorem likeLanguage_cons (c : Char) (pattern : CStr) :
    likeLanguage (c :: pattern) = likeCharLanguage c * likeLanguage pattern := List.prod_cons

theorem mem_univ_mul {language : Language Char} {text : CStr} :
    text ∈ likeCharLanguage '%' * language ↔ ∃ t ∈ text.tails, t ∈ language := by
  simp only [Language.mem_mul, List.mem_tails]
  constructor
  · rintro ⟨a, -, t, ht, rfl⟩
    exact ⟨t, List.suffix_append a t, ht⟩
  · rintro ⟨t, ⟨a, rfl⟩, ht⟩
    exact ⟨a, .inl rfl, t, ht, rfl⟩

/-- A character other than `%` takes one character of the text. -/
theorem mem_likeCharLanguage_mul {c : Char} (hc : c ≠ '%') {language : Language Char}
    {text : CStr} :
    text ∈ likeCharLanguage c * language ↔ likeChar c text = true ∧ text.tail ∈ language := by
  have hlanguage : ∀ a, a ∈ likeCharLanguage c ↔ ∃ d, a = [d] ∧ (c = '_' ∨ d = c) := by
    intro a
    rw [mem_likeCharLanguage, or_iff_right hc]
    split
    · rename_i hany
      simp only [hany, true_or, and_true]
      exact List.length_eq_one_iff
    · rename_i hone
      simp only [hone, false_or, exists_eq_right]
  rw [Language.mem_mul]
  cases text with
  | nil =>
    refine iff_of_false ?_ (by simp [likeChar])
    rintro ⟨a, ha, b, -, hab⟩
    obtain ⟨d, rfl, -⟩ := (hlanguage a).mp ha
    exact absurd hab (by simp)
  | cons d text =>
    simp only [likeChar, Bool.or_eq_true, beq_iff_eq, List.tail_cons]
    constructor
    · rintro ⟨a, ha, b, hb, hab⟩
      obtain ⟨e, rfl, he⟩ := (hlanguage a).mp ha
      obtain ⟨rfl, rfl⟩ := List.cons.inj hab
      exact ⟨he, hb⟩
    · rintro ⟨hd, htext⟩
      exact ⟨[d], (hlanguage _).mpr ⟨d, rfl, hd⟩, text, htext, rfl⟩

/-- The loop decides the language of the rest of the pattern, behind a `%` if the flag says so. -/
theorem likeLoop_iff (pattern text : CStr) :
    (likeLoop false pattern text = true ↔ text ∈ likeLanguage pattern) ∧
      (likeLoop true pattern text = true ↔ text ∈ likeCharLanguage '%' * likeLanguage pattern) := by
  induction pattern generalizing text with
  | nil =>
    constructor
    · simp [likeLoop]
    · refine iff_of_true rfl (mem_univ_mul.mpr ⟨[], ?_, rfl⟩)
      simp
  | cons c pattern ih =>
    by_cases hc : c = '%'
    · subst hc
      have hloop : ∀ percent, likeLoop percent ('%' :: pattern) text = likeLoop true pattern text := by
        intro percent
        cases percent <;> rw [likeLoop, if_pos rfl]
      rw [hloop, hloop, likeLanguage_cons, (ih text).2]
      refine ⟨Iff.rfl, ?_⟩
      simp only [mem_univ_mul]
      constructor
      · rintro ⟨t, ht, hmem⟩
        exact ⟨text, by simp, t, ht, hmem⟩
      · rintro ⟨s, hs, t, ht, hmem⟩
        rw [List.mem_tails] at hs ht
        exact ⟨t, (List.mem_tails _ _).mpr (ht.trans hs), hmem⟩
    · rw [likeLanguage_cons, mem_univ_mul]
      constructor
      · rw [likeLoop, if_neg hc, if_neg Bool.false_ne_true, Bool.and_eq_true, (ih _).1,
          mem_likeCharLanguage_mul hc]
      · rw [likeLoop, if_neg hc, if_pos rfl, List.any_eq_true]
        refine exists_congr fun t => and_congr_right fun _ => ?_
        rw [Bool.and_eq_true, (ih _).1, mem_likeCharLanguage_mul hc]

/-! ### The calls of `like_match` -/

/-- The loop over the text behind a `%`, with `call` for `like_match`: the first suffix that
matches, and the empty one last. -/
def firstMatch (call : CStr → Option Bool) : CStr → Option Bool
  | [] => call []
  | d :: text =>
    match call (d :: text) with
    | none => none
    | some true => some true
    | some false => firstMatch call text

/-- `like_match` as the source has it. A turn of its loop and a call of itself each cost one
step; `none` when the steps are used up. -/
def likeMatchSteps : ℕ → CStr → CStr → Option Bool
  | 0, _, _ => none
  | _ + 1, text, [] => some (text == [])
  | n + 1, text, c :: pattern =>
    if c = '%' then
      let pattern := pattern.dropWhile (· == '%')
      if pattern = [] then some true
      else firstMatch (fun text => likeMatchSteps n text pattern) text
    else if c = '_' then
      match text with
      | [] => some false
      | _ :: text => likeMatchSteps n text pattern
    else
      match text with
      | [] => some false
      | d :: text => if d ≠ c then some false else likeMatchSteps n text pattern

theorem firstMatch_eq {call : CStr → Option Bool} {matches' : CStr → Bool} {text : CStr}
    (h : ∀ t, call t = some (matches' t)) : firstMatch call text = some (text.tails.any matches') := by
  induction text with
  | nil => simp [firstMatch, h]
  | cons d text ih =>
    rw [firstMatch, h]
    cases hd : matches' (d :: text) with
    | true => simp [hd]
    | false => simp [hd, ih]

/-- Behind a `%`, further ones change nothing. -/
theorem likeLoop_dropWhile (pattern text : CStr) :
    likeLoop true pattern text = likeLoop true (pattern.dropWhile (· == '%')) text := by
  induction pattern with
  | nil => rfl
  | cons c pattern ih =>
    by_cases hc : c = '%'
    · rw [likeLoop, if_pos hc, ih, List.dropWhile_cons_of_pos (by simp [hc])]
    · rw [List.dropWhile_cons_of_neg (by simp [hc])]

/-- Behind a `%` the rest of the pattern is tried at every suffix of the text. -/
theorem likeLoop_tails {c : Char} (hc : c ≠ '%') (pattern text : CStr) :
    likeLoop true (c :: pattern) text = text.tails.any fun t => likeMatch t (c :: pattern) := by
  rw [likeLoop, if_neg hc, if_pos rfl]
  refine congrArg (List.any _) (funext fun t => ?_)
  rw [likeMatch, likeLoop, if_neg hc, if_neg Bool.false_ne_true]

/-- One step for each character of the pattern, and one for its end, are enough. -/
theorem likeMatchSteps_eq {n : ℕ} {pattern : CStr} (h : pattern.length < n) (text : CStr) :
    likeMatchSteps n text pattern = some (likeMatch text pattern) := by
  induction n generalizing pattern text with
  | zero => omega
  | succ n ih =>
    cases pattern with
    | nil => rfl
    | cons c pattern =>
      have hlen : pattern.length < n := by simpa using h
      rw [likeMatchSteps.eq_def, likeMatch, likeLoop]
      dsimp only
      by_cases hc : c = '%'
      · rw [if_pos hc, if_pos hc, likeLoop_dropWhile]
        have hrest : (pattern.dropWhile (· == '%')).length < n :=
          lt_of_le_of_lt (List.length_dropWhile_le _ _) hlen
        have hhead : (pattern.dropWhile (· == '%')).head? ≠ some '%' := by
          intro hhead
          have := List.head?_dropWhile_not (· == '%') pattern
          simp [hhead] at this
        cases hp : pattern.dropWhile (· == '%') with
        | nil => rfl
        | cons d rest =>
          rw [hp] at hrest hhead
          rw [if_neg (by simp), firstMatch_eq fun t => ih hrest t,
            likeLoop_tails (by simpa using hhead)]
      · rw [if_neg hc, if_neg hc, if_neg Bool.false_ne_true]
        cases text with
        | nil => simp [likeChar]
        | cons d text =>
          simp only [ih hlen]
          rw [List.tail_cons, likeChar, likeMatch]
          by_cases hany : c = '_'
          · simp [hany]
          · by_cases hd : d = c <;> simp [hany, hd]

/-- **`like_match` returns, and it returns `1` on the texts of the language of the pattern.** -/
theorem likeMatch_mem_likeLanguage (text pattern : CStr) :
    (∃ n, likeMatchSteps n text pattern = some (likeMatch text pattern)) ∧
      (likeMatch text pattern = true ↔ text ∈ likeLanguage pattern) :=
  ⟨⟨pattern.length + 1, likeMatchSteps_eq (Nat.lt_succ_self _) text⟩, (likeLoop_iff pattern text).1⟩

end Patterns

end MiniSql
