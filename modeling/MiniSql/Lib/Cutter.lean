import Mathlib.Data.List.DropRight
import Mathlib.Data.List.Basic

/-!
# Cutting a text at separators

An automaton reads a text and says, at each separator, whether the text is cut there. What stands
between two cuts is trimmed, and left out if it is blank.

## Main definitions

* `Cutter` — the automaton.
* `Cutter.pieces`, `Cutter.statements` — the text between the cuts, and the same trimmed.
* `Cutter.Segments` — what stands between consecutive cuts.

## Main results

* `Cutter.statements_eq_iff` — two automata leave the same statements exactly if they cut the text
  at the same separators.
* `Cutter.segments_iff` — the pieces are the text between consecutive cuts.
-/

namespace MiniSql

variable {α σ τ : Type*} [DecidableEq α]

/-- An automaton that cuts a text at separators. Behind a cut it is in its start state; a blank
does not leave that state, and a separator cuts there. -/
structure Cutter (sep : α) (blank : α → Bool) (σ : Type*) where
  start : σ
  step : σ → α → σ
  cuts : σ → Bool
  cuts_start : cuts start = true
  step_blank : ∀ a, blank a = true → step start a = start
  step_sep : ∀ q, cuts q = true → step q sep = start

/-- A text without the blanks at its ends. -/
def trim (blank : α → Bool) (s : List α) : List α := (s.dropWhile blank).rdropWhile blank

/-! ## Trimming -/

section Trim

variable {blank : α → Bool} {a : α}

omit [DecidableEq α] in
theorem trim_cons_of_not (ha : blank a = false) (s : List α) :
    ∃ t, trim blank (a :: s) = a :: t ∧ t <+: s := by
  have hdrop : (a :: s).dropWhile blank = [a] ++ s := by simp [ha]
  rw [trim, hdrop, List.rdropWhile, List.reverse_append, List.dropWhile_append]
  by_cases hs : (s.reverse.dropWhile blank).isEmpty
  · refine ⟨[], ?_, List.nil_prefix⟩
    simp [hs, ha]
  · refine ⟨(s.reverse.dropWhile blank).reverse, ?_, ?_⟩
    · simp [hs]
    · rw [← List.reverse_suffix, List.reverse_reverse]
      exact List.dropWhile_suffix _

omit [DecidableEq α] in
theorem trim_append_of_blank {x : List α} (hx : ∀ b ∈ x, blank b = true) (s : List α) :
    trim blank (x ++ s) = trim blank s := by
  rw [trim, List.dropWhile_append_of_pos hx]
  rfl

omit [DecidableEq α] in
theorem trim_eq_nil {s : List α} (h : trim blank s = []) : ∀ b ∈ s, blank b = true := by
  intro b hb
  rw [trim, List.rdropWhile_eq_nil_iff] at h
  rw [← List.takeWhile_append_dropWhile (p := blank) (l := s)] at hb
  rcases List.mem_append.mp hb with hb | hb
  · exact List.mem_takeWhile_imp hb
  · exact h b hb

omit [DecidableEq α] in
theorem trim_of_blank {s : List α} (h : ∀ b ∈ s, blank b = true) : trim blank s = [] := by
  rw [trim, List.dropWhile_eq_nil_iff.mpr h]
  rfl

/-- Trimming keeps what is not blank. -/
theorem count_trim (ha : blank a = false) (s : List α) : (trim blank s).count a = s.count a := by
  have hdrop : ∀ l : List α, (l.dropWhile blank).count a = l.count a := by
    intro l
    have hzero : (l.takeWhile blank).count a = 0 := by
      rw [List.count_eq_zero]
      intro hmem
      rw [List.mem_takeWhile_imp hmem] at ha
      exact absurd ha (by decide)
    have hsum := congrArg (List.count a) (List.takeWhile_append_dropWhile (p := blank) (l := l))
    rw [List.count_append, hzero, Nat.zero_add] at hsum
    exact hsum
  rw [trim, List.rdropWhile, List.count_reverse, hdrop, List.count_reverse, hdrop]

end Trim

namespace Cutter

variable {sep : α} {blank : α → Bool} (M : Cutter sep blank σ) (N : Cutter sep blank τ)

/-- The state after a text. -/
def run (q : σ) (s : List α) : σ := s.foldl M.step q

/-- The text between the cuts, where `x` has been read since the last cut. -/
def pieces : List α → σ → List α → List (List α)
  | x, _, [] => [x]
  | x, q, a :: s =>
    if a = sep ∧ M.cuts q = true then x :: pieces [] M.start s
    else pieces (x ++ [a]) (M.step q a) s

/-- The pieces, trimmed, without the blank ones. -/
def trimmedPieces (x : List α) (q : σ) (s : List α) : List (List α) :=
  ((M.pieces x q s).map (trim blank)).filter (· ≠ [])

/-- The statements of a text. -/
def statements (s : List α) : List (List α) := M.trimmedPieces [] M.start s

variable {M N} {x : List α} {q : σ} {q' : τ} {s : List α} {a : α}

theorem pieces_cut (hq : M.cuts q = true) :
    M.pieces x q (sep :: s) = x :: M.pieces [] M.start s := by
  rw [pieces, if_pos ⟨rfl, hq⟩]

theorem pieces_step (h : ¬ (a = sep ∧ M.cuts q = true)) :
    M.pieces x q (a :: s) = M.pieces (x ++ [a]) (M.step q a) s := by
  rw [pieces, if_neg h]

theorem trimmedPieces_cut (hq : M.cuts q = true) :
    M.trimmedPieces x q (sep :: s) =
      (if trim blank x = [] then [] else [trim blank x]) ++ M.statements s := by
  rw [trimmedPieces, pieces_cut hq]
  by_cases hx : trim blank x = []
  · simp [hx, statements, trimmedPieces]
  · simp [hx, statements, trimmedPieces]

theorem trimmedPieces_step (h : ¬ (a = sep ∧ M.cuts q = true)) :
    M.trimmedPieces x q (a :: s) = M.trimmedPieces (x ++ [a]) (M.step q a) s := by
  rw [trimmedPieces, pieces_step h]
  rfl

/-- Blanks in front are trimmed off. -/
theorem trimmedPieces_blank {x : List α} (hx : ∀ b ∈ x, blank b = true) (y : List α) (q : σ)
    (s : List α) : M.trimmedPieces (x ++ y) q s = M.trimmedPieces y q s := by
  induction s generalizing y q with
  | nil => rw [trimmedPieces, trimmedPieces, pieces, pieces, List.map_singleton, List.map_singleton,
      trim_append_of_blank hx]
  | cons a s ih =>
    by_cases h : a = sep ∧ M.cuts q = true
    · obtain ⟨rfl, hq⟩ := h
      rw [trimmedPieces_cut hq, trimmedPieces_cut hq, trim_append_of_blank hx]
    · rw [trimmedPieces_step h, trimmedPieces_step h, List.append_assoc, ih]

theorem statements_blank_append (hsep : blank sep = false) {w : List α}
    (hw : ∀ b ∈ w, blank b = true) (s : List α) : M.statements (w ++ s) = M.statements s := by
  induction w with
  | nil => rfl
  | cons b w ih =>
    have hb : blank b = true := hw b (by simp)
    have hne : b ≠ sep := by
      rintro rfl
      exact absurd (hb.symm.trans hsep) (by decide)
    have hone : ∀ c ∈ [b], blank c = true := by
      intro c hc
      rw [List.mem_singleton.mp hc]
      exact hb
    rw [List.cons_append, statements, trimmedPieces_step fun h => hne h.1, M.step_blank b hb,
      ← ih fun c hc => hw c (List.mem_cons_of_mem b hc)]
    exact trimmedPieces_blank hone [] M.start (w ++ s)

@[simp] theorem statements_nil : M.statements [] = [] := rfl

/-- The first piece goes on with the text. -/
theorem exists_pieces_eq (M : Cutter sep blank σ) (x : List α) (q : σ) (s : List α) :
    ∃ y rest, M.pieces x q s = (x ++ y) :: rest := by
  induction s generalizing x q with
  | nil => exact ⟨[], [], by rw [List.append_nil]; rfl⟩
  | cons a s ih =>
    by_cases h : a = sep ∧ M.cuts q = true
    · obtain ⟨rfl, hq⟩ := h
      exact ⟨[], _, by rw [pieces_cut hq, List.append_nil]⟩
    · obtain ⟨y, rest, hpieces⟩ := ih (x ++ [a]) (M.step q a)
      exact ⟨a :: y, rest, by rw [pieces_step h, hpieces, List.append_assoc]; rfl⟩

/-- If a separator is not a place to cut, the first statement holds it. -/
theorem exists_trimmedPieces_eq (hsep : blank sep = false) (M : Cutter sep blank σ) (x : List α)
    (q : σ) (s : List α) :
    ∃ y rest, M.trimmedPieces (x ++ [sep]) q s = trim blank (x ++ sep :: y) :: rest := by
  obtain ⟨y, rest, hpieces⟩ := exists_pieces_eq M (x ++ [sep]) q s
  have hne : trim blank (x ++ sep :: y) ≠ [] := by
    intro hnil
    have := trim_eq_nil hnil sep (by simp)
    rw [hsep] at this
    exact absurd this (by decide)
  refine ⟨y, (rest.map (trim blank)).filter (· ≠ []), ?_⟩
  rw [trimmedPieces, hpieces, List.append_assoc]
  simp [hne]

/-- No statement at the start of a text starts with a separator. -/
theorem head?_statements (hsep : blank sep = false) {x : List α} (hx : ∀ b ∈ x, blank b = true)
    {z : List α} (hz : (M.trimmedPieces x M.start s).head? = some z) : z.head? ≠ some sep := by
  induction s generalizing x with
  | nil =>
    rw [trimmedPieces, pieces, List.map_singleton, trim_of_blank hx] at hz
    exact absurd hz (by simp)
  | cons a s ih =>
    by_cases ha : a = sep
    · subst ha
      rw [trimmedPieces_cut M.cuts_start, trim_of_blank hx, if_pos rfl, List.nil_append] at hz
      exact ih (by simp) hz
    · rw [trimmedPieces_step fun h => ha h.1] at hz
      by_cases hblank : blank a = true
      · rw [M.step_blank a hblank] at hz
        refine ih ?_ hz
        intro b hb
        rcases List.mem_append.mp hb with hb | hb
        · exact hx b hb
        · rw [List.mem_singleton.mp hb]
          exact hblank
      · obtain ⟨y, rest, hpieces⟩ := exists_pieces_eq M (x ++ [a]) (M.step M.start a) s
        obtain ⟨t, ht, -⟩ := trim_cons_of_not (Bool.not_eq_true _ ▸ hblank) y
        have hfirst : trim blank (x ++ [a] ++ y) = a :: t := by
          rw [List.append_assoc, trim_append_of_blank hx]
          exact ht
        rw [trimmedPieces, hpieces, List.map_cons, hfirst] at hz
        have hzeq : a :: t = z := by simpa using hz
        rw [← hzeq]
        simpa using ha

/-- Where one automaton cuts and the other does not, the statements differ. -/
theorem trimmedPieces_ne (hsep : blank sep = false) (hq : M.cuts q = true) (x : List α) (q' : τ)
    (s : List α) : M.trimmedPieces x q (sep :: s) ≠ N.trimmedPieces (x ++ [sep]) q' s := by
  obtain ⟨y, rest, hN⟩ := exists_trimmedPieces_eq hsep N x q' s
  rw [trimmedPieces_cut hq, hN]
  intro heq
  by_cases hx : trim blank x = []
  · rw [if_pos hx, List.nil_append] at heq
    have hhead := head?_statements (x := []) hsep (by simp) (congrArg List.head? heq)
    obtain ⟨t, ht, -⟩ := trim_cons_of_not hsep y
    rw [trim_append_of_blank (trim_eq_nil hx), ht] at hhead
    exact hhead rfl
  · rw [if_neg hx] at heq
    have hcount := congrArg (List.count sep) (List.cons.inj heq).1
    rw [count_trim hsep, count_trim hsep, List.count_append, List.count_cons_self] at hcount
    omega

/-- The automata agree on the separators of the text. -/
def Agree (M : Cutter sep blank σ) (N : Cutter sep blank τ) (q : σ) (q' : τ) (s : List α) : Prop :=
  ∀ p r, s = p ++ sep :: r → M.cuts (M.run q p) = N.cuts (N.run q' p)

omit [DecidableEq α] in
theorem agree_nil : Agree M N q q' [] := by
  intro p r h
  exact absurd h (by simp)

omit [DecidableEq α] in
theorem agree_cons : Agree M N q q' (a :: s) ↔
    (a = sep → M.cuts q = N.cuts q') ∧ Agree M N (M.step q a) (N.step q' a) s := by
  constructor
  · intro h
    refine ⟨fun ha => h [] s (by rw [ha]; rfl), ?_⟩
    intro p r hs
    exact h (a :: p) r (by rw [hs]; rfl)
  · rintro ⟨hhead, htail⟩ p r hs
    cases p with
    | nil => exact hhead (List.cons.inj hs).1
    | cons b p =>
      obtain ⟨hb, hs'⟩ := List.cons.inj hs
      rw [← hb]
      exact htail p r hs'

theorem trimmedPieces_eq_iff (hsep : blank sep = false) :
    M.trimmedPieces x q s = N.trimmedPieces x q' s ↔ Agree M N q q' s := by
  induction s generalizing x q q' with
  | nil => exact ⟨fun _ => agree_nil, fun _ => rfl⟩
  | cons a s ih =>
    rw [agree_cons]
    by_cases ha : a = sep
    · subst ha
      cases hq : M.cuts q <;> cases hq' : N.cuts q'
      · rw [trimmedPieces_step (by simp [hq]), trimmedPieces_step (by simp [hq']), ih]
        simp
      · have hne := (trimmedPieces_ne (M := N) (N := M) hsep hq' x (M.step q a) s).symm
        rw [trimmedPieces_step (by simp [hq])]
        simp [hne]
      · have hne := trimmedPieces_ne (M := M) (N := N) hsep hq x (N.step q' a) s
        rw [trimmedPieces_step (a := a) (q := q') (by simp [hq'])]
        simp [hne]
      · rw [trimmedPieces_cut hq, trimmedPieces_cut hq', M.step_sep q hq, N.step_sep q' hq',
          List.append_right_inj, statements, statements, ih]
        simp
    · rw [trimmedPieces_step (fun h => ha h.1), trimmedPieces_step (fun h => ha h.1), ih]
      simp [ha]

/-- **The statements are the same exactly if the cuts are.** -/
theorem statements_eq_iff (hsep : blank sep = false) (M : Cutter sep blank σ)
    (N : Cutter sep blank τ) (s : List α) :
    M.statements s = N.statements s ↔
      ∀ p r, s = p ++ sep :: r → M.cuts (M.run M.start p) = N.cuts (N.run N.start p) :=
  trimmedPieces_eq_iff hsep

/-! ## The segments of a text -/

/-- The segments of a text: a separator stands between two of them, and the automaton cuts there and
not within a segment. -/
structure Segments (M : Cutter sep blank σ) (s : List α) (segs : List (List α)) : Prop where
  ne_nil : segs ≠ []
  join : s = [sep].intercalate segs
  closed : ∀ seg ∈ segs.dropLast, M.cuts (M.run M.start seg) = true
  inner : ∀ seg ∈ segs, ∀ p r, seg = p ++ sep :: r → M.cuts (M.run M.start p) = false

/-- A text is read on if it is not cut. -/
theorem pieces_uncut {y : List α} (h : ∀ p r, y = p ++ sep :: r → M.cuts (M.run q p) = false)
    (x : List α) : M.pieces x q y = [x ++ y] := by
  induction y generalizing x q with
  | nil => rw [List.append_nil]; rfl
  | cons a y ih =>
    have hne : ¬ (a = sep ∧ M.cuts q = true) := by
      rintro ⟨rfl, hcut⟩
      exact absurd (hcut.symm.trans (h [] y rfl)) (by decide)
    rw [pieces_step hne, ih fun p r hy => h (a :: p) r (by rw [hy]; rfl), List.append_assoc]
    rfl

/-- It is read up to the first cut. -/
theorem pieces_uncut_append {y : List α}
    (h : ∀ p r, y = p ++ sep :: r → M.cuts (M.run q p) = false) (hcut : M.cuts (M.run q y) = true)
    (x s : List α) : M.pieces x q (y ++ sep :: s) = (x ++ y) :: M.pieces [] M.start s := by
  induction y generalizing x q with
  | nil =>
    change M.cuts q = true at hcut
    rw [List.nil_append, pieces_cut hcut, List.append_nil]
  | cons a y ih =>
    have hne : ¬ (a = sep ∧ M.cuts q = true) := by
      rintro ⟨rfl, hcut'⟩
      exact absurd (hcut'.symm.trans (h [] y rfl)) (by decide)
    rw [List.cons_append, pieces_step hne, ih (fun p r hy => h (a :: p) r (by rw [hy]; rfl)) hcut,
      List.append_assoc]
    rfl

/-- The pieces behind a text that is not cut. -/
theorem segments_pieces (M : Cutter sep blank σ) (s : List α) {x : List α}
    (hx : ∀ p r, x = p ++ sep :: r → M.cuts (M.run M.start p) = false) :
    M.Segments (x ++ s) (M.pieces x (M.run M.start x) s) := by
  induction s generalizing x with
  | nil =>
    rw [List.append_nil, pieces]
    refine ⟨by simp, by simp, by simp, ?_⟩
    intro seg hseg
    rw [List.mem_singleton.mp hseg]
    exact hx
  | cons a s ih =>
    by_cases hcut : a = sep ∧ M.cuts (M.run M.start x) = true
    · obtain ⟨rfl, hcut⟩ := hcut
      obtain ⟨hne, hjoin, hclosed, hinner⟩ := @ih [] (by simp)
      rw [pieces_cut hcut]
      change M.pieces [] M.start s ≠ [] at hne
      refine ⟨by simp, ?_, ?_, ?_⟩
      · change s = [a].intercalate (M.pieces [] M.start s) at hjoin
        rw [List.intercalate_cons_of_ne_nil hne, ← hjoin]
        simp
      · rw [List.dropLast_cons_of_ne_nil hne]
        intro seg hseg
        rcases List.mem_cons.mp hseg with rfl | hseg
        · exact hcut
        · exact hclosed seg hseg
      · intro seg hseg
        rcases List.mem_cons.mp hseg with rfl | hseg
        · exact hx
        · exact hinner seg hseg
    · rw [pieces_step hcut]
      have hrun : M.step (M.run M.start x) a = M.run M.start (x ++ [a]) := by
        rw [run, run, List.foldl_append]
        rfl
      rw [hrun, List.append_cons]
      apply ih
      intro p r heq
      rcases List.eq_nil_or_concat r with rfl | ⟨r, b, rfl⟩
      · obtain ⟨rfl, ha⟩ := List.append_inj' heq rfl
        rw [Bool.eq_false_iff]
        exact fun h => hcut ⟨(List.cons.inj ha).1, h⟩
      · have hsplit : x ++ [a] = (p ++ sep :: r) ++ [b] := by
          rw [heq, List.concat_eq_append, List.append_assoc, List.cons_append]
        exact hx p r (List.append_inj' hsplit rfl).1

/-- **A text has one list of segments, the pieces.** -/
theorem segments_iff {segs : List (List α)} :
    M.Segments s segs ↔ segs = M.pieces [] M.start s := by
  constructor
  · rintro ⟨hne, rfl, hclosed, hinner⟩
    induction segs with
    | nil => exact absurd rfl hne
    | cons seg segs ih =>
      have hseg := hinner seg (by simp)
      cases segs with
      | nil => rw [List.intercalate_singleton, pieces_uncut hseg, List.nil_append]
      | cons seg' segs =>
        have hrest := ih (by simp) (fun t ht => hclosed t (List.mem_cons_of_mem _ ht))
          (fun t ht => hinner t (List.mem_cons_of_mem _ ht))
        rw [List.intercalate_cons_cons, List.append_assoc, List.singleton_append,
          pieces_uncut_append hseg (hclosed seg (by simp)), List.nil_append, ← hrest]
  · rintro rfl
    exact @segments_pieces _ _ _ _ _ M s [] (by simp)

end Cutter

end MiniSql
