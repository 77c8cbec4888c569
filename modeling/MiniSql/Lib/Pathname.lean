import Mathlib.Data.List.Basic

/-!
# Where a path leads

A path is read name by name, from the root directory or from the working directory: an empty name
and `.` stay where they are, `..` goes to the directory above, and any other name goes into a
directory or a file. Links are not followed.

## Main definitions

* `enter` — one name.
* `resolve` — the names from the root directory down to where a path leads.

## Main results

* `resolve_below` — a path without `..` behind a directory stays below it.
-/

namespace Pathname

/-- Where a name leads from a directory. -/
def enter (dir : List (List Char)) (name : List Char) : List (List Char) :=
  if name = [] ∨ name = ['.'] then dir
  else if name = ['.', '.'] then dir.dropLast
  else dir ++ [name]

/-- Where a path leads from a working directory. -/
def resolve (cwd : List (List Char)) (path : List Char) : List (List Char) :=
  (path.splitOn '/').foldl enter (if path.head? = some '/' then [] else cwd)

variable {cwd dir : List (List Char)} {root path name : List Char}

theorem prefix_enter (h : name ≠ ['.', '.']) : dir <+: enter dir name := by
  rw [enter, if_neg h]
  split_ifs
  · exact List.prefix_rfl
  · exact List.prefix_append dir [name]

/-- Names other than `..` do not leave a directory. -/
theorem prefix_foldl_enter {names : List (List Char)} (h : ['.', '.'] ∉ names) :
    dir <+: names.foldl enter dir := by
  induction names generalizing dir with
  | nil => exact List.prefix_rfl
  | cons name names ih =>
    rw [List.mem_cons, not_or] at h
    exact (prefix_enter (Ne.symm h.1)).trans (ih h.2)

theorem infix_intercalate {sep : List Char} {names : List (List Char)} (h : name ∈ names) :
    name <:+: sep.intercalate names := by
  induction names with
  | nil => exact absurd h (by simp)
  | cons first names ih =>
    cases names with
    | nil =>
      rw [List.mem_singleton.mp h]
      simp
    | cons second names =>
      rw [List.intercalate_cons_cons]
      rcases List.mem_cons.mp h with rfl | h
      · exact ⟨[], sep ++ sep.intercalate (second :: names), by simp⟩
      · exact (ih h).trans (List.suffix_append _ _).isInfix

/-- The names of a path are pieces of it. -/
theorem infix_of_mem_splitOn {c : Char} (h : name ∈ path.splitOn c) : name <:+: path := by
  have hinfix := @infix_intercalate _ [c] _ h
  rw [List.intercalate_splitOn] at hinfix
  exact hinfix

/-- A path behind a directory goes on from there. -/
theorem resolve_append (h : root ≠ []) :
    resolve cwd (root ++ '/' :: path) = (path.splitOn '/').foldl enter (resolve cwd root) := by
  obtain ⟨c, root, rfl⟩ := List.exists_cons_of_ne_nil h
  unfold resolve
  rw [List.splitOn_append_cons_self, List.foldl_append, List.cons_append, List.head?_cons,
    List.head?_cons]

/-- **A path in which `..` does not occur stays below the directory that it stands behind.** -/
theorem resolve_below (h : root ≠ []) (hpath : ¬ ['.', '.'] <:+: path) :
    resolve cwd root <+: resolve cwd (root ++ '/' :: path) := by
  rw [resolve_append h]
  apply prefix_foldl_enter
  exact fun hmem => hpath (infix_of_mem_splitOn hmem)

end Pathname
