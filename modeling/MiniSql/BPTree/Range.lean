import MiniSql.BPTree.Shape

/-!
# Range searches

`bptree_range` descends to the leaf in charge of the lower bound and walks along the leaves
from there. No leaf before this one holds a key of the range, and the walk ends at the first
key above the range.

## Main results

* `bptreeRange_eq` — a range search returns the content between its bounds, cut to the size
  of the output array.
* `bptreeRange_bptreeInsertAll` — the same after a sequence of insertions.
-/

namespace MiniSql

/-- A key of the range. -/
def inBounds (idFrom idTo : ℤ) (e : ℤ × ℤ) : Bool := idFrom ≤ e.1 && e.1 ≤ idTo

/-- The pairs of a run of leaves. -/
abbrev entriesOf (ls : List Leaf) : List (ℤ × ℤ) := ls.flatMap fun l => l.2.1

/-! ## The leaf where the walk starts -/

/-- The leaves before the one in charge of a key hold smaller keys only. -/
theorem descend_leaves (id : ℤ) (n : Node) : ∀ {lo hi : Option ℤ}, Ordered lo hi n →
    ∃ pre addr post, leaves n = pre ++ (addr, descend id n) :: post ∧
      ∀ e ∈ entriesOf pre, e.1 < id := by
  induction n using Node.induct with
  | leaf addr entries next => exact fun _ => ⟨[], addr, [], rfl, by simp⟩
  | internal keys children ih =>
    intro lo hi h
    rw [Ordered] at h
    rw [descend, leaves]
    induction keys generalizing lo children with
    | nil =>
      obtain ⟨c, rfl, hc⟩ := orderedChildren_nil.mp h
      obtain ⟨pre, addr, post, hleaves, hpre⟩ := ih c (by simp) hc
      exact ⟨pre, addr, post, by simpa [leavesList, descendChild] using hleaves, hpre⟩
    | cons k ks ihk =>
      obtain ⟨c, cs, rfl, hk, hc, hcs⟩ := orderedChildren_cons.mp h
      rcases le_or_gt k id with hle | hlt
      · obtain ⟨pre, addr, post, hleaves, hpre⟩ := ihk cs (fun c hc => ih c (by simp [hc])) hcs
        refine ⟨leaves c ++ pre, addr, post, ?_, fun e he => ?_⟩
        · rw [internalChildIdx_cons_of_le hle, descendChild, leavesList, hleaves, List.append_assoc]
        · rw [entriesOf, List.flatMap_append, List.mem_append] at he
          rcases he with he | he
          · exact ((hc.inRange e he).2 k rfl).trans_le hle
          · exact hpre e he
      · obtain ⟨pre, addr, post, hleaves, hpre⟩ := ih c (by simp) hc
        refine ⟨pre, addr, post ++ leavesList cs, ?_, hpre⟩
        rw [internalChildIdx_cons_of_lt hlt, descendChild, leavesList, hleaves, List.append_assoc,
          List.cons_append]

/-! ## The walk -/

theorem take_take_append {α : Type*} (n : ℕ) (xs ys : List α) :
    (xs.take n ++ ys).take n = (xs ++ ys).take n := by
  rw [List.take_append, List.take_append, List.take_take, List.length_take]
  congr 2
  · omega
  · omega

/-- One leaf: the rows of its keys in the range, up to the size of the output. -/
theorem rangeLeaf_spec (idFrom idTo : ℤ) {maxOut : ℕ} {entries : List (ℤ × ℤ)} {out : List ℤ}
    (hsorted : SortedAssoc.Sorted entries) (hout : out.length ≤ maxOut) :
    (rangeLeaf idFrom idTo maxOut entries out).1 =
        (out ++ (entries.filter (inBounds idFrom idTo)).map Prod.snd).take maxOut ∧
      ((rangeLeaf idFrom idTo maxOut entries out).2 = true → ∃ e ∈ entries, idTo < e.1) := by
  induction entries generalizing out with
  | nil => exact ⟨by simp [rangeLeaf, List.take_of_length_le hout], by simp [rangeLeaf]⟩
  | cons e es ih =>
    obtain ⟨k, r⟩ := e
    obtain ⟨hk, hes⟩ := List.pairwise_cons.mp hsorted
    rw [rangeLeaf]
    split_ifs with hfull hbelow habove
    · have hlen : out.length = maxOut := by omega
      exact ⟨by simp [← hlen], by simp⟩
    · obtain ⟨hout', hstop⟩ := ih hes hout
      have hskip : inBounds idFrom idTo (k, r) = false := by
        simp [inBounds, not_le.mpr hbelow]
      refine ⟨by rw [List.filter_cons, hskip]; exact hout', fun h => ?_⟩
      obtain ⟨e, he, hlt⟩ := hstop h
      exact ⟨e, by simp [he], hlt⟩
    · -- the keys behind this one are above the range as well
      have hnone : ((k, r) :: es).filter (inBounds idFrom idTo) = [] := by
        rw [List.filter_eq_nil_iff]
        intro e he
        have hlt : idTo < e.1 := by
          rcases List.mem_cons.mp he with rfl | he
          · exact habove
          · exact habove.trans (hk e he)
        simp [inBounds, not_le.mpr hlt]
      exact ⟨by simp [hnone, List.take_of_length_le hout], fun _ => ⟨(k, r), by simp, habove⟩⟩
    · have hin : inBounds idFrom idTo (k, r) = true := by
        simp [inBounds, not_lt.mp hbelow, not_lt.mp habove]
      have hroom : (out ++ [r]).length ≤ maxOut := by
        rw [List.length_append, List.length_singleton]
        omega
      obtain ⟨hout', hstop⟩ := ih hes hroom
      refine ⟨by rw [List.filter_cons, hin, hout']; simp, fun h => ?_⟩
      obtain ⟨e, he, hlt⟩ := hstop h
      exact ⟨e, by simp [he], hlt⟩

/-- The leaf behind another one, found through the pointer to it. -/
theorem lookup_next {root : Node} {pre post : List Leaf} {l : Leaf}
    (hleaves : leaves root = pre ++ l :: post) (hnodup : (addrs (leaves root)).Nodup)
    (hlinked : Linked (leaves root) none) :
    (l.2.2.bind fun addr => (leaves root).lookup addr) = post.head?.map Prod.snd := by
  have hnext : l.2.2 = firstAddr post none := by
    rw [hleaves, linked_append] at hlinked
    exact hlinked.2.1
  rw [hnext]
  cases post with
  | nil => rfl
  | cons m post =>
    have hsplit : leaves root = (pre ++ [l]) ++ m :: post := by simp [hleaves]
    have hfind := lookup_leaf hnodup hsplit
    simpa [firstAddr] using hfind

/-- The walk from a leaf on collects the rows of this leaf and of those behind it. -/
theorem rangeLoop_spec {root : Node} {idFrom idTo : ℤ} {maxOut : ℕ}
    (hnodup : (addrs (leaves root)).Nodup) (hlinked : Linked (leaves root) none) (n : ℕ) :
    ∀ {pre post : List Leaf} {l : Leaf} {out : List ℤ}, leaves root = pre ++ l :: post →
      SortedAssoc.Sorted (entriesOf (l :: post)) → post.length < n → out.length ≤ maxOut →
        rangeLoop root idFrom idTo maxOut n l.2 out =
          (out ++ ((entriesOf (l :: post)).filter (inBounds idFrom idTo)).map Prod.snd).take
            maxOut := by
  induction n with
  | zero => exact fun _ _ hn => absurd hn (Nat.not_lt_zero _)
  | succ n ih =>
    intro pre post l out hleaves hsorted hn hout
    have hnext := lookup_next hleaves hnodup hlinked
    obtain ⟨addr, entries, next⟩ := l
    simp only [entriesOf, List.flatMap_cons] at hsorted ⊢
    obtain ⟨hentries, hpost, habove⟩ := List.pairwise_append.mp hsorted
    obtain ⟨hout', hstop⟩ := rangeLeaf_spec idFrom idTo hentries hout
    rw [rangeLoop]
    by_cases hfull : maxOut ≤ out.length
    · have hlen : out.length = maxOut := by omega
      simp [← hlen]
    rw [if_neg hfull]
    rcases hres : rangeLeaf idFrom idTo maxOut entries out with ⟨out', stop⟩
    rw [hres] at hout' hstop
    dsimp only at hout' hstop
    cases stop with
    | true =>
      -- a key above the range: the leaves behind hold larger keys only
      obtain ⟨e, he, hlt⟩ := hstop rfl
      have hnone : (entriesOf post).filter (inBounds idFrom idTo) = [] := by
        rw [List.filter_eq_nil_iff]
        intro x hx
        have : idTo < x.1 := hlt.trans (habove e he x hx)
        simp [inBounds, not_le.mpr this]
      simp [hnone, hout']
    | false =>
      dsimp only at hnext ⊢
      rw [hnext]
      cases post with
      | nil => simp [hout']
      | cons m post =>
        dsimp only [List.head?_cons, Option.map_some]
        have hlen : out'.length ≤ maxOut := by
          rw [hout']
          exact List.length_take_le ..
        have hleaves' : leaves root = (pre ++ [(addr, entries, next)]) ++ m :: post := by
          simp [hleaves]
        rw [ih hleaves' hpost (by simpa using hn) hlen, hout', take_take_append, List.append_assoc,
          List.filter_append, List.map_append]

/-! ## A larger output -/

section Larger

variable {root : Node} {idFrom idTo : ℤ} {small large : ℕ}

theorem prefix_rangeLeaf (maxOut : ℕ) (entries : List (ℤ × ℤ)) (out : List ℤ) :
    out <+: (rangeLeaf idFrom idTo maxOut entries out).1 := by
  induction entries generalizing out with
  | nil => exact List.prefix_rfl
  | cons e es ih =>
    rw [rangeLeaf]
    split_ifs
    · exact List.prefix_rfl
    · exact ih out
    · exact List.prefix_rfl
    · exact (List.prefix_append out _).trans (ih _)

theorem prefix_rangeLoop (maxOut n : ℕ) (leaf : List (ℤ × ℤ) × Option ℕ) (out : List ℤ) :
    out <+: rangeLoop root idFrom idTo maxOut n leaf out := by
  induction n generalizing leaf out with
  | zero => exact List.prefix_rfl
  | succ n ih =>
    have hleaf := @prefix_rangeLeaf idFrom idTo maxOut leaf.1 out
    rw [rangeLoop]
    split_ifs
    · exact List.prefix_rfl
    · cases hres : rangeLeaf idFrom idTo maxOut leaf.1 out with
      | mk out' stop =>
        rw [hres] at hleaf
        cases stop with
        | true => exact hleaf
        | false =>
          dsimp only
          split
          · exact hleaf
          · exact hleaf.trans (ih _ _)

theorem length_rangeLeaf_le (maxOut : ℕ) (entries : List (ℤ × ℤ)) {out : List ℤ}
    (hout : out.length ≤ maxOut) :
    (rangeLeaf idFrom idTo maxOut entries out).1.length ≤ maxOut := by
  induction entries generalizing out with
  | nil => exact hout
  | cons e es ih =>
    rw [rangeLeaf]
    split_ifs
    · exact hout
    · exact ih hout
    · exact hout
    · exact ih (by rw [List.length_append, List.length_singleton]; omega)

/-- One leaf with less room: the same walk, unless it is cut off. -/
theorem rangeLeaf_take (hle : small ≤ large) (entries : List (ℤ × ℤ)) {out : List ℤ}
    (hout : out.length ≤ small) :
    rangeLeaf idFrom idTo small entries out = rangeLeaf idFrom idTo large entries out ∨
      (rangeLeaf idFrom idTo small entries out).1.length = small ∧
        (rangeLeaf idFrom idTo small entries out).1 <+:
          (rangeLeaf idFrom idTo large entries out).1 := by
  induction entries generalizing out with
  | nil => exact Or.inl rfl
  | cons e es ih =>
    by_cases hfull : small ≤ out.length
    · refine Or.inr ?_
      have hpre := @prefix_rangeLeaf idFrom idTo large (e :: es) out
      rw [rangeLeaf, if_pos hfull]
      exact ⟨Nat.le_antisymm hout hfull, hpre⟩
    · have hroom : ¬ large ≤ out.length := by omega
      simp only [rangeLeaf, if_neg hfull, if_neg hroom]
      split_ifs
      · exact ih hout
      · exact Or.inl rfl
      · exact ih (by rw [List.length_append, List.length_singleton]; omega)

theorem rangeLoop_full {maxOut : ℕ} (n : ℕ) (leaf : List (ℤ × ℤ) × Option ℕ) {out : List ℤ}
    (hfull : maxOut ≤ out.length) : rangeLoop root idFrom idTo maxOut n leaf out = out := by
  cases n with
  | zero => rfl
  | succ n => rw [rangeLoop, if_pos hfull]

theorem rangeLoop_take (hle : small ≤ large) (n : ℕ) (leaf : List (ℤ × ℤ) × Option ℕ) {out : List ℤ}
    (hout : out.length ≤ small) : rangeLoop root idFrom idTo small n leaf out =
      (rangeLoop root idFrom idTo large n leaf out).take small := by
  have hcut : ∀ {out' : List ℤ} {all : List ℤ}, out'.length = small → out' <+: all →
      out' = all.take small := by
    intro out' all hlen hpre
    rw [← hlen]
    exact List.prefix_iff_eq_take.mp hpre
  induction n generalizing leaf out with
  | zero => exact (List.take_of_length_le hout).symm
  | succ n ih =>
    by_cases hfull : small ≤ out.length
    · rw [rangeLoop_full _ _ hfull]
      exact hcut (by omega) (prefix_rangeLoop large (n + 1) leaf out)
    rcases @rangeLeaf_take idFrom idTo _ _ hle leaf.1 _ hout with hsame | ⟨hlen, hpre⟩
    · rw [rangeLoop, rangeLoop, if_neg hfull, if_neg (by omega), hsame]
      have hshort : (rangeLeaf idFrom idTo large leaf.1 out).1.length ≤ small := by
        rw [← hsame]
        exact length_rangeLeaf_le small leaf.1 hout
      cases hres : rangeLeaf idFrom idTo large leaf.1 out with
      | mk out' stop =>
        rw [hres] at hshort
        cases stop with
        | true => exact (List.take_of_length_le hshort).symm
        | false =>
          dsimp only
          split
          · exact (List.take_of_length_le hshort).symm
          · exact ih _ hshort
    · -- the leaf fills the output; the walk with more room goes on from what is written
      have hsmall : rangeLoop root idFrom idTo small (n + 1) leaf out
          = (rangeLeaf idFrom idTo small leaf.1 out).1 := by
        rw [rangeLoop, if_neg hfull]
        cases hres : rangeLeaf idFrom idTo small leaf.1 out with
        | mk out' stop =>
          rw [hres] at hlen
          cases stop with
          | true => rfl
          | false =>
            dsimp only
            split
            · rfl
            · exact rangeLoop_full _ _ hlen.ge
      have hlarge : (rangeLeaf idFrom idTo large leaf.1 out).1 <+:
          rangeLoop root idFrom idTo large (n + 1) leaf out := by
        rw [rangeLoop, if_neg (by omega)]
        cases hres : rangeLeaf idFrom idTo large leaf.1 out with
        | mk out' stop =>
          cases stop with
          | true => exact List.prefix_rfl
          | false =>
            dsimp only
            split
            · exact List.prefix_rfl
            · exact prefix_rangeLoop ..
      rw [hsmall]
      exact hcut hlen (hpre.trans hlarge)

/-- **A smaller output holds the first rows of a larger one.** -/
theorem bptreeRange_take (tree : BPTree) (hle : small ≤ large) :
    bptreeRange tree idFrom idTo small = (bptreeRange tree idFrom idTo large).take small := by
  unfold bptreeRange
  split_ifs
  · exact List.take_nil.symm
  · exact rangeLoop_take hle _ _ (Nat.zero_le _)

end Larger

/-! ## The content between two bounds -/

/-- **A range search returns the rows of the content between its bounds, in key order, up to the
size of the output.** -/
theorem bptreeRange_eq {tree : BPTree} (h : tree.Sound) {idFrom idTo : ℤ} (hle : idFrom ≤ idTo)
    (maxOut : ℕ) : bptreeRange tree idFrom idTo maxOut =
      ((tree.toList.filter (inBounds idFrom idTo)).map Prod.snd).take maxOut := by
  obtain ⟨pre, addr, post, hleaves, hbelow⟩ := descend_leaves idFrom tree.root h.wf.ordered
  have hsorted : SortedAssoc.Sorted (entriesOf (leaves tree.root)) := h.wf.ordered.sorted
  rw [hleaves, entriesOf, List.flatMap_append] at hsorted
  have hfuel : post.length < (leaves tree.root).length := by
    rw [hleaves, List.length_append, List.length_cons]
    omega
  have hskip : (entriesOf pre).filter (inBounds idFrom idTo) = [] := by
    rw [List.filter_eq_nil_iff]
    intro e he
    simp [inBounds, not_le.mpr (hbelow e he)]
  have hcontent : tree.toList = entriesOf pre ++ entriesOf ((addr, descend idFrom tree.root) :: post) := by
    rw [← List.flatMap_append, ← hleaves]
    rfl
  rw [bptreeRange, if_neg (not_lt.mpr hle), rangeLoop_spec h.nodup h.linked _ hleaves
    (List.pairwise_append.mp hsorted).2.1 hfuel (Nat.zero_le _), hcontent, List.filter_append, hskip]
  simp

/-- **After any sequence of insertions a range search returns, in key order, the latest row of
every inserted key between its bounds, up to the size of the output.** -/
theorem bptreeRange_bptreeInsertAll {order : ℕ} (horder : 3 ≤ order) {idFrom idTo : ℤ}
    (hle : idFrom ≤ idTo) (maxOut : ℕ) :
    ∃ tree, bptreeCreate order = some tree ∧ ∀ pairs, ∃ hits : List (ℤ × ℤ),
      hits.Pairwise (fun a b => a.1 < b.1) ∧
      (∀ k v, (k, v) ∈ hits ↔ idFrom ≤ k ∧ k ≤ idTo ∧ lastValue pairs k = some v) ∧
      bptreeRange (bptreeInsertAll tree pairs) idFrom idTo maxOut =
        (hits.map Prod.snd).take maxOut := by
  refine ⟨_, bptreeCreate_of_le horder, fun pairs => ?_⟩
  have hcreate := bptreeCreate_of_le horder
  have hsound := sound_bptreeInsertAll (sound_bptreeCreate hcreate) pairs
  have hsorted : SortedAssoc.Sorted (bptreeInsertAll _ pairs).toList := hsound.wf.ordered.sorted
  refine ⟨_, hsorted.filter _, fun k v => ?_, bptreeRange_eq hsound hle maxOut⟩
  have hlookup := lookup_bptreeInsertAll (wf_bptreeCreate hcreate).1 pairs k
  rw [(wf_bptreeCreate hcreate).2, List.lookup_nil, Option.or_none] at hlookup
  rw [List.mem_filter, ← hlookup, SortedAssoc.lookup_eq_some_iff hsorted, inBounds]
  simp only [Bool.and_eq_true, decide_eq_true_eq]
  tauto

/-- Three leaves of a tree of order 3, of which the range reaches into two. -/
theorem bptreeRange_order_three :
    ∃ tree, bptreeCreate 3 = some tree ∧ ∀ pairs, ∃ hits : List (ℤ × ℤ),
      hits.Pairwise (fun a b => a.1 < b.1) ∧
      (∀ k v, (k, v) ∈ hits ↔ 2 ≤ k ∧ k ≤ 3 ∧ lastValue pairs k = some v) ∧
      bptreeRange (bptreeInsertAll tree pairs) 2 3 10 = (hits.map Prod.snd).take 10 :=
  bptreeRange_bptreeInsertAll (by decide) (by decide) 10

example : bptreeRange (bptreeInsertAll ⟨3, .leaf 0 [] none, 1⟩ [(4, 0), (3, 1), (2, 2), (1, 3), (3, 4)])
    2 3 10 = [2, 4] := by decide

end MiniSql
