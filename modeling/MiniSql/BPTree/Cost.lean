import Mathlib.Data.List.Dedup
import Mathlib.Data.Nat.Log
import Mathlib.Tactic.Ring
import MiniSql.BPTree.Shape

/-!
# What a search costs

`bptree_search` compares the id with keys of one node of each level. The nodes are full enough for
the number of levels to grow as the logarithm of the number of keys only.

## Main definitions

* `bptreeSearchCost` — the keys that `bptree_search` compares with.

## Main results

* `Balanced.pow_le_length` — how much a subtree of some height holds at least.
* `bptreeSearchCost_le` — the logarithmic bound.
-/

namespace MiniSql

/-- The keys that `internal_child_idx` compares with: up to the first one above the id. -/
def internalChildCost (keys : List ℤ) (id : ℤ) : ℕ := min (internalChildIdx keys id + 1) keys.length

/-- The keys that the loop over a leaf compares with: up to the id itself. -/
def leafCost (id : ℤ) : List (ℤ × ℤ) → ℕ
  | [] => 0
  | (k, _) :: entries => if k = id then 1 else leafCost id entries + 1

mutual

def descendCost (id : ℤ) : Node → ℕ
  | .leaf _ entries _ => leafCost id entries
  | .internal keys children =>
    internalChildCost keys id + descendChildCost id (internalChildIdx keys id) children

def descendChildCost (id : ℤ) : ℕ → List Node → ℕ
  | _, [] => 0
  | 0, c :: _ => descendCost id c
  | i + 1, _ :: cs => descendChildCost id i cs

end

/-- The keys that `bptree_search` compares with. -/
def bptreeSearchCost (tree : BPTree) (id : ℤ) : ℕ := descendCost id tree.root

/-! ## The cost of a level -/

theorem leafCost_le (id : ℤ) (entries : List (ℤ × ℤ)) : leafCost id entries ≤ entries.length := by
  induction entries with
  | nil => exact le_rfl
  | cons e entries ih =>
    obtain ⟨k, r⟩ := e
    rw [leafCost, List.length_cons]
    split <;> omega

theorem descendChildCost_le {id : ℤ} {bound : ℕ} {cs : List Node}
    (h : ∀ c ∈ cs, descendCost id c ≤ bound) (i : ℕ) : descendChildCost id i cs ≤ bound := by
  induction cs generalizing i with
  | nil => exact Nat.zero_le _
  | cons c cs ih =>
    cases i with
    | zero => exact h c (List.mem_cons_self ..)
    | succ i => exact ih (fun d hd => h d (List.mem_cons_of_mem _ hd)) i

/-- Every level costs at most what a node holds. -/
theorem Balanced.descendCost_le {order height : ℕ} {n : Node} (h : Balanced order height n)
    (id : ℤ) : descendCost id n ≤ (order - 1) * (height + 1) := by
  induction h with
  | @leaf addr entries next room =>
    have hle := leafCost_le id entries
    rw [descendCost]
    omega
  | @internal height keys children room width below filled ih =>
    have hchild := descendChildCost_le ih (internalChildIdx keys id)
    have hhere : internalChildCost keys id ≤ order - 1 := by
      unfold internalChildCost
      omega
    rw [descendCost]
    calc internalChildCost keys id + descendChildCost id (internalChildIdx keys id) children
        ≤ (order - 1) + (order - 1) * (height + 1) := Nat.add_le_add hhere hchild
      _ = (order - 1) * (height + 1 + 1) := by ring

/-! ## How much a subtree holds -/

theorem length_childrenToList_ge {cs : List Node} {bound : ℕ}
    (h : ∀ c ∈ cs, bound ≤ c.toList.length) : cs.length * bound ≤ (childrenToList cs).length := by
  induction cs with
  | nil => simp
  | cons c cs ih =>
    have hc := h c (List.mem_cons_self ..)
    have hcs := ih fun d hd => h d (List.mem_cons_of_mem _ hd)
    rw [childrenToList_cons, List.length_append, List.length_cons, Nat.add_mul]
    omega

/-- A subtree that is full enough holds a power of its height. -/
theorem Balanced.pow_le_length {order height : ℕ} {n : Node} (h : Balanced order height n) :
    Filled order n → (order - order / 2) ^ height * (order / 2) ≤ n.toList.length := by
  induction h with
  | leaf room =>
    intro hfilled
    rw [toList_leaf, pow_zero, one_mul]
    exact hfilled
  | @internal height keys children room width below filled ih =>
    intro hfilled
    have hkeys : order - order / 2 - 1 ≤ keys.length := hfilled
    have hmany : order - order / 2 ≤ children.length := by omega
    rw [toList_internal]
    calc (order - order / 2) ^ (height + 1) * (order / 2)
        = (order - order / 2) * ((order - order / 2) ^ height * (order / 2)) := by ring
      _ ≤ children.length * ((order - order / 2) ^ height * (order / 2)) :=
          Nat.mul_le_mul_right _ hmany
      _ ≤ (childrenToList children).length :=
          length_childrenToList_ge fun c hc => ih c hc (filled c hc)

/-! ## The root -/

/-- The root has two children at least, unless it is a leaf. -/
def RootOk : Node → Prop
  | .leaf _ _ _ => True
  | .internal keys _ => keys ≠ []

/-- A root that does not split keeps its keys. -/
theorem rootOk_insertRec {order fresh : ℕ} {id rowIndex : ℤ} {n n' : Node} (h : RootOk n)
    (hins : insertRec order fresh id rowIndex n = (n', none)) : RootOk n' := by
  cases n with
  | leaf addr entries next =>
    rw [insertRec] at hins
    dsimp only at hins
    split at hins
    · obtain ⟨rfl, -⟩ := Prod.mk.inj hins
      trivial
    · exact absurd (Prod.mk.inj hins).2 (by simp)
  | internal keys children =>
    rw [insertRec] at hins
    split at hins
    · obtain ⟨rfl, -⟩ := Prod.mk.inj hins
      exact h
    · rename_i childKey childSplit _
      dsimp only at hins
      split at hins
      · obtain ⟨rfl, -⟩ := Prod.mk.inj hins
        intro hnil
        have hlen := congrArg List.length hnil
        rw [internalInsertNonfull, List.length_insertIdx_of_le_length (internalChildIdx_le _ _)] at hlen
        simp at hlen
      · exact absurd (Prod.mk.inj hins).2 (by simp)

theorem rootOk_bptreeInsert {tree : BPTree} (h : RootOk tree.root) (id rowIndex : ℤ) :
    RootOk (bptreeInsert tree id rowIndex).root := by
  unfold bptreeInsert
  rcases hres : insertRec tree.order tree.nextAddr id rowIndex tree.root with
    ⟨root, _ | ⟨key, sibling⟩⟩
  · exact rootOk_insertRec h hres
  · simp [RootOk]

/-- What the children of a root hold together, each of which is full enough. -/
theorem pow_le_of_root {order height : ℕ} (horder : 3 ≤ order) {n : Node}
    (h : Balanced order (height + 1) n) (hroot : RootOk n) :
    (order - order / 2) ^ (height + 1) ≤ n.toList.length := by
  cases h with
  | @internal height keys children room width below filled =>
    have hkeys : 0 < keys.length := List.length_pos_iff.mpr hroot
    have htwo : order - order / 2 ≤ 2 * (order / 2) := by omega
    rw [toList_internal]
    calc (order - order / 2) ^ (height + 1)
        ≤ (order - order / 2) ^ height * (2 * (order / 2)) := by
          rw [pow_succ]
          exact Nat.mul_le_mul_left _ htwo
      _ = 2 * ((order - order / 2) ^ height * (order / 2)) := by ring
      _ ≤ children.length * ((order - order / 2) ^ height * (order / 2)) :=
          Nat.mul_le_mul_right _ (by omega)
      _ ≤ (childrenToList children).length :=
          length_childrenToList_ge fun c hc => (below c hc).pow_le_length (filled c hc)

/-- **A search costs at most the logarithm of what the tree holds.** -/
theorem BPTree.Sound.searchCost_le {tree : BPTree} (h : tree.Sound) (hroot : RootOk tree.root)
    (id : ℤ) : bptreeSearchCost tree id ≤
      (tree.order - 1) * (Nat.log (tree.order - tree.order / 2) tree.toList.length + 1) := by
  have horder := h.wf.order_ge
  obtain ⟨height, hbal⟩ := h.balanced
  have hheight : height ≤ Nat.log (tree.order - tree.order / 2) tree.toList.length := by
    cases height with
    | zero => exact Nat.zero_le _
    | succ height => exact Nat.le_log_of_pow_le (by omega) (pow_le_of_root horder hbal hroot)
  calc bptreeSearchCost tree id ≤ (tree.order - 1) * (height + 1) := hbal.descendCost_le id
    _ ≤ (tree.order - 1) * (Nat.log (tree.order - tree.order / 2) tree.toList.length + 1) :=
        Nat.mul_le_mul_left _ (by omega)

/-! ## Sequences of insertions -/

theorem mem_keys_iff {pairs : List (ℤ × ℤ)} {id : ℤ} :
    id ∈ pairs.map Prod.fst ↔ pairs.lookup id ≠ none := by
  rw [Ne, List.lookup_eq_none_iff, List.mem_map]
  constructor
  · rintro ⟨p, hp, rfl⟩ hnone
    exact absurd (hnone p hp) (by simp)
  · intro hsome
    by_contra habsent
    apply hsome
    intro p hp
    exact bne_iff_ne.mpr fun heq => habsent ⟨p, hp, heq.symm⟩

/-- A tree holds each id once that was inserted. -/
theorem length_bptreeInsertAll {tree : BPTree} (h : tree.Wf) (hempty : tree.toList = [])
    (pairs : List (ℤ × ℤ)) :
    (bptreeInsertAll tree pairs).toList.length = (pairs.map Prod.fst).dedup.length := by
  have hwf := wf_bptreeInsertAll h pairs
  have hnodup : ((bptreeInsertAll tree pairs).toList.map Prod.fst).Nodup :=
    (List.pairwise_map.mpr hwf.ordered.sorted).imp fun hlt => hlt.ne
  have hmem : ∀ id, id ∈ (bptreeInsertAll tree pairs).toList.map Prod.fst ↔
      id ∈ (pairs.map Prod.fst).dedup := by
    intro id
    rw [List.mem_dedup, mem_keys_iff, lookup_bptreeInsertAll h, hempty, List.lookup_nil,
      Option.or_none, lastValue, ← mem_keys_iff, List.map_reverse, List.mem_reverse]
  rw [← List.length_map Prod.fst]
  exact ((List.perm_ext_iff_of_nodup hnodup (List.nodup_dedup _)).mpr hmem).length_eq

theorem bptreeInsertAll_order (tree : BPTree) (pairs : List (ℤ × ℤ)) :
    (bptreeInsertAll tree pairs).order = tree.order := by
  apply bptreeInsertAll_induct (P := fun t => t.order = tree.order)
  · intro t id rowIndex h
    rw [bptreeInsert_order, h]
  · rfl

/-- **After any sequence of insertions a search compares with the keys of at most so many nodes as
the logarithm of the number of different ids says, to the base of the least number of children.** -/
theorem bptreeSearchCost_le {order : ℕ} (horder : 3 ≤ order) :
    ∃ tree, bptreeCreate order = some tree ∧ ∀ pairs id,
      bptreeSearchCost (bptreeInsertAll tree pairs) id ≤ (order - 1) *
        (Nat.log (order - order / 2) (pairs.map Prod.fst).dedup.length + 1) := by
  have hcreate := bptreeCreate_of_le horder
  obtain ⟨hwf, hempty⟩ := wf_bptreeCreate hcreate
  refine ⟨_, hcreate, fun pairs id => ?_⟩
  have hsound := sound_bptreeInsertAll (sound_bptreeCreate hcreate) pairs
  have hroot : RootOk (bptreeInsertAll ⟨order, .leaf 0 [] none, 1⟩ pairs).root := by
    apply bptreeInsertAll_induct (P := fun tree => RootOk tree.root)
    · intro tree id rowIndex h
      exact rootOk_bptreeInsert h id rowIndex
    · trivial
  have hcost := hsound.searchCost_le hroot id
  rwa [length_bptreeInsertAll hwf hempty, bptreeInsertAll_order] at hcost

/-- Ten keys in a tree of order 4. -/
theorem bptreeSearchCost_order_four :
    ∃ tree, bptreeCreate 4 = some tree ∧ ∀ id,
      bptreeSearchCost (bptreeInsertAll tree ((List.range 10).map fun n => ((n : ℤ), (n : ℤ)))) id ≤
        12 := by
  obtain ⟨tree, hcreate, hcost⟩ := @bptreeSearchCost_le 4 (by decide)
  exact ⟨tree, hcreate, fun id => (hcost _ id).trans (by decide)⟩

end MiniSql
