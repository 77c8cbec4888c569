import Mathlib.Data.Int.Order.Basic
import MiniSql.Lib.SortedAssoc

/-!
# The B+ tree

`bptree.c`: the index from an `id` to the number of a row. Every pair lies in a leaf, and
each leaf points at the next one; a pointer to a leaf is the number the leaf was allocated
under. Allocation succeeds.

## Main definitions

* `BPTree`, `bptreeCreate`, `bptreeInsert`, `bptreeSearch`, `bptreeRange`.
* `Ordered` — the keys of every subtree lie between the separators around it.

## Main results

* `wf_bptreeInsert` — insertion into the tree is insertion into its sorted content.
* `bptreeSearch_bptreeInsertAll` — a search finds what was inserted last under its key.
-/

namespace MiniSql

/-- `Node`: a leaf with its pairs `keys[i]`, `row_indices[i]` and its `next` pointer, or an
internal node with one child more than keys. -/
inductive Node
  | leaf (addr : ℕ) (entries : List (ℤ × ℤ)) (next : Option ℕ)
  | internal (keys : List ℤ) (children : List Node)

/-- `BPTree`, with the number the next leaf will be allocated under. -/
structure BPTree where
  order : ℕ
  root : Node
  nextAddr : ℕ

/-- `bptree_create`. -/
def bptreeCreate (order : ℕ) : Option BPTree :=
  if order < 3 then none else some ⟨order, .leaf 0 [] none, 1⟩

/-- `internal_child_idx`. -/
def internalChildIdx (keys : List ℤ) (id : ℤ) : ℕ := (keys.takeWhile (· ≤ id)).length

/-! ## Insertion -/

/-- `leaf_insert_sorted`. -/
def leafInsertSorted (entries : List (ℤ × ℤ)) (id rowIndex : ℤ) : List (ℤ × ℤ) :=
  SortedAssoc.insert id rowIndex entries

/-- `split_leaf`: the left half, the promoted key and the new right leaf. -/
def splitLeaf (order fresh addr : ℕ) (entries : List (ℤ × ℤ)) (next : Option ℕ) :
    Node × ℤ × Node :=
  let mid := order / 2
  (.leaf addr (entries.take mid) (some fresh),
    ((entries.drop mid).head?.map Prod.fst).getD 0, .leaf fresh (entries.drop mid) next)

/-- `internal_insert_nonfull`. -/
def internalInsertNonfull (keys : List ℤ) (children : List Node) (key : ℤ) (rightChild : Node) :
    List ℤ × List Node :=
  let i := internalChildIdx keys key
  (keys.insertIdx i key, children.insertIdx (i + 1) rightChild)

/-- `split_internal`. -/
def splitInternal (order : ℕ) (keys : List ℤ) (children : List Node) : Node × ℤ × Node :=
  let mid := order / 2
  (.internal (keys.take mid) (children.take (mid + 1)), (keys[mid]?).getD 0,
    .internal (keys.drop (mid + 1)) (children.drop (mid + 1)))

mutual

/-- `insert_rec`: the node, and the promoted key with the new right sibling if it split. -/
def insertRec (order fresh : ℕ) (id rowIndex : ℤ) : Node → Node × Option (ℤ × Node)
  | .leaf addr entries next =>
    let entries := leafInsertSorted entries id rowIndex
    if entries.length < order then (.leaf addr entries next, none)
    else
      let (left, key, right) := splitLeaf order fresh addr entries next
      (left, some (key, right))
  | .internal keys children =>
    match insertChild order fresh id rowIndex (internalChildIdx keys id) children with
    | (children, none) => (.internal keys children, none)
    | (children, some (childKey, childSplit)) =>
      let (keys, children) := internalInsertNonfull keys children childKey childSplit
      if keys.length < order then (.internal keys children, none)
      else
        let (left, key, right) := splitInternal order keys children
        (left, some (key, right))

/-- `insert_rec` on the child with the given number. -/
def insertChild (order fresh : ℕ) (id rowIndex : ℤ) :
    ℕ → List Node → List Node × Option (ℤ × Node)
  | _, [] => ([], none)
  | 0, c :: cs =>
    let (c, split) := insertRec order fresh id rowIndex c
    (c :: cs, split)
  | i + 1, c :: cs =>
    let (cs, split) := insertChild order fresh id rowIndex i cs
    (c :: cs, split)

end

/-- `bptree_insert`. -/
def bptreeInsert (tree : BPTree) (id rowIndex : ℤ) : BPTree :=
  match insertRec tree.order tree.nextAddr id rowIndex tree.root with
  | (root, none) => { tree with root := root, nextAddr := tree.nextAddr + 1 }
  | (root, some (key, sibling)) =>
    { tree with root := .internal [key] [root, sibling], nextAddr := tree.nextAddr + 1 }

/-! ## Search and range -/

mutual

/-- The descent to the leaf in charge of `id`: its pairs and its `next` pointer. -/
def descend (id : ℤ) : Node → List (ℤ × ℤ) × Option ℕ
  | .leaf _ entries next => (entries, next)
  | .internal keys children => descendChild id (internalChildIdx keys id) children

def descendChild (id : ℤ) : ℕ → List Node → List (ℤ × ℤ) × Option ℕ
  | _, [] => ([], none)
  | 0, c :: _ => descend id c
  | i + 1, _ :: cs => descendChild id i cs

end

/-- `bptree_search`. -/
def bptreeSearch (tree : BPTree) (id : ℤ) : ℤ :=
  (((descend id tree.root).1.lookup id)).getD (-1)

mutual

/-- The leaves of a subtree, from left to right. -/
def leaves : Node → List (ℕ × List (ℤ × ℤ) × Option ℕ)
  | .leaf addr entries next => [(addr, entries, next)]
  | .internal _ children => leavesList children

def leavesList : List Node → List (ℕ × List (ℤ × ℤ) × Option ℕ)
  | [] => []
  | c :: cs => leaves c ++ leavesList cs

end

/-- The inner loop of `bptree_range` on one leaf: the rows written so far, and whether a key
above `idTo` has ended the walk. -/
def rangeLeaf (idFrom idTo : ℤ) (maxOut : ℕ) : List (ℤ × ℤ) → List ℤ → List ℤ × Bool
  | [], out => (out, false)
  | (k, r) :: es, out =>
    if maxOut ≤ out.length then (out, false)
    else if k < idFrom then rangeLeaf idFrom idTo maxOut es out
    else if idTo < k then (out, true)
    else rangeLeaf idFrom idTo maxOut es (out ++ [r])

/-- The outer loop of `bptree_range`, along the `next` pointers. The number of leaves is
enough fuel, since no pointer leads back. -/
def rangeLoop (root : Node) (idFrom idTo : ℤ) (maxOut : ℕ) :
    ℕ → List (ℤ × ℤ) × Option ℕ → List ℤ → List ℤ
  | 0, _, out => out
  | n + 1, (entries, next), out =>
    if maxOut ≤ out.length then out
    else match rangeLeaf idFrom idTo maxOut entries out with
      | (out, true) => out
      | (out, false) =>
        match next.bind fun addr => (leaves root).lookup addr with
        | none => out
        | some leaf => rangeLoop root idFrom idTo maxOut n leaf out

/-- `bptree_range`: the rows written to `out`. -/
def bptreeRange (tree : BPTree) (idFrom idTo : ℤ) (maxOut : ℕ) : List ℤ :=
  if idTo < idFrom then []
  else rangeLoop tree.root idFrom idTo maxOut (leaves tree.root).length
    (descend idFrom tree.root) []

/-! ## The content of a tree -/

/-- The pairs of a subtree, from left to right. -/
def Node.toList (n : Node) : List (ℤ × ℤ) := (leaves n).flatMap fun l => l.2.1

/-- The pairs of neighbouring subtrees. -/
def childrenToList (cs : List Node) : List (ℤ × ℤ) := (leavesList cs).flatMap fun l => l.2.1

@[simp] theorem toList_leaf (addr : ℕ) (entries : List (ℤ × ℤ)) (next : Option ℕ) :
    (Node.leaf addr entries next).toList = entries := by
  simp [Node.toList, leaves]

@[simp] theorem toList_internal (keys : List ℤ) (cs : List Node) :
    (Node.internal keys cs).toList = childrenToList cs := by
  simp [Node.toList, childrenToList, leaves]

@[simp] theorem childrenToList_nil : childrenToList [] = [] := by
  simp [childrenToList, leavesList]

@[simp] theorem childrenToList_cons (c : Node) (cs : List Node) :
    childrenToList (c :: cs) = c.toList ++ childrenToList cs := by
  simp [childrenToList, Node.toList, leavesList]

/-- `k` lies in the half-open range of a subtree; `none` is no bound. -/
def InRange (lo hi : Option ℤ) (k : ℤ) : Prop := (∀ l ∈ lo, l ≤ k) ∧ ∀ h ∈ hi, k < h

/-- `k` can be a separator inside the range. -/
def Between (lo hi : Option ℤ) (k : ℤ) : Prop := (∀ l ∈ lo, l < k) ∧ ∀ h ∈ hi, k < h

mutual

/-- The keys of a subtree lie in its range, those of its children between the separators. -/
def Ordered (lo hi : Option ℤ) : Node → Prop
  | .leaf _ entries _ => SortedAssoc.Sorted entries ∧ ∀ e ∈ entries, InRange lo hi e.1
  | .internal keys children => OrderedChildren lo hi keys children

def OrderedChildren (lo hi : Option ℤ) : List ℤ → List Node → Prop
  | [], cs => match cs with
    | [c] => Ordered lo hi c
    | _ => False
  | k :: ks, cs => match cs with
    | c :: cs => Between lo hi k ∧ Ordered lo (some k) c ∧ OrderedChildren (some k) hi ks cs
    | [] => False

end

/-- A property of every node that follows from the same property of its children. -/
@[elab_as_elim] theorem Node.induct {P : Node → Prop}
    (leaf : ∀ addr entries next, P (.leaf addr entries next))
    (internal : ∀ keys children, (∀ c ∈ children, P c) → P (.internal keys children)) :
    ∀ n, P n
  | .leaf addr entries next => leaf addr entries next
  | .internal keys children =>
    internal keys children fun c hc =>
      have : sizeOf c < sizeOf children := List.sizeOf_lt_of_mem hc
      Node.induct leaf internal c
termination_by n => sizeOf n

theorem orderedChildren_nil {lo hi : Option ℤ} {cs : List Node} :
    OrderedChildren lo hi [] cs ↔ ∃ c, cs = [c] ∧ Ordered lo hi c := by
  match cs with
  | [] => simp [OrderedChildren]
  | [c] => simp [OrderedChildren]
  | c :: d :: cs => simp [OrderedChildren]

theorem orderedChildren_cons {lo hi : Option ℤ} {k : ℤ} {ks : List ℤ} {cs : List Node} :
    OrderedChildren lo hi (k :: ks) cs ↔ ∃ c cs', cs = c :: cs' ∧ Between lo hi k ∧
      Ordered lo (some k) c ∧ OrderedChildren (some k) hi ks cs' := by
  cases cs with
  | nil => simp [OrderedChildren]
  | cons c cs =>
    rw [OrderedChildren]
    constructor
    · exact fun h => ⟨c, cs, rfl, h⟩
    · rintro ⟨c', cs', heq, h⟩
      obtain ⟨rfl, rfl⟩ := List.cons.inj heq
      exact h

theorem InRange.mono {lo hi lo' hi' : Option ℤ} {k : ℤ} (h : InRange lo hi k)
    (hlo : ∀ l ∈ lo', ∃ m ∈ lo, l ≤ m) (hhi : ∀ u ∈ hi', ∃ m ∈ hi, m ≤ u) :
    InRange lo' hi' k := by
  refine ⟨fun l hl => ?_, fun u hu => ?_⟩
  · obtain ⟨m, hm, hle⟩ := hlo l hl
    exact hle.trans (h.1 m hm)
  · obtain ⟨m, hm, hle⟩ := hhi u hu
    exact (h.2 m hm).trans_le hle

/-- Everything a subtree holds lies in its range. -/
theorem Ordered.inRange {n : Node} : ∀ {lo hi : Option ℤ}, Ordered lo hi n →
    ∀ e ∈ n.toList, InRange lo hi e.1 := by
  induction n using Node.induct with
  | leaf addr entries next =>
    intro lo hi h e he
    rw [Ordered] at h
    exact h.2 e (by simpa using he)
  | internal keys children ih =>
    intro lo hi h e he
    rw [Ordered] at h
    rw [toList_internal] at he
    induction keys generalizing lo children with
    | nil =>
      obtain ⟨c, rfl, hc⟩ := orderedChildren_nil.mp h
      exact ih c (by simp) hc e (by simpa using he)
    | cons k ks ihk =>
      obtain ⟨c, cs, rfl, hk, hc, hcs⟩ := orderedChildren_cons.mp h
      rw [childrenToList_cons, List.mem_append] at he
      rcases he with he | he
      · exact (ih c (by simp) hc e he).mono (fun l hl => ⟨l, hl, le_rfl⟩)
          fun u hu => ⟨k, rfl, (hk.2 u hu).le⟩
      · exact (ihk cs (fun c hc => ih c (by simp [hc])) hcs he).mono
          (fun l hl => ⟨k, rfl, (hk.1 l hl).le⟩) fun u hu => ⟨u, hu, le_rfl⟩

theorem OrderedChildren.inRange {keys : List ℤ} {cs : List Node} {lo hi : Option ℤ}
    (h : OrderedChildren lo hi keys cs) : ∀ e ∈ childrenToList cs, InRange lo hi e.1 := by
  have : Ordered lo hi (.internal keys cs) := by rwa [Ordered]
  simpa using this.inRange

/-- The content of an ordered subtree is in key order. -/
theorem Ordered.sorted {n : Node} : ∀ {lo hi : Option ℤ}, Ordered lo hi n →
    SortedAssoc.Sorted n.toList := by
  induction n using Node.induct with
  | leaf addr entries next =>
    intro lo hi h
    rw [Ordered] at h
    simpa using h.1
  | internal keys children ih =>
    intro lo hi h
    rw [Ordered] at h
    rw [toList_internal]
    induction keys generalizing lo children with
    | nil =>
      obtain ⟨c, rfl, hc⟩ := orderedChildren_nil.mp h
      simpa using ih c (by simp) hc
    | cons k ks ihk =>
      obtain ⟨c, cs, rfl, hk, hc, hcs⟩ := orderedChildren_cons.mp h
      rw [childrenToList_cons, SortedAssoc.Sorted, List.pairwise_append]
      refine ⟨ih c (by simp) hc, ihk cs (fun c hc => ih c (by simp [hc])) hcs, ?_⟩
      intro a ha b hb
      exact ((hc.inRange a ha).2 k rfl).trans_le ((hcs.inRange b hb).1 k rfl)

/-! ## Search -/

theorem internalChildIdx_cons_of_le {k id : ℤ} (h : k ≤ id) (ks : List ℤ) :
    internalChildIdx (k :: ks) id = internalChildIdx ks id + 1 := by
  simp [internalChildIdx, h]

theorem internalChildIdx_cons_of_lt {k id : ℤ} (h : id < k) (ks : List ℤ) :
    internalChildIdx (k :: ks) id = 0 := by
  simp [internalChildIdx, not_le.mpr h]

@[simp] theorem internalChildIdx_nil (id : ℤ) : internalChildIdx [] id = 0 := rfl

/-- **The leaf the descent ends at decides what the whole tree holds for a key.** -/
theorem lookup_descend {n : Node} {id : ℤ} : ∀ {lo hi : Option ℤ}, Ordered lo hi n →
    (descend id n).1.lookup id = n.toList.lookup id := by
  induction n using Node.induct with
  | leaf addr entries next => intro lo hi _; simp [descend]
  | internal keys children ih =>
    intro lo hi h
    rw [Ordered] at h
    rw [descend, toList_internal]
    induction keys generalizing lo children with
    | nil =>
      obtain ⟨c, rfl, hc⟩ := orderedChildren_nil.mp h
      simpa [descendChild] using ih c (by simp) hc
    | cons k ks ihk =>
      obtain ⟨c, cs, rfl, hk, hc, hcs⟩ := orderedChildren_cons.mp h
      rw [childrenToList_cons, List.lookup_append]
      rcases le_or_gt k id with hle | hlt
      · have hleft : c.toList.lookup id = none :=
          SortedAssoc.lookup_eq_none_of_forall_ne fun e he =>
            ne_of_lt (((hc.inRange e he).2 k rfl).trans_le hle)
        rw [internalChildIdx_cons_of_le hle, descendChild, hleft, Option.none_or,
          ihk cs (fun c hc => ih c (by simp [hc])) hcs]
      · have hright : (childrenToList cs).lookup id = none :=
          SortedAssoc.lookup_eq_none_of_forall_ne fun e he =>
            ne_of_gt (hlt.trans_le ((hcs.inRange e he).1 k rfl))
        rw [internalChildIdx_cons_of_lt hlt, descendChild, hright, Option.or_none,
          ih c (by simp) hc]

/-! ## What an insertion does -/

/-- The outcome of inserting into a subtree with range `lo`, `hi` and content `content`: the
subtree is still ordered, or split at a key of its range, and the pair was added. -/
def Inserted (lo hi : Option ℤ) (id rowIndex : ℤ) (content : List (ℤ × ℤ)) :
    Node × Option (ℤ × Node) → Prop
  | (n, none) => Ordered lo hi n ∧ n.toList = SortedAssoc.insert id rowIndex content
  | (n, some (key, right)) =>
    Between lo hi key ∧ Ordered lo (some key) n ∧ Ordered (some key) hi right ∧
      n.toList ++ right.toList = SortedAssoc.insert id rowIndex content

/-- The same for neighbouring children, with a new child put in its place. -/
def InsertedChildren (lo hi : Option ℤ) (id rowIndex : ℤ) (keys : List ℤ)
    (content : List (ℤ × ℤ)) : List Node × Option (ℤ × Node) → Prop
  | (cs, none) =>
    OrderedChildren lo hi keys cs ∧ childrenToList cs = SortedAssoc.insert id rowIndex content
  | (cs, some (key, right)) =>
    Between lo hi key ∧
      OrderedChildren lo hi (internalInsertNonfull keys cs key right).1
        (internalInsertNonfull keys cs key right).2 ∧
      childrenToList (internalInsertNonfull keys cs key right).2 =
        SortedAssoc.insert id rowIndex content

theorem internalInsertNonfull_cons_of_le {k key : ℤ} (h : k ≤ key) (ks : List ℤ) (c : Node)
    (cs : List Node) (right : Node) :
    internalInsertNonfull (k :: ks) (c :: cs) key right =
      (k :: (internalInsertNonfull ks cs key right).1,
        c :: (internalInsertNonfull ks cs key right).2) := by
  simp [internalInsertNonfull, internalChildIdx_cons_of_le h]

theorem internalInsertNonfull_cons_of_lt {k key : ℤ} (h : key < k) (ks : List ℤ) (c : Node)
    (cs : List Node) (right : Node) :
    internalInsertNonfull (k :: ks) (c :: cs) key right = (key :: k :: ks, c :: right :: cs) := by
  simp [internalInsertNonfull, internalChildIdx_cons_of_lt h]

theorem internalInsertNonfull_nil (c : Node) (key : ℤ) (right : Node) :
    internalInsertNonfull [] [c] key right = ([key], [c, right]) := rfl

theorem ordered_splitLeaf {order fresh addr : ℕ} {entries : List (ℤ × ℤ)} {next : Option ℕ}
    {lo hi : Option ℤ} (horder : 2 ≤ order) (hlen : order ≤ entries.length)
    (h : Ordered lo hi (.leaf addr entries next)) :
    match splitLeaf order fresh addr entries next with
    | (left, key, right) => Between lo hi key ∧ Ordered lo (some key) left ∧
        Ordered (some key) hi right ∧ left.toList ++ right.toList = entries := by
  rw [Ordered] at h
  obtain ⟨hsorted, hrange⟩ := h
  obtain ⟨⟨key, row⟩, es, hdrop⟩ : ∃ e es, entries.drop (order / 2) = e :: es := by
    cases hd : entries.drop (order / 2) with
    | nil =>
      have := congrArg List.length hd
      simp at this
      omega
    | cons e es => exact ⟨e, es, rfl⟩
  obtain ⟨first, ds, htake⟩ : ∃ e ds, entries.take (order / 2) = e :: ds := by
    cases hd : entries.take (order / 2) with
    | nil =>
      have := congrArg List.length hd
      simp only [List.length_take, List.length_nil] at this
      omega
    | cons e ds => exact ⟨e, ds, rfl⟩
  have hkey : (key, row) ∈ entries := List.mem_of_mem_drop (i := order / 2) (by simp [hdrop])
  have hfirst : first ∈ entries := List.mem_of_mem_take (i := order / 2) (by simp [htake])
  have hsplit := hsorted
  rw [SortedAssoc.Sorted, ← List.take_append_drop (order / 2) entries, List.pairwise_append,
    hdrop] at hsplit
  obtain ⟨hleft, hright, hacross⟩ := hsplit
  have hbelow : first.1 < key := hacross first (by simp [htake]) (key, row) (by simp)
  simp only [splitLeaf, hdrop, List.head?_cons, Option.map_some, Option.getD_some, Ordered,
    toList_leaf]
  refine ⟨⟨fun l hl => ((hrange _ hfirst).1 l hl).trans_lt hbelow, (hrange _ hkey).2⟩,
    ⟨hleft, fun e he => ?_⟩, ⟨hright, fun e he => ?_⟩, ?_⟩
  · refine ⟨(hrange e (List.mem_of_mem_take he)).1, ?_⟩
    rintro u ⟨rfl⟩
    exact hacross e he (key, row) (by simp)
  · refine ⟨?_, (hrange e (List.mem_of_mem_drop (hdrop ▸ he))).2⟩
    rintro l ⟨rfl⟩
    rcases List.mem_cons.mp he with rfl | he
    · exact le_rfl
    · exact (List.rel_of_pairwise_cons hright he).le
  · rw [← hdrop, List.take_append_drop]

theorem ordered_splitInternal {lo hi : Option ℤ} {keys : List ℤ} {cs : List Node} {mid : ℕ}
    (hmid : mid < keys.length) (h : OrderedChildren lo hi keys cs) :
    Between lo hi keys[mid] ∧
      OrderedChildren lo (some keys[mid]) (keys.take mid) (cs.take (mid + 1)) ∧
      OrderedChildren (some keys[mid]) hi (keys.drop (mid + 1)) (cs.drop (mid + 1)) ∧
      childrenToList (cs.take (mid + 1)) ++ childrenToList (cs.drop (mid + 1)) =
        childrenToList cs := by
  induction mid generalizing lo keys cs with
  | zero =>
    obtain ⟨k, ks, rfl⟩ := List.exists_cons_of_length_pos hmid
    obtain ⟨c, cs, rfl, hk, hc, hcs⟩ := orderedChildren_cons.mp h
    exact ⟨hk, orderedChildren_nil.mpr ⟨c, by simp, hc⟩, by simpa using hcs, by simp⟩
  | succ mid ih =>
    obtain ⟨k, ks, rfl⟩ := List.exists_cons_of_length_pos (Nat.zero_lt_of_lt hmid)
    obtain ⟨c, cs, rfl, hk, hc, hcs⟩ := orderedChildren_cons.mp h
    have hmid' : mid < ks.length := by simpa using hmid
    obtain ⟨hkey, hleft, hright, hcontent⟩ := ih hmid' hcs
    refine ⟨⟨fun l hl => (hk.1 l hl).trans (hkey.1 k rfl), hkey.2⟩,
      orderedChildren_cons.mpr ⟨c, _, rfl, ⟨hk.1, ?_⟩, hc, hleft⟩, hright, ?_⟩
    · rintro u ⟨rfl⟩
      exact hkey.1 k rfl
    · rw [List.take_succ_cons, List.drop_succ_cons, childrenToList_cons, childrenToList_cons,
        List.append_assoc, hcontent]

/-- One node: the children take the pair, and a node that is full then splits. -/
theorem inserted_internal {order : ℕ} (horder : 2 ≤ order) {lo hi : Option ℤ} {id rowIndex : ℤ}
    {keys : List ℤ} {content : List (ℤ × ℤ)} {cs : List Node} {split : Option (ℤ × Node)}
    (h : InsertedChildren lo hi id rowIndex keys content (cs, split)) :
    Inserted lo hi id rowIndex content
      (match (cs, split) with
      | (children, none) => (.internal keys children, none)
      | (children, some (childKey, childSplit)) =>
        let (keys, children) := internalInsertNonfull keys children childKey childSplit
        if keys.length < order then (.internal keys children, none)
        else
          let (left, key, right) := splitInternal order keys children
          (left, some (key, right))) := by
  cases split with
  | none =>
    obtain ⟨hord, hcontent⟩ := h
    exact ⟨by rwa [Ordered], by rwa [toList_internal]⟩
  | some s =>
    obtain ⟨childKey, childSplit⟩ := s
    obtain ⟨-, hord, hcontent⟩ := h
    generalize hins : internalInsertNonfull keys cs childKey childSplit = ins at hord hcontent
    obtain ⟨ks, children⟩ := ins
    dsimp only at hord hcontent ⊢
    by_cases hfull : ks.length < order
    · simp only [hins, hfull, if_true]
      exact ⟨by rwa [Ordered], by rwa [toList_internal]⟩
    · have hmid : order / 2 < ks.length := by omega
      obtain ⟨hkey, hleft, hright, happend⟩ := ordered_splitInternal hmid hord
      simp only [hins, hfull, if_false, splitInternal, List.getElem?_eq_getElem hmid,
        Option.getD_some]
      refine ⟨hkey, by rwa [Ordered], by rwa [Ordered], ?_⟩
      rw [toList_internal, toList_internal, happend, hcontent]

/-- The child in charge takes the pair; its neighbours keep what they have. -/
theorem inserted_children {order fresh : ℕ} {id rowIndex : ℤ} {cs : List Node}
    (ih : ∀ c ∈ cs, ∀ {lo hi : Option ℤ}, Ordered lo hi c → InRange lo hi id →
      Inserted lo hi id rowIndex c.toList (insertRec order fresh id rowIndex c)) :
    ∀ {keys : List ℤ} {lo hi : Option ℤ}, OrderedChildren lo hi keys cs → InRange lo hi id →
      InsertedChildren lo hi id rowIndex keys (childrenToList cs)
        (insertChild order fresh id rowIndex (internalChildIdx keys id) cs) := by
  induction cs with
  | nil =>
    intro keys lo hi h
    cases keys <;> simp [OrderedChildren] at h
  | cons c cs ihcs =>
    intro keys lo hi h hid
    cases keys with
    | nil =>
      obtain ⟨c', heq, hc⟩ := orderedChildren_nil.mp h
      obtain ⟨rfl, rfl⟩ := List.cons.inj heq
      have hins := ih c (by simp) hc hid
      rw [internalChildIdx_nil, insertChild]
      rcases hres : insertRec order fresh id rowIndex c with ⟨c₁, _ | ⟨key, right⟩⟩ <;>
        rw [hres] at hins
      · exact ⟨orderedChildren_nil.mpr ⟨c₁, rfl, hins.1⟩, by simpa using hins.2⟩
      · obtain ⟨hkey, hleft, hright, hcontent⟩ := hins
        refine ⟨hkey, ?_, by simpa [internalInsertNonfull_nil] using hcontent⟩
        rw [internalInsertNonfull_nil]
        exact orderedChildren_cons.mpr ⟨c₁, [right], rfl, hkey, hleft,
          orderedChildren_nil.mpr ⟨right, rfl, hright⟩⟩
    | cons k ks =>
      obtain ⟨c', cs', heq, hk, hc, hcs⟩ := orderedChildren_cons.mp h
      obtain ⟨rfl, rfl⟩ := List.cons.inj heq
      rcases le_or_gt k id with hle | hlt
      · -- the pair goes into a later child
        have hid' : InRange (some k) hi id := ⟨by rintro l ⟨rfl⟩; exact hle, hid.2⟩
        have hins := ihcs (fun d hd => ih d (by simp [hd])) hcs hid'
        have hkeep : c.toList ++ SortedAssoc.insert id rowIndex (childrenToList cs) =
            SortedAssoc.insert id rowIndex (childrenToList (c :: cs)) := by
          rw [childrenToList_cons, SortedAssoc.insert_append_right]
          exact fun e he => ((hc.inRange e he).2 k rfl).trans_le hle
        rw [internalChildIdx_cons_of_le hle, insertChild]
        rcases hres : insertChild order fresh id rowIndex (internalChildIdx ks id) cs with
          ⟨cs₁, _ | ⟨key, right⟩⟩ <;> rw [hres] at hins
        · obtain ⟨hord, hcontent⟩ := hins
          refine ⟨orderedChildren_cons.mpr ⟨c, cs₁, rfl, hk, hc, hord⟩, ?_⟩
          rw [childrenToList_cons, hcontent, hkeep]
        · obtain ⟨hkey, hord, hcontent⟩ := hins
          have hle' : k ≤ key := (hkey.1 k rfl).le
          refine ⟨⟨fun l hl => (hk.1 l hl).trans (hkey.1 k rfl), hkey.2⟩, ?_, ?_⟩ <;>
            rw [internalInsertNonfull_cons_of_le hle']
          · exact orderedChildren_cons.mpr ⟨c, _, rfl, hk, hc, hord⟩
          · rw [childrenToList_cons, hcontent, hkeep]
      · -- the pair goes into this child
        have hid' : InRange lo (some k) id := ⟨hid.1, by rintro u ⟨rfl⟩; exact hlt⟩
        have hins := ih c (by simp) hc hid'
        have hkeep : SortedAssoc.insert id rowIndex c.toList ++ childrenToList cs =
            SortedAssoc.insert id rowIndex (childrenToList (c :: cs)) := by
          rw [childrenToList_cons, SortedAssoc.insert_append_left]
          exact fun e he => hlt.trans_le ((hcs.inRange e he).1 k rfl)
        rw [internalChildIdx_cons_of_lt hlt, insertChild]
        rcases hres : insertRec order fresh id rowIndex c with ⟨c₁, _ | ⟨key, right⟩⟩ <;>
          rw [hres] at hins
        · obtain ⟨hord, hcontent⟩ := hins
          refine ⟨orderedChildren_cons.mpr ⟨c₁, cs, rfl, hk, hord, hcs⟩, ?_⟩
          rw [childrenToList_cons, hcontent, hkeep]
        · obtain ⟨hkey, hleft, hright, hcontent⟩ := hins
          have hlt' : key < k := hkey.2 k rfl
          have hkey' : Between lo hi key := ⟨hkey.1, fun u hu => hlt'.trans (hk.2 u hu)⟩
          refine ⟨hkey', ?_, ?_⟩ <;> rw [internalInsertNonfull_cons_of_lt hlt']
          · have hk' : Between (some key) hi k := ⟨by rintro l ⟨rfl⟩; exact hlt', hk.2⟩
            exact orderedChildren_cons.mpr ⟨c₁, _, rfl, hkey', hleft,
              orderedChildren_cons.mpr ⟨right, cs, rfl, hk', hright, hcs⟩⟩
          · rw [childrenToList_cons, childrenToList_cons, ← List.append_assoc, hcontent, hkeep]

/-- **Insertion keeps a subtree ordered and adds exactly the pair.** -/
theorem inserted_insertRec {order fresh : ℕ} (horder : 2 ≤ order) {id rowIndex : ℤ} (n : Node) :
    ∀ {lo hi : Option ℤ}, Ordered lo hi n → InRange lo hi id →
      Inserted lo hi id rowIndex n.toList (insertRec order fresh id rowIndex n) := by
  induction n using Node.induct with
  | leaf addr entries next =>
    intro lo hi h hid
    have hnew : Ordered lo hi (.leaf addr (leafInsertSorted entries id rowIndex) next) := by
      rw [Ordered] at h ⊢
      refine ⟨h.1.insert id rowIndex, fun e he => ?_⟩
      rcases SortedAssoc.mem_insert he with rfl | he
      · exact hid
      · exact h.2 e he
    rw [insertRec, toList_leaf]
    by_cases hfull : (leafInsertSorted entries id rowIndex).length < order
    · simp only [hfull, if_true]
      exact ⟨hnew, by simp [leafInsertSorted]⟩
    · simp only [hfull, if_false]
      exact ordered_splitLeaf horder (Nat.not_lt.mp hfull) hnew
  | internal keys children ih =>
    intro lo hi h hid
    rw [Ordered] at h
    rw [insertRec, toList_internal]
    have hins := inserted_children (fun c hc => ih c hc) h hid
    generalize insertChild order fresh id rowIndex (internalChildIdx keys id) children = res at hins
    obtain ⟨cs, split⟩ := res
    exact inserted_internal horder hins

/-! ## The tree -/

/-- The representation invariant of a tree that `bptree_insert` built. -/
structure BPTree.Wf (tree : BPTree) : Prop where
  order_ge : 3 ≤ tree.order
  ordered : Ordered none none tree.root

/-- The pairs of a tree, in key order. -/
def BPTree.toList (tree : BPTree) : List (ℤ × ℤ) := tree.root.toList

theorem inRange_none (k : ℤ) : InRange none none k := ⟨by simp, by simp⟩

theorem wf_bptreeCreate {order : ℕ} {tree : BPTree} (h : bptreeCreate order = some tree) :
    tree.Wf ∧ tree.toList = [] := by
  unfold bptreeCreate at h
  split_ifs at h with horder
  obtain rfl := Option.some.inj h
  refine ⟨⟨Nat.not_lt.mp horder, ?_⟩, by simp [BPTree.toList]⟩
  simp [Ordered, SortedAssoc.Sorted]

/-- **Insertion into the tree is insertion into its sorted content.** -/
theorem wf_bptreeInsert {tree : BPTree} (h : tree.Wf) (id rowIndex : ℤ) :
    (bptreeInsert tree id rowIndex).Wf ∧
      (bptreeInsert tree id rowIndex).toList = SortedAssoc.insert id rowIndex tree.toList := by
  have horder : 2 ≤ tree.order := by have := h.order_ge; omega
  have hins : Inserted none none id rowIndex tree.root.toList
      (insertRec tree.order tree.nextAddr id rowIndex tree.root) :=
    inserted_insertRec horder tree.root h.ordered (inRange_none id)
  rcases hres : insertRec tree.order tree.nextAddr id rowIndex tree.root with
    ⟨root, _ | ⟨key, sibling⟩⟩ <;> rw [hres] at hins <;> simp only [bptreeInsert, hres]
  · exact ⟨⟨h.order_ge, hins.1⟩, hins.2⟩
  · obtain ⟨hkey, hleft, hright, hcontent⟩ := hins
    refine ⟨⟨h.order_ge, ?_⟩, by simpa [BPTree.toList] using hcontent⟩
    rw [Ordered]
    exact orderedChildren_cons.mpr ⟨root, [sibling], rfl, hkey, hleft,
      orderedChildren_nil.mpr ⟨sibling, rfl, hright⟩⟩

/-- A search looks the key up in the content. -/
theorem bptreeSearch_eq {tree : BPTree} (h : tree.Wf) (id : ℤ) :
    bptreeSearch tree id = (tree.toList.lookup id).getD (-1) := by
  rw [bptreeSearch, lookup_descend h.ordered]
  rfl

/-- **A search finds what was inserted last under its key.** -/
theorem bptreeSearch_bptreeInsert {tree : BPTree} (h : tree.Wf) (id id' rowIndex : ℤ) :
    bptreeSearch (bptreeInsert tree id rowIndex) id' =
      if id' = id then rowIndex else bptreeSearch tree id' := by
  obtain ⟨hwf, hcontent⟩ := wf_bptreeInsert h id rowIndex
  rw [bptreeSearch_eq hwf, bptreeSearch_eq h, hcontent, SortedAssoc.lookup_insert]
  split <;> rfl

/-! ## Sequences of insertions -/

/-- The calls of `bptree_insert` with the pairs of a list, one after the other. -/
def bptreeInsertAll (tree : BPTree) (pairs : List (ℤ × ℤ)) : BPTree :=
  pairs.foldl (fun tree p => bptreeInsert tree p.1 p.2) tree

theorem bptreeInsertAll_cons (tree : BPTree) (p : ℤ × ℤ) (pairs : List (ℤ × ℤ)) :
    bptreeInsertAll tree (p :: pairs) = bptreeInsertAll (bptreeInsert tree p.1 p.2) pairs := rfl

/-- What holds of a tree and is kept by every insertion holds after all of them. -/
theorem bptreeInsertAll_induct {P : BPTree → Prop}
    (step : ∀ tree id rowIndex, P tree → P (bptreeInsert tree id rowIndex))
    {tree : BPTree} (h : P tree) (pairs : List (ℤ × ℤ)) : P (bptreeInsertAll tree pairs) := by
  induction pairs generalizing tree with
  | nil => exact h
  | cons p pairs ih => exact ih (step tree p.1 p.2 h)

@[simp] theorem bptreeInsert_order (tree : BPTree) (id rowIndex : ℤ) :
    (bptreeInsert tree id rowIndex).order = tree.order := by
  unfold bptreeInsert
  split <;> rfl

theorem wf_bptreeInsertAll {tree : BPTree} (h : tree.Wf) (pairs : List (ℤ × ℤ)) :
    (bptreeInsertAll tree pairs).Wf :=
  bptreeInsertAll_induct (P := BPTree.Wf) (fun _ id rowIndex h => (wf_bptreeInsert h id rowIndex).1) h
    pairs

/-- The value of the last pair with a key. -/
def lastValue (pairs : List (ℤ × ℤ)) (id : ℤ) : Option ℤ := pairs.reverse.lookup id

theorem lastValue_cons (p : ℤ × ℤ) (pairs : List (ℤ × ℤ)) (id : ℤ) :
    lastValue (p :: pairs) id =
      (lastValue pairs id).or (if id = p.1 then some p.2 else none) := by
  rw [lastValue, List.reverse_cons, List.lookup_append, SortedAssoc.lookup_cons]
  rfl

/-- The content of the tree under a key is the last value inserted under it. -/
theorem lookup_bptreeInsertAll {tree : BPTree} (h : tree.Wf) (pairs : List (ℤ × ℤ)) (id : ℤ) :
    (bptreeInsertAll tree pairs).toList.lookup id =
      (lastValue pairs id).or (tree.toList.lookup id) := by
  induction pairs generalizing tree with
  | nil => rfl
  | cons p pairs ih =>
    obtain ⟨hwf, hcontent⟩ := wf_bptreeInsert h p.1 p.2
    rw [bptreeInsertAll_cons, ih hwf, hcontent, SortedAssoc.lookup_insert, lastValue_cons]
    cases lastValue pairs id with
    | some v => rfl
    | none => split <;> rfl

theorem bptreeCreate_of_le {order : ℕ} (h : 3 ≤ order) :
    bptreeCreate order = some ⟨order, .leaf 0 [] none, 1⟩ := if_neg (Nat.not_lt.mpr h)

/-- **After any sequence of insertions a search finds the value that was inserted last under
the key, and `-1` when there is none.** -/
theorem bptreeSearch_bptreeInsertAll {order : ℕ} (h : 3 ≤ order) :
    ∃ tree, bptreeCreate order = some tree ∧ ∀ pairs id,
      bptreeSearch (bptreeInsertAll tree pairs) id = (lastValue pairs id).getD (-1) := by
  refine ⟨_, bptreeCreate_of_le h, fun pairs id => ?_⟩
  obtain ⟨hwf, hempty⟩ := wf_bptreeCreate (bptreeCreate_of_le h)
  rw [bptreeSearch_eq (wf_bptreeInsertAll hwf pairs), lookup_bptreeInsertAll hwf, hempty]
  simp

/-- A tree of order 3, which splits at the third key. -/
theorem bptreeSearch_order_three :
    ∃ tree, bptreeCreate 3 = some tree ∧ ∀ pairs id,
      bptreeSearch (bptreeInsertAll tree pairs) id = (lastValue pairs id).getD (-1) :=
  bptreeSearch_bptreeInsertAll (by decide)

example : bptreeSearch (bptreeInsertAll ⟨3, .leaf 0 [] none, 1⟩ [(1, 0), (2, 1), (3, 2), (1, 3)]) 1 =
    3 := by decide

end MiniSql
