import Mathlib.Data.List.Forall2
import Mathlib.Data.List.InsertIdx
import MiniSql.Lib.Block
import MiniSql.BPTree.Shape

/-!
# The arrays of the B+ tree

The nodes as `bptree.c` lays them out: arrays of `order` keys, `order` rows and `order + 1`
children, and a count. An access outside an array, a read of a cell that was never written and
a failing `assert` have no result here, so that a result means that none of them happens.

## Main definitions

* `Arrays.Node`, `Arrays.insertRec`, `Arrays.bptreeInsert` — insertion on the arrays.
* `Arrays.Represents` — the arrays hold the node of the list model.

## Main results

* `Arrays.represents_insertRec` — insertion on the arrays has a result, which holds what the list
  model computes.
* `Arrays.bptreeInsertAll_repInv` — after any sequence of insertions the arrays hold a tree with
  the representation invariant.
-/

namespace MiniSql.Arrays

/-- The leaf variant of `Node`. -/
structure Leaf where
  addr : ℕ
  numKeys : ℕ
  keys : Block ℤ
  rowIndices : Block ℤ
  next : Option ℕ

/-- `Node`. -/
inductive Node
  | leaf (leaf : Leaf)
  | internal (numKeys : ℕ) (keys : Block ℤ) (children : List (Option Node))

/-- `BPTree`. -/
structure BPTree where
  order : ℕ
  root : Node
  nextAddr : ℕ

/-- `leaf_new`. -/
def leafNew (order addr : ℕ) : Leaf := ⟨addr, 0, Block.alloc order, Block.alloc order, none⟩

/-- `bptree_create`. -/
def bptreeCreate (order : ℕ) : Option BPTree :=
  if order < 3 then none else some ⟨order, .leaf (leafNew order 0), 1⟩

/-- `internal_child_idx`. -/
def internalChildIdx (numKeys : ℕ) (keys : Block ℤ) (id : ℤ) : Option ℕ :=
  keys.scan (· ≤ id) numKeys 0

/-- `i < leaf->num_keys && leaf->keys[i] == id`. -/
def leafHasKey (leaf : Leaf) (i : ℕ) (id : ℤ) : Option Bool :=
  if i < leaf.numKeys then (leaf.keys.read i).map (· == id) else some false

/-- `leaf_insert_sorted`; keys and rows are moved by a loop each. -/
def leafInsertSorted (leaf : Leaf) (id rowIndex : ℤ) : Option Leaf := do
  let i ← leaf.keys.scan (· < id) leaf.numKeys 0
  if ← leafHasKey leaf i id then
    let rowIndices ← leaf.rowIndices.write i rowIndex
    some { leaf with rowIndices := rowIndices }
  else
    let keys ← leaf.keys.insertAt i leaf.numKeys id
    let rowIndices ← leaf.rowIndices.insertAt i leaf.numKeys rowIndex
    some { leaf with numKeys := leaf.numKeys + 1, keys := keys, rowIndices := rowIndices }

/-- `split_leaf`. -/
def splitLeaf (order fresh : ℕ) (leaf : Leaf) : Option (Leaf × ℤ × Leaf) :=
  if leaf.numKeys ≠ order then none
  else do
    let mid := order / 2
    let right := leafNew order fresh
    let keys ← leaf.keys.copy mid (order - mid) right.keys
    let rowIndices ← leaf.rowIndices.copy mid (order - mid) right.rowIndices
    let promoted ← keys.read 0
    some ({ leaf with numKeys := mid, next := some fresh }, promoted,
      ⟨fresh, order - mid, keys, rowIndices, leaf.next⟩)

/-- `internal_insert_nonfull`. -/
def internalInsertNonfull (numKeys : ℕ) (keys : Block ℤ) (children : Block Node) (key : ℤ)
    (rightChild : Node) : Option (ℕ × Block ℤ × Block Node) := do
  let i ← keys.scan (· ≤ key) numKeys 0
  let keys ← keys.insertAt i numKeys key
  let children ← children.insertAt (i + 1) (numKeys + 1) rightChild
  some (numKeys + 1, keys, children)

/-- `split_internal`. -/
def splitInternal (order numKeys : ℕ) (keys : Block ℤ) (children : Block Node) :
    Option (Node × ℤ × Node) :=
  if numKeys ≠ order then none
  else do
    let mid := order / 2
    let promoted ← keys.read mid
    let rightKeys := order - mid - 1
    let newKeys ← keys.copy (mid + 1) rightKeys (Block.alloc order)
    let newChildren ← children.copy (mid + 1) (rightKeys + 1) (Block.alloc (order + 1))
    some (.internal mid keys children, promoted, .internal rightKeys newKeys newChildren)

mutual

/-- `insert_rec`. -/
def insertRec (order fresh : ℕ) (id rowIndex : ℤ) : Node → Option (Node × Option (ℤ × Node))
  | .leaf leaf => do
    let leaf ← leafInsertSorted leaf id rowIndex
    if leaf.numKeys < order then some (.leaf leaf, none)
    else
      let (left, key, right) ← splitLeaf order fresh leaf
      some (.leaf left, some (key, .leaf right))
  | .internal numKeys keys children => do
    let ci ← internalChildIdx numKeys keys id
    match ← insertChild order fresh id rowIndex ci children with
    | (children, none) => some (.internal numKeys keys children, none)
    | (children, some (childKey, childSplit)) =>
      let (numKeys, keys, children) ← internalInsertNonfull numKeys keys children childKey childSplit
      if numKeys < order then some (.internal numKeys keys children, none)
      else
        let (left, key, right) ← splitInternal order numKeys keys children
        some (left, some (key, right))

/-- `insert_rec` on `children[ci]`. -/
def insertChild (order fresh : ℕ) (id rowIndex : ℤ) :
    ℕ → List (Option Node) → Option (List (Option Node) × Option (ℤ × Node))
  | _, [] => none
  | 0, c :: cs => do
    let (c, split) ← insertPointer order fresh id rowIndex c
    some (some c :: cs, split)
  | i + 1, c :: cs => do
    let (cs, split) ← insertChild order fresh id rowIndex i cs
    some (c :: cs, split)

/-- `insert_rec` through a cell of `children`. -/
def insertPointer (order fresh : ℕ) (id rowIndex : ℤ) :
    Option Node → Option (Node × Option (ℤ × Node))
  | none => none
  | some c => insertRec order fresh id rowIndex c

end

/-- `bptree_insert`. -/
def bptreeInsert (tree : BPTree) (id rowIndex : ℤ) : Option BPTree := do
  match ← insertRec tree.order tree.nextAddr id rowIndex tree.root with
  | (root, none) => some { tree with root := root, nextAddr := tree.nextAddr + 1 }
  | (root, some (key, sibling)) =>
    let keys ← (Block.alloc tree.order).write 0 key
    let children ← (Block.alloc (tree.order + 1)).write 0 root
    let children ← Block.write children 1 sibling
    some { tree with root := .internal 1 keys children, nextAddr := tree.nextAddr + 1 }

/-- The calls of `bptree_insert` with the pairs of a list, one after the other. -/
def bptreeInsertAll (tree : BPTree) (pairs : List (ℤ × ℤ)) : Option BPTree :=
  pairs.foldlM (fun tree p => bptreeInsert tree p.1 p.2) tree

/-! ## The arrays of a node -/

/-- The arrays of a leaf have their sizes and hold the pairs in their first cells. -/
structure LeafHolds (order : ℕ) (leaf : Leaf) (entries : List (ℤ × ℤ)) : Prop where
  count : leaf.numKeys = entries.length
  keySize : leaf.keys.length = order
  rowSize : leaf.rowIndices.length = order
  keys : leaf.keys.Holds (entries.map Prod.fst)
  rows : leaf.rowIndices.Holds (entries.map Prod.snd)

/-- The arrays of an internal node have their sizes and hold its keys and children. -/
structure InternalHolds (order numKeys : ℕ) (keyArray : Block ℤ) (childArray : Block Node)
    (keys : List ℤ) (children : List Node) : Prop where
  count : numKeys = keys.length
  keySize : keyArray.length = order
  childSize : childArray.length = order + 1
  keys : keyArray.Holds keys
  children : childArray.Holds children

/-- A node on arrays holds a node of the list model. -/
inductive Represents (order : ℕ) : Node → MiniSql.Node → Prop
  | leaf {leaf : Leaf} {entries : List (ℤ × ℤ)} (holds : LeafHolds order leaf entries) :
      Represents order (.leaf leaf) (.leaf leaf.addr entries leaf.next)
  | internal {numKeys : ℕ} {keyArray : Block ℤ} {childArray : Block Node} {keys : List ℤ}
      {nodes : List Node} {children : List MiniSql.Node}
      (holds : InternalHolds order numKeys keyArray childArray keys nodes)
      (below : List.Forall₂ (Represents order) nodes children) :
      Represents order (.internal numKeys keyArray childArray) (.internal keys children)

/-- The outcome of an insertion on the arrays holds the outcome in the list model. -/
def RepresentsOutcome (order : ℕ) :
    Node × Option (ℤ × Node) → MiniSql.Node × Option (ℤ × MiniSql.Node) → Prop
  | (a, none), (n, none) => Represents order a n
  | (a, some (key, b)), (n, some (key', m)) =>
    Represents order a n ∧ key = key' ∧ Represents order b m
  | _, _ => False

/-! ## One function at a time -/

/-- The test for a key that is there already. -/
theorem LeafHolds.hasKey {order : ℕ} {leaf : Leaf} {entries : List (ℤ × ℤ)}
    (h : LeafHolds order leaf entries) (i : ℕ) (id : ℤ) :
    leafHasKey leaf i id = some (entries[i]?.any fun p => p.1 == id) := by
  rw [leafHasKey, h.count]
  by_cases hi : i < entries.length
  · have hread : leaf.keys.read i = some entries[i].1 := h.keys.read (by simp [hi])
    simp [hi, hread]
  · simp [hi]

theorem set_of_getElem? {α : Type*} {l : List α} {i : ℕ} {x : α} (h : l[i]? = some x) :
    l.set i x = l := by
  obtain ⟨hi, rfl⟩ := List.getElem?_eq_some_iff.mp h
  exact List.set_getElem_self hi

/-- Inserting into a leaf with room for one more pair. -/
theorem LeafHolds.insert {order : ℕ} {leaf : Leaf} {entries : List (ℤ × ℤ)}
    (h : LeafHolds order leaf entries) (hroom : entries.length < order) (id rowIndex : ℤ) :
    ∃ leaf', leafInsertSorted leaf id rowIndex = some leaf' ∧ leaf'.addr = leaf.addr ∧
      leaf'.next = leaf.next ∧
      LeafHolds order leaf' (MiniSql.leafInsertSorted entries id rowIndex) := by
  have hscan : leaf.keys.scan (· < id) leaf.numKeys 0 =
      some (entries.takeWhile fun p => p.1 < id).length := by
    have := h.keys.scan (· < id)
    rwa [List.length_map, ← h.count, List.takeWhile_map, List.length_map] at this
  have hle : (entries.takeWhile fun p => p.1 < id).length ≤ entries.length :=
    (List.takeWhile_sublist _).length_le
  simp only [leafInsertSorted, hscan, h.hasKey, Option.bind_eq_bind, Option.bind_some,
    MiniSql.leafInsertSorted]
  by_cases hfound : ∃ p, entries[(entries.takeWhile fun p => p.1 < id).length]? = some p ∧ p.1 = id
  · obtain ⟨p, hp, hid⟩ := hfound
    have hlt := (List.getElem?_eq_some_iff.mp hp).1
    obtain ⟨rows, hwrite, hrows, hsize⟩ := h.rows.write (i := _) (by simpa using hlt) rowIndex
    have hkeys : (entries.set (entries.takeWhile fun p => p.1 < id).length (id, rowIndex)).map
        Prod.fst = entries.map Prod.fst := by
      rw [List.map_set]
      exact set_of_getElem? (by simp [hp, hid])
    rw [SortedAssoc.insert_eq_set rowIndex hp hid]
    simp only [hp, hid, Option.any_some, beq_self_eq_true, if_true, hwrite, Option.bind_some]
    refine ⟨_, rfl, rfl, rfl, by simp [h.count], h.keySize, hsize.trans h.rowSize, ?_, ?_⟩
    · rw [hkeys]
      exact h.keys
    · rw [List.map_set]
      exact hrows
  · have hnot : (entries[(entries.takeWhile fun p => p.1 < id).length]?.any fun p => p.1 == id) =
        false := by
      rw [Option.any_eq_false]
      intro p hp
      simpa using fun hid => hfound ⟨p, hp, hid⟩
    obtain ⟨keys, hkeyInsert, hkeys, hkeySize⟩ := h.keys.insertAt (i := _) (by simpa using hle)
      (by simpa [h.keySize] using hroom) id
    obtain ⟨rows, hrowInsert, hrows, hrowSize⟩ := h.rows.insertAt (i := _) (by simpa using hle)
      (by simpa [h.rowSize] using hroom) rowIndex
    rw [List.length_map, ← h.count] at hkeyInsert hrowInsert
    rw [SortedAssoc.insert_eq_insertIdx rowIndex fun p hp hid => hfound ⟨p, hp, hid⟩]
    simp only [hnot, if_false, Bool.false_eq_true, hkeyInsert, hrowInsert, Option.bind_some]
    refine ⟨_, rfl, rfl, rfl, ?_, hkeySize.trans h.keySize, hrowSize.trans h.rowSize, ?_, ?_⟩
    · simp [h.count, List.length_insertIdx_of_le_length hle]
    · rw [List.map_insertIdx]
      exact hkeys
    · rw [List.map_insertIdx]
      exact hrows

/-- Splitting a leaf that is one pair too long. -/
theorem LeafHolds.split {order : ℕ} {leaf : Leaf} {entries : List (ℤ × ℤ)}
    (h : LeafHolds order leaf entries) (horder : 2 ≤ order) (hfull : entries.length = order)
    (fresh : ℕ) : ∃ left key right, splitLeaf order fresh leaf = some (left, key, right) ∧
      RepresentsOutcome order (.leaf left, some (key, .leaf right))
        (match MiniSql.splitLeaf order fresh leaf.addr entries leaf.next with
        | (left, key, right) => (left, some (key, right))) := by
  have hcount : leaf.numKeys = order := h.count.trans hfull
  have hrange : order / 2 + (order - order / 2) ≤ entries.length := by omega
  have hroom : order - order / 2 ≤ (Block.alloc order : Block ℤ).length := by simp
  have hdrop : (entries.drop (order / 2)).take (order - order / 2) = entries.drop (order / 2) := by
    rw [List.take_of_length_le]
    simp [hfull]
  obtain ⟨keys, hcopyKeys, hkeys, hkeySize⟩ := h.keys.copy _ _ _ (by simpa using hrange) hroom
  obtain ⟨rows, hcopyRows, hrows, hrowSize⟩ := h.rows.copy _ _ _ (by simpa using hrange) hroom
  rw [← List.map_drop, ← List.map_take, hdrop] at hkeys hrows
  have hfirst : order / 2 < entries.length := by omega
  have hread : keys.read 0 = some entries[order / 2].1 := hkeys.read (by simp [hfirst])
  refine ⟨{ leaf with numKeys := order / 2, next := some fresh }, entries[order / 2].1,
    ⟨fresh, order - order / 2, keys, rows, leaf.next⟩, ?_, ?_, ?_, ?_⟩
  · simp [splitLeaf, hcount, leafNew, hcopyKeys, hcopyRows, hread]
  · refine @Represents.leaf order { leaf with numKeys := order / 2, next := some fresh } _
      ⟨?_, h.keySize, h.rowSize, ?_, ?_⟩
    · rw [List.length_take_of_le (by omega)]
    · rw [List.map_take]
      exact h.keys.take _
    · rw [List.map_take]
      exact h.rows.take _
  · simp [hfirst]
  · refine @Represents.leaf order ⟨fresh, order - order / 2, keys, rows, leaf.next⟩ _
      ⟨?_, by simpa using hkeySize, by simpa using hrowSize, hkeys, hrows⟩
    rw [List.length_drop, hfull]

/-- Inserting a key and a child into an internal node with room for one more key. -/
theorem InternalHolds.insert {order numKeys : ℕ} {keyArray : Block ℤ} {childArray : Block Node}
    {keys : List ℤ} {nodes : List Node}
    (h : InternalHolds order numKeys keyArray childArray keys nodes) (hroom : keys.length < order)
    (hwidth : nodes.length = keys.length + 1) (key : ℤ) (right : Node) :
    ∃ keyArray' childArray', internalInsertNonfull numKeys keyArray childArray key right =
        some (numKeys + 1, keyArray', childArray') ∧
      InternalHolds order (numKeys + 1) keyArray' childArray'
        (keys.insertIdx (MiniSql.internalChildIdx keys key) key)
        (nodes.insertIdx (MiniSql.internalChildIdx keys key + 1) right) := by
  have hidx := internalChildIdx_le keys key
  have hscan : keyArray.scan (· ≤ key) numKeys 0 = some (MiniSql.internalChildIdx keys key) := by
    rw [h.count]
    exact h.keys.scan (· ≤ key)
  obtain ⟨keyArray', hkeyInsert, hkeys, hkeySize⟩ :=
    h.keys.insertAt hidx (by rw [h.keySize]; exact hroom) key
  obtain ⟨childArray', hchildInsert, hchildren, hchildSize⟩ :=
    h.children.insertAt (i := MiniSql.internalChildIdx keys key + 1) (by omega)
      (by rw [h.childSize]; omega) right
  rw [← h.count] at hkeyInsert
  rw [hwidth, ← h.count] at hchildInsert
  refine ⟨keyArray', childArray', ?_, ?_, hkeySize.trans h.keySize,
    hchildSize.trans h.childSize, hkeys, hchildren⟩
  · simp [internalInsertNonfull, hscan, hkeyInsert, hchildInsert]
  · rw [List.length_insertIdx_of_le_length hidx, h.count]

/-- Splitting an internal node that has one key too many. -/
theorem InternalHolds.split {order numKeys : ℕ} {keyArray : Block ℤ} {childArray : Block Node}
    {keys : List ℤ} {nodes : List Node} {children : List MiniSql.Node}
    (h : InternalHolds order numKeys keyArray childArray keys nodes) (horder : 2 ≤ order)
    (hfull : keys.length = order) (hwidth : nodes.length = keys.length + 1)
    (hbelow : List.Forall₂ (Represents order) nodes children) :
    ∃ left key right, splitInternal order numKeys keyArray childArray = some (left, key, right) ∧
      RepresentsOutcome order (left, some (key, right))
        (match MiniSql.splitInternal order keys children with
        | (left, key, right) => (left, some (key, right))) := by
  have hcount : numKeys = order := h.count.trans hfull
  have hmid : order / 2 < keys.length := by omega
  have hread : keyArray.read (order / 2) = some keys[order / 2] :=
    h.keys.read (List.getElem?_eq_getElem hmid)
  obtain ⟨newKeys, hcopyKeys, hkeys, hkeySize⟩ := h.keys.copy (order / 2 + 1)
    (order - order / 2 - 1) (Block.alloc order) (by omega) (by simp; omega)
  obtain ⟨newChildren, hcopyChildren, hchildren, hchildSize⟩ :=
    h.children.copy (order / 2 + 1) (order - order / 2 - 1 + 1)
      (Block.alloc (order + 1)) (by omega) (by simp; omega)
  rw [List.take_of_length_le (by simp; omega)] at hkeys hchildren
  refine ⟨.internal (order / 2) keyArray childArray, keys[order / 2],
    .internal (order - order / 2 - 1) newKeys newChildren, ?_, ?_, ?_, ?_⟩
  · simp [splitInternal, hcount, hread, hcopyKeys, hcopyChildren]
  · refine .internal ⟨?_, h.keySize, h.childSize, h.keys.take _, h.children.take _⟩
      (List.forall₂_take _ hbelow)
    rw [List.length_take_of_le (by omega)]
  · simp [hmid]
  · refine .internal ⟨?_, by simpa using hkeySize, by simpa using hchildSize, hkeys, hchildren⟩
      (List.forall₂_drop _ hbelow)
    rw [List.length_drop]
    omega

/-! ## The recursion -/

theorem forall₂_set {α β : Type*} {R : α → β → Prop} {as : List α} {bs : List β}
    (h : List.Forall₂ R as bs) (i : ℕ) {a : α} {b : β} (hab : R a b) :
    List.Forall₂ R (as.set i a) (bs.set i b) := by
  induction h generalizing i with
  | nil => exact .nil
  | cons hx hrest ih =>
    cases i with
    | zero => exact .cons hab hrest
    | succ i => exact .cons hx (ih i)

theorem forall₂_insertIdx {α β : Type*} {R : α → β → Prop} {as : List α} {bs : List β}
    (h : List.Forall₂ R as bs) (i : ℕ) {a : α} {b : β} (hab : R a b) :
    List.Forall₂ R (as.insertIdx i a) (bs.insertIdx i b) := by
  induction h generalizing i with
  | nil =>
    cases i with
    | zero => exact .cons hab .nil
    | succ i => exact .nil
  | cons hx hrest ih =>
    cases i with
    | zero => exact .cons hab (.cons hx hrest)
    | succ i => exact .cons hx (ih i)

/-- `insert_rec` on a child replaces that child. -/
theorem insertChild_eq {order fresh : ℕ} {id rowIndex : ℤ} {nodes : List Node} {i : ℕ} {c c' : Node}
    {split : Option (ℤ × Node)} (hc : nodes[i]? = some c)
    (h : insertRec order fresh id rowIndex c = some (c', split)) (rest : Block Node) :
    insertChild order fresh id rowIndex i (nodes.map some ++ rest) =
      some ((nodes.set i c').map some ++ rest, split) := by
  induction nodes generalizing i with
  | nil => simp at hc
  | cons d nodes ih =>
    cases i with
    | zero =>
      obtain rfl : d = c := by simpa using hc
      simp [insertChild, insertPointer, h]
    | succ i => simp [insertChild, ih (by simpa using hc)]

theorem InternalHolds.insertChild {order fresh numKeys i : ℕ} {id rowIndex : ℤ} {keyArray : Block ℤ}
    {childArray : Block Node} {keys : List ℤ} {nodes : List Node} {c c' : Node}
    {split : Option (ℤ × Node)} (h : InternalHolds order numKeys keyArray childArray keys nodes)
    (hc : nodes[i]? = some c) (hrec : insertRec order fresh id rowIndex c = some (c', split)) :
    ∃ childArray', Arrays.insertChild order fresh id rowIndex i childArray =
        some (childArray', split) ∧
      InternalHolds order numKeys keyArray childArray' keys (nodes.set i c') := by
  obtain ⟨rest, hrest⟩ := h.children
  refine ⟨(nodes.set i c').map some ++ rest, ?_, h.count, h.keySize, ?_, h.keys, ⟨rest, rfl⟩⟩
  · rw [hrest, insertChild_eq hc hrec]
  · rw [← h.childSize, hrest]
    simp

theorem RepresentsOutcome.none {order : ℕ} {a : Node} {split : Option (ℤ × Node)}
    {n : MiniSql.Node} (h : RepresentsOutcome order (a, split) (n, .none)) :
    split = .none ∧ Represents order a n := by
  cases split with
  | none => exact ⟨rfl, h⟩
  | some s => exact absurd h id

theorem RepresentsOutcome.some {order : ℕ} {a : Node} {split : Option (ℤ × Node)}
    {n m : MiniSql.Node} {key : ℤ} (h : RepresentsOutcome order (a, split) (n, .some (key, m))) :
    ∃ b, split = .some (key, b) ∧ Represents order a n ∧ Represents order b m := by
  match split, h with
  | .some (key', b), h =>
    obtain ⟨ha, rfl, hb⟩ := h
    exact ⟨b, rfl, ha, hb⟩

/-- A leaf takes the pair and splits if it is one pair too long. -/
theorem represents_leaf {order : ℕ} (horder : 2 ≤ order) (fresh : ℕ) (id rowIndex : ℤ) {leaf : Leaf}
    {entries : List (ℤ × ℤ)} (h : LeafHolds order leaf entries) (hroom : entries.length < order) :
    ∃ outcome, insertRec order fresh id rowIndex (.leaf leaf) = .some outcome ∧
      RepresentsOutcome order outcome
        (MiniSql.insertRec order fresh id rowIndex (.leaf leaf.addr entries leaf.next)) := by
  obtain ⟨leaf', hinsert, haddr, hnext, holds'⟩ := h.insert hroom id rowIndex
  have hle : (MiniSql.leafInsertSorted entries id rowIndex).length ≤ entries.length + 1 :=
    SortedAssoc.length_insert_le ..
  rw [MiniSql.insertRec, ← haddr, ← hnext]
  by_cases hfit : (MiniSql.leafInsertSorted entries id rowIndex).length < order
  · refine ⟨(.leaf leaf', .none), ?_, ?_⟩
    · simp [insertRec, hinsert, holds'.count, hfit]
    · simp only [hfit, if_true]
      exact .leaf holds'
  · obtain ⟨left, key, right, hsplit, hout⟩ := holds'.split horder (by omega) fresh
    refine ⟨(.leaf left, .some (key, .leaf right)), ?_, ?_⟩
    · simp [insertRec, hinsert, holds'.count, hfit, hsplit]
    · simp only [hfit, if_false]
      exact hout

/-- An internal node takes the new sibling of a child and splits if it has one key too many. -/
theorem represents_internal {order numKeys : ℕ} (horder : 2 ≤ order) {keyArray : Block ℤ}
    {childArray : Block Node} {keys : List ℤ} {nodes : List Node} {children : List MiniSql.Node}
    (h : InternalHolds order numKeys keyArray childArray keys nodes)
    (hnodes : List.Forall₂ (Represents order) nodes children) (hroom : keys.length < order)
    (hwidth : nodes.length = keys.length + 1) (key : ℤ) {b : Node} {right : MiniSql.Node}
    (hright : Represents order b right) :
    ∃ numKeys' keyArray' childArray',
      internalInsertNonfull numKeys keyArray childArray key b =
        .some (numKeys', keyArray', childArray') ∧
      ∃ outcome, (if numKeys' < order then .some (.internal numKeys' keyArray' childArray', .none)
          else (splitInternal order numKeys' keyArray' childArray').map fun s =>
            (s.1, .some s.2)) = .some outcome ∧
        RepresentsOutcome order outcome
          (match MiniSql.internalInsertNonfull keys children key right with
          | (keys, children) =>
            if keys.length < order then (.internal keys children, .none)
            else
              match MiniSql.splitInternal order keys children with
              | (left, key, right) => (left, .some (key, right))) := by
  obtain ⟨keyArray', childArray', hnonfull, holds'⟩ := h.insert hroom hwidth key b
  have hnodes' := forall₂_insertIdx hnodes (MiniSql.internalChildIdx keys key + 1) hright
  have hidx := internalChildIdx_le keys key
  have hcount : (keys.insertIdx (MiniSql.internalChildIdx keys key) key).length = keys.length + 1 :=
    List.length_insertIdx_of_le_length hidx _
  have hwidth' : (nodes.insertIdx (MiniSql.internalChildIdx keys key + 1) b).length =
      (keys.insertIdx (MiniSql.internalChildIdx keys key) key).length + 1 := by
    rw [List.length_insertIdx_of_le_length (by omega)]
    omega
  refine ⟨_, keyArray', childArray', hnonfull, ?_⟩
  simp only [MiniSql.internalInsertNonfull]
  by_cases hfit : (keys.insertIdx (MiniSql.internalChildIdx keys key) key).length < order
  · refine ⟨_, if_pos (holds'.count ▸ hfit), ?_⟩
    simp only [hfit, if_true]
    exact .internal holds' hnodes'
  · obtain ⟨left, key', right', hsplit, hout⟩ :=
      holds'.split horder (by omega) hwidth' hnodes'
    refine ⟨(left, .some (key', right')), ?_, ?_⟩
    · rw [if_neg (holds'.count ▸ hfit), hsplit]
      rfl
    · simp only [hfit, if_false]
      exact hout

/-- **Insertion on the arrays stays inside them and computes what the list model computes.** -/
theorem represents_insertRec {order : ℕ} (horder : 3 ≤ order) (fresh : ℕ) (id rowIndex : ℤ)
    (n : MiniSql.Node) : ∀ {height : ℕ} {a : Node}, Balanced order height n → Represents order a n →
      ∃ outcome, insertRec order fresh id rowIndex a = .some outcome ∧
        RepresentsOutcome order outcome (MiniSql.insertRec order fresh id rowIndex n) := by
  induction n using Node.induct with
  | leaf addr entries next =>
    intro height a hbal h
    cases hbal with
    | leaf hroom =>
      cases h with
      | leaf holds => exact represents_leaf (by omega) fresh id rowIndex holds hroom
  | internal keys children ih =>
    intro height a hbal h
    cases hbal with
    | internal hroom hwidth hbelow hfilled =>
      cases h with
      | @internal numKeys keyArray childArray _ nodes _ holds hnodes =>
        have hidx := internalChildIdx_le keys id
        have hlt : MiniSql.internalChildIdx keys id < children.length := by omega
        have hlen := hnodes.length_eq
        have hscan : internalChildIdx numKeys keyArray id =
            .some (MiniSql.internalChildIdx keys id) := by
          rw [internalChildIdx, holds.count]
          exact holds.keys.scan (· ≤ id)
        have hchild := List.getElem_mem hlt
        obtain ⟨⟨c', split⟩, hrec, hout⟩ := ih _ hchild (hbelow _ hchild)
          (List.forall₂_iff_get.mp hnodes |>.2 _ (hlen ▸ hlt) hlt)
        obtain ⟨childArray', hinsert, holds'⟩ :=
          holds.insertChild (List.getElem?_eq_getElem (hlen ▸ hlt)) hrec
        rw [MiniSql.insertRec, MiniSql.insertChild_eq hlt]
        rcases hres : MiniSql.insertRec order fresh id rowIndex
          children[MiniSql.internalChildIdx keys id] with ⟨c, _ | ⟨key, right⟩⟩ <;> rw [hres] at hout
        · obtain ⟨rfl, hc⟩ := hout.none
          refine ⟨(.internal numKeys keyArray childArray', .none), ?_,
            .internal holds' (forall₂_set hnodes _ hc)⟩
          simp [insertRec, hscan, hinsert]
        · obtain ⟨b, rfl, hc, hright⟩ := hout.some
          obtain ⟨numKeys', keyArray', childArray'', hnonfull, outcome, hstep, hout'⟩ :=
            represents_internal (by omega) holds' (forall₂_set hnodes _ hc) hroom
              (by rw [List.length_set]; omega) key hright
          refine ⟨outcome, ?_, hout'⟩
          rw [← hstep]
          simp [insertRec, hscan, hinsert, hnonfull, Option.map_eq_bind]

/-! ## Sequences of insertions -/

/-- The arrays of a tree hold a tree of the list model. -/
structure BPTree.Holds (tree : BPTree) (list : MiniSql.BPTree) : Prop where
  order : tree.order = list.order
  nextAddr : tree.nextAddr = list.nextAddr
  root : Represents list.order tree.root list.root

theorem holds_bptreeCreate {order : ℕ} (h : 3 ≤ order) :
    ∃ tree, bptreeCreate order = some tree ∧ tree.Holds ⟨order, .leaf 0 [] none, 1⟩ := by
  refine ⟨_, if_neg (Nat.not_lt.mpr h), rfl, rfl, ?_⟩
  exact @Represents.leaf order (leafNew order 0) [] ⟨rfl, by simp [leafNew], by simp [leafNew],
    Block.holds_nil _, Block.holds_nil _⟩

/-- A new root over the two halves of the old one. -/
theorem represents_newRoot {order : ℕ} (horder : 0 < order) (key : ℤ) {left right : Node}
    {n m : MiniSql.Node} (hleft : Represents order left n) (hright : Represents order right m) :
    ∃ keys children₀ children, (Block.alloc order).write 0 key = some keys ∧
      (Block.alloc (order + 1)).write 0 left = some children₀ ∧
      Block.write children₀ 1 right = some children ∧
      Represents order (.internal 1 keys children) (.internal [key] [n, m]) := by
  obtain ⟨keys, hkey, hkeys, hkeySize⟩ :=
    (Block.holds_nil (Block.alloc order)).write_end (by simpa using horder) key
  obtain ⟨children₀, hchild₀, hchildren₀, hsize₀⟩ :=
    (Block.holds_nil (Block.alloc (order + 1))).write_end (by simp) left
  obtain ⟨children, hchild, hchildren, hsize⟩ :=
    hchildren₀.write_end (by rw [hsize₀]; simpa using horder) right
  refine ⟨keys, children₀, children, hkey, hchild₀, hchild, .internal
    ⟨rfl, by simpa using hkeySize, ?_, hkeys, hchildren⟩ (.cons hleft (.cons hright .nil))⟩
  rw [hsize, hsize₀, Block.length_alloc]

theorem BPTree.Holds.bptreeInsert {tree : BPTree} {list : MiniSql.BPTree} (h : tree.Holds list)
    (hsound : list.Sound) (id rowIndex : ℤ) : ∃ tree', Arrays.bptreeInsert tree id rowIndex =
      some tree' ∧ tree'.Holds (MiniSql.bptreeInsert list id rowIndex) := by
  have horder := hsound.wf.order_ge
  obtain ⟨height, hbal⟩ := hsound.balanced
  obtain ⟨⟨root, split⟩, hrec, hout⟩ :=
    represents_insertRec horder list.nextAddr id rowIndex list.root hbal h.root
  rw [← h.order, ← h.nextAddr] at hrec
  rcases hres : MiniSql.insertRec list.order list.nextAddr id rowIndex list.root with
    ⟨n, _ | ⟨key, m⟩⟩ <;> rw [hres] at hout <;> simp only [MiniSql.bptreeInsert, hres]
  · obtain ⟨rfl, hroot⟩ := hout.none
    refine ⟨{ tree with root := root, nextAddr := tree.nextAddr + 1 }, ?_, h.order, ?_, hroot⟩
    · simp [Arrays.bptreeInsert, hrec]
    · exact congrArg (· + 1) h.nextAddr
  · obtain ⟨sibling, rfl, hleft, hright⟩ := hout.some
    obtain ⟨keys, children₀, children, hkeys, hchild₀, hchild, hroot⟩ :=
      represents_newRoot (by omega) key hleft hright
    rw [← h.order] at hkeys hchild₀
    refine ⟨⟨tree.order, .internal 1 keys children, tree.nextAddr + 1⟩, ?_, h.order, ?_, hroot⟩
    · simp [Arrays.bptreeInsert, hrec, hkeys, hchild₀, hchild]
    · exact congrArg (· + 1) h.nextAddr

theorem BPTree.Holds.bptreeInsertAll {tree : BPTree} {list : MiniSql.BPTree} (h : tree.Holds list)
    (hsound : list.Sound) (pairs : List (ℤ × ℤ)) : ∃ tree', Arrays.bptreeInsertAll tree pairs =
      some tree' ∧ tree'.Holds (MiniSql.bptreeInsertAll list pairs) := by
  induction pairs generalizing tree list with
  | nil => exact ⟨tree, rfl, h⟩
  | cons p pairs ih =>
    obtain ⟨tree', hinsert, h'⟩ := h.bptreeInsert hsound p.1 p.2
    obtain ⟨tree'', hall, h''⟩ := ih h' (hsound.bptreeInsert p.1 p.2)
    refine ⟨tree'', ?_, h''⟩
    rw [Arrays.bptreeInsertAll, List.foldlM_cons, hinsert]
    exact hall

/-- **After any sequence of insertions, none of which leaves an array, the arrays hold a tree with
the representation invariant, and the `next` pointers lead through all its leaves from left to
right.** -/
theorem bptreeInsertAll_repInv {order : ℕ} (h : 3 ≤ order) (pairs : List (ℤ × ℤ)) :
    ∃ created tree list, bptreeCreate order = some created ∧
      bptreeInsertAll created pairs = some tree ∧ tree.Holds list ∧ list.order = order ∧
      (∃ height, RepInv order true height list.root) ∧
      ∀ n, (leaves list.root).length ≤ n →
        walk (leaves list.root) n (firstAddr (leaves list.root) none) = leaves list.root := by
  obtain ⟨created, hcreate, hholds⟩ := holds_bptreeCreate h
  have hsound₀ := sound_bptreeCreate (bptreeCreate_of_le h)
  obtain ⟨tree, hall, htree⟩ := hholds.bptreeInsertAll hsound₀ pairs
  have hsound := sound_bptreeInsertAll hsound₀ pairs
  have horder : (MiniSql.bptreeInsertAll ⟨order, .leaf 0 [] none, 1⟩ pairs).order = order :=
    MiniSql.bptreeInsertAll_induct (P := fun t => t.order = order)
      (fun t id rowIndex ht => by rw [← ht]; exact bptreeInsert_order t id rowIndex) rfl pairs
  obtain ⟨height, hbal⟩ := hsound.balanced
  refine ⟨created, tree, _, hcreate, hall, htree, horder, ⟨height, ?_⟩, fun n hn => ?_⟩
  · have hinv : RepInv _ true height _ := repInv_of_balanced hsound.wf.ordered hbal (by simp)
    rwa [horder] at hinv
  · exact walk_eq hsound.nodup hsound.linked (List.nil_append _).symm hn

/-- Five pairs in a tree of order 3: three leaves under a root with two keys. -/
theorem bptreeInsertAll_order_three :
    ∃ created tree list, bptreeCreate 3 = some created ∧
      bptreeInsertAll created [(4, 0), (3, 1), (2, 2), (1, 3), (5, 4)] = some tree ∧
      tree.Holds list ∧ list.order = 3 ∧ (∃ height, RepInv 3 true height list.root) ∧
      ∀ n, (leaves list.root).length ≤ n →
        walk (leaves list.root) n (firstAddr (leaves list.root) none) = leaves list.root :=
  bptreeInsertAll_repInv (by decide) _

-- a node with no room left fails the write that the code would do out of bounds
example : leafInsertSorted ⟨0, 2, [some 1, some 2], [some 0, some 1], none⟩ 3 2 = none := by
  decide

end MiniSql.Arrays
