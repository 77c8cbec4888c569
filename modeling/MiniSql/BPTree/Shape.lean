import MiniSql.BPTree

/-!
# The shape of the B+ tree

How high the subtrees are, how full the nodes are, and how the leaves are chained. An
insertion puts at most one new leaf behind the one that took the pair, and a node that splits
leaves two that are full enough.

## Main definitions

* `Balanced`, `Filled` — equal depth, room in every node, and how full a node is at least.
* `Linked` — the `next` pointers follow the order of the leaves.
* `RepInv` — the representation invariant, node by node.

## Main results

* `balanced_insertRec`, `leafInserted_insertRec` — one insertion keeps the shape and the chain.
* `BPTree.Sound.bptreeInsert` — so does `bptree_insert`.
-/

namespace MiniSql

/-! ## The child that takes the pair -/

theorem internalChildIdx_le (keys : List ℤ) (id : ℤ) : internalChildIdx keys id ≤ keys.length :=
  (List.takeWhile_sublist _).length_le

/-- `insert_rec` on a child replaces that child. -/
theorem insertChild_eq {order fresh : ℕ} {id rowIndex : ℤ} {i : ℕ} {cs : List Node}
    (h : i < cs.length) :
    insertChild order fresh id rowIndex i cs =
      (cs.set i (insertRec order fresh id rowIndex cs[i]).1,
        (insertRec order fresh id rowIndex cs[i]).2) := by
  induction cs generalizing i with
  | nil => exact absurd h (by simp)
  | cons c cs ih =>
    cases i with
    | zero => rw [insertChild]; rfl
    | succ i => rw [insertChild, ih (by simpa using h)]; rfl

/-! ## Balance -/

/-- What a node that is not the root holds at least. -/
def Filled (order : ℕ) : Node → Prop
  | .leaf _ entries _ => order / 2 ≤ entries.length
  | .internal keys _ => order - order / 2 - 1 ≤ keys.length

/-- A subtree of the given height, with room for a key in every node and every node below its
root full enough. -/
inductive Balanced (order : ℕ) : ℕ → Node → Prop
  | leaf {addr : ℕ} {entries : List (ℤ × ℤ)} {next : Option ℕ} (room : entries.length < order) :
      Balanced order 0 (.leaf addr entries next)
  | internal {height : ℕ} {keys : List ℤ} {children : List Node} (room : keys.length < order)
      (width : children.length = keys.length + 1) (below : ∀ c ∈ children, Balanced order height c)
      (filled : ∀ c ∈ children, Filled order c) : Balanced order (height + 1) (.internal keys children)

/-- The outcome of inserting into a subtree of some height: it stays balanced and does not get
emptier, or it splits into two balanced subtrees that are full enough. -/
def Grown (order height : ℕ) (before : Node) : Node × Option (ℤ × Node) → Prop
  | (n, none) => Balanced order height n ∧ (Filled order before → Filled order n)
  | (n, some (_, right)) =>
    Balanced order height n ∧ Filled order n ∧ Balanced order height right ∧ Filled order right

theorem grown_leaf {order : ℕ} (horder : 2 ≤ order) (fresh : ℕ) (id rowIndex : ℤ) {addr : ℕ}
    {entries : List (ℤ × ℤ)} {next : Option ℕ} (h : entries.length < order) :
    Grown order 0 (.leaf addr entries next)
      (insertRec order fresh id rowIndex (.leaf addr entries next)) := by
  have hle : (leafInsertSorted entries id rowIndex).length ≤ entries.length + 1 :=
    SortedAssoc.length_insert_le ..
  have hge : entries.length ≤ (leafInsertSorted entries id rowIndex).length :=
    SortedAssoc.length_le_insert ..
  rw [insertRec]
  by_cases hroom : (leafInsertSorted entries id rowIndex).length < order
  · simp only [hroom, if_true]
    exact ⟨.leaf hroom, fun hfilled => Nat.le_trans hfilled hge⟩
  · simp only [hroom, if_false, splitLeaf]
    have hleft : ((leafInsertSorted entries id rowIndex).take (order / 2)).length = order / 2 := by
      rw [List.length_take]
      omega
    have hright : ((leafInsertSorted entries id rowIndex).drop (order / 2)).length =
        order - order / 2 := by
      rw [List.length_drop]
      omega
    refine ⟨.leaf (by omega), ?_, .leaf (by omega), ?_⟩
    · exact Nat.le_of_eq hleft.symm
    · change order / 2 ≤ _
      omega

/-- The two halves of a node that holds one key too many. -/
theorem balanced_splitInternal {order height : ℕ} (horder : 3 ≤ order) {keys : List ℤ}
    {children : List Node} (hfull : keys.length = order)
    (hwidth : children.length = keys.length + 1)
    (hbelow : ∀ c ∈ children, Balanced order height c ∧ Filled order c) :
    match splitInternal order keys children with
    | (left, _, right) => Balanced order (height + 1) left ∧ Filled order left ∧
        Balanced order (height + 1) right ∧ Filled order right := by
  simp only [splitInternal]
  have hleft : (keys.take (order / 2)).length = order / 2 := by
    rw [List.length_take]
    omega
  have hright : (keys.drop (order / 2 + 1)).length = order - order / 2 - 1 := by
    rw [List.length_drop]
    omega
  refine ⟨.internal (by omega) ?_ (fun c hc => (hbelow c (List.mem_of_mem_take hc)).1)
    (fun c hc => (hbelow c (List.mem_of_mem_take hc)).2), ?_,
    .internal (by omega) ?_ (fun c hc => (hbelow c (List.mem_of_mem_drop hc)).1)
    (fun c hc => (hbelow c (List.mem_of_mem_drop hc)).2), ?_⟩
  · rw [hleft, List.length_take]
    omega
  · change order - order / 2 - 1 ≤ _
    omega
  · rw [hright, List.length_drop]
    omega
  · exact Nat.le_of_eq hright.symm

/-- A node with the child that took the pair, and with the sibling of that child if it split. -/
theorem grown_internal {order height : ℕ} (horder : 3 ≤ order) {keys : List ℤ}
    {children children' : List Node} {split : Option (ℤ × Node)} (hroom : keys.length < order)
    (hwidth : children'.length = keys.length + 1)
    (hbelow : ∀ c ∈ children', Balanced order height c ∧ Filled order c)
    (hsplit : ∀ key right, split = some (key, right) →
      Balanced order height right ∧ Filled order right) :
    Grown order (height + 1) (.internal keys children)
      (match (children', split) with
      | (children, none) => (.internal keys children, none)
      | (children, some (childKey, childSplit)) =>
        let (keys, children) := internalInsertNonfull keys children childKey childSplit
        if keys.length < order then (.internal keys children, none)
        else
          let (left, key, right) := splitInternal order keys children
          (left, some (key, right))) := by
  cases split with
  | none =>
    exact ⟨.internal hroom hwidth (fun c hc => (hbelow c hc).1) (fun c hc => (hbelow c hc).2), id⟩
  | some s =>
    obtain ⟨key, right⟩ := s
    have hright := hsplit key right rfl
    have hidx := internalChildIdx_le keys key
    have hkeys : (keys.insertIdx (internalChildIdx keys key) key).length = keys.length + 1 :=
      List.length_insertIdx_of_le_length hidx _
    have hcs : (children'.insertIdx (internalChildIdx keys key + 1) right).length =
        keys.length + 2 := by
      rw [List.length_insertIdx_of_le_length (by omega), hwidth]
    have hbelow' : ∀ c ∈ children'.insertIdx (internalChildIdx keys key + 1) right,
        Balanced order height c ∧ Filled order c := by
      intro c hc
      rcases (List.mem_insertIdx (by omega)).mp hc with rfl | hc
      · exact hright
      · exact hbelow c hc
    simp only [internalInsertNonfull]
    by_cases hfull : (keys.insertIdx (internalChildIdx keys key) key).length < order
    · simp only [hfull, if_true]
      refine ⟨.internal hfull (by omega) (fun c hc => (hbelow' c hc).1)
        (fun c hc => (hbelow' c hc).2), fun hfilled => ?_⟩
      have hfilled' : order - order / 2 - 1 ≤ keys.length := hfilled
      change order - order / 2 - 1 ≤ _
      omega
    · simp only [hfull, if_false]
      exact balanced_splitInternal horder (by omega) (by omega) hbelow'

/-- **An insertion keeps a subtree balanced.** -/
theorem balanced_insertRec {order : ℕ} (horder : 3 ≤ order) (fresh : ℕ) (id rowIndex : ℤ)
    (n : Node) : ∀ {height : ℕ}, Balanced order height n →
      Grown order height n (insertRec order fresh id rowIndex n) := by
  induction n using Node.induct with
  | leaf addr entries next =>
    intro height h
    cases h with
    | leaf hroom => exact grown_leaf (by omega) fresh id rowIndex hroom
  | internal keys children ih =>
    intro height h
    cases h with
    | internal hroom hwidth hbelow hfilled =>
      have hidx := internalChildIdx_le keys id
      have hlt : internalChildIdx keys id < children.length := by omega
      have hchild := List.getElem_mem hlt
      have hins := ih _ hchild (hbelow _ hchild)
      rw [insertRec, insertChild_eq hlt]
      refine grown_internal horder hroom (by rw [List.length_set, hwidth]) ?_ ?_
      · intro c hc
        rcases List.mem_or_eq_of_mem_set hc with hc | rfl
        · exact ⟨hbelow c hc, hfilled c hc⟩
        · rcases hres : insertRec order fresh id rowIndex children[internalChildIdx keys id] with
            ⟨c', _ | ⟨key, right⟩⟩ <;> rw [hres] at hins
          · exact ⟨hins.1, hins.2 (hfilled _ hchild)⟩
          · exact ⟨hins.1, hins.2.1⟩
      · intro key right hsplit
        rcases hres : insertRec order fresh id rowIndex children[internalChildIdx keys id] with
          ⟨c', split⟩
        rw [hres] at hins hsplit
        obtain rfl : split = some (key, right) := hsplit
        exact hins.2.2

/-! ## The chain of the leaves -/

/-- A leaf as the walk along the `next` pointers sees it. -/
abbrev Leaf := ℕ × List (ℤ × ℤ) × Option ℕ

/-- Where a pointer to the first of the leaves goes, in front of `after`. -/
def firstAddr (ls : List Leaf) (after : Option ℕ) : Option ℕ := (ls.head?.map Prod.fst).or after

/-- Every leaf points at the next one, the last one at `after`. -/
def Linked : List Leaf → Option ℕ → Prop
  | [], _ => True
  | l :: ls, after => l.2.2 = firstAddr ls after ∧ Linked ls after

/-- The numbers of the leaves. -/
abbrev addrs (ls : List Leaf) : List ℕ := ls.map Prod.fst

theorem firstAddr_append (ls ms : List Leaf) (after : Option ℕ) :
    firstAddr (ls ++ ms) after = firstAddr ls (firstAddr ms after) := by
  cases ls <;> rfl

theorem linked_append {ls ms : List Leaf} {after : Option ℕ} :
    Linked (ls ++ ms) after ↔ Linked ls (firstAddr ms after) ∧ Linked ms after := by
  induction ls with
  | nil => simp [Linked]
  | cons l ls ih => rw [List.cons_append, Linked, Linked, firstAddr_append, ih, and_assoc]

/-- What an insertion does to the leaves: one of them gets other pairs, and the new leaf
`fresh` may take a part of them. -/
def LeafInserted (fresh : ℕ) (ls ls' : List Leaf) : Prop :=
  ∃ pre post addr entries next, ls = pre ++ (addr, entries, next) :: post ∧
    ((∃ entries', ls' = pre ++ (addr, entries', next) :: post) ∨
      ∃ left right, ls' = pre ++ (addr, left, some fresh) :: (fresh, right, next) :: post)

theorem LeafInserted.append {fresh : ℕ} {ls ls' : List Leaf} (h : LeafInserted fresh ls ls')
    (before after : List Leaf) : LeafInserted fresh (before ++ ls ++ after) (before ++ ls' ++ after) := by
  obtain ⟨pre, post, addr, entries, next, rfl, ⟨entries', rfl⟩ | ⟨left, right, rfl⟩⟩ := h
  · exact ⟨before ++ pre, post ++ after, addr, entries, next, by simp, .inl ⟨entries', by simp⟩⟩
  · exact ⟨before ++ pre, post ++ after, addr, entries, next, by simp, .inr ⟨left, right, by simp⟩⟩

theorem LeafInserted.linked {fresh : ℕ} {ls ls' : List Leaf} (h : LeafInserted fresh ls ls')
    {after : Option ℕ} (hl : Linked ls after) : Linked ls' after := by
  obtain ⟨pre, post, addr, entries, next, rfl, ⟨entries', rfl⟩ | ⟨left, right, rfl⟩⟩ := h
  · obtain ⟨hpre, hnext, hpost⟩ := linked_append.mp hl
    exact linked_append.mpr ⟨hpre, hnext, hpost⟩
  · obtain ⟨hpre, hnext, hpost⟩ := linked_append.mp hl
    exact linked_append.mpr ⟨hpre, rfl, hnext, hpost⟩

theorem LeafInserted.addrs {fresh : ℕ} {ls ls' : List Leaf} (h : LeafInserted fresh ls ls')
    (hnew : fresh ∉ addrs ls) (hnodup : (addrs ls).Nodup) :
    (addrs ls').Nodup ∧ ∀ a ∈ addrs ls', a = fresh ∨ a ∈ addrs ls := by
  obtain ⟨pre, post, addr, entries, next, rfl, ⟨entries', rfl⟩ | ⟨left, right, rfl⟩⟩ := h
  · simp only [MiniSql.addrs, List.map_append, List.map_cons] at hnodup ⊢
    exact ⟨hnodup, fun a ha => .inr ha⟩
  · simp only [MiniSql.addrs, List.map_append, List.map_cons] at hnew hnodup ⊢
    have hperm : (pre.map Prod.fst ++ addr :: fresh :: post.map Prod.fst).Perm
        (fresh :: (pre.map Prod.fst ++ addr :: post.map Prod.fst)) := by
      have := @List.perm_middle _ fresh (pre.map Prod.fst ++ [addr]) (post.map Prod.fst)
      simpa using this
    refine ⟨hperm.nodup_iff.mpr (List.nodup_cons.mpr ⟨hnew, hnodup⟩), fun a ha => ?_⟩
    exact List.mem_cons.mp (hperm.mem_iff.mp ha)

theorem leavesList_eq_flatMap (cs : List Node) : leavesList cs = cs.flatMap leaves := by
  induction cs with
  | nil => rfl
  | cons c cs ih => rw [leavesList, ih, List.flatMap_cons]

/-- The leaves of what an insertion leaves behind. -/
def leavesAfter : Node × Option (ℤ × Node) → List Leaf
  | (n, none) => leaves n
  | (n, some (_, right)) => leaves n ++ leaves right

/-- The children around the one that took the pair keep their leaves. -/
theorem leavesList_split {cs : List Node} {i : ℕ} (h : i < cs.length) (c : Node) :
    leavesList (cs.set i c) = leavesList (cs.take i) ++ leaves c ++ leavesList (cs.drop (i + 1)) := by
  rw [List.set_eq_take_append_cons_drop, if_pos h]
  simp [leavesList_eq_flatMap]

theorem leavesList_insertIdx {cs : List Node} {i : ℕ} (h : i < cs.length) (c right : Node) :
    leavesList ((cs.set i c).insertIdx (i + 1) right) =
      leavesList (cs.take i) ++ (leaves c ++ leaves right) ++ leavesList (cs.drop (i + 1)) := by
  have hinsert : (cs.set i c).insertIdx (i + 1) right =
      cs.take i ++ c :: right :: cs.drop (i + 1) := by
    induction cs generalizing i with
    | nil => exact absurd h (by simp)
    | cons d cs ih =>
      cases i with
      | zero => simp
      | succ i => simpa using ih (by simpa using h)
  rw [hinsert]
  simp [leavesList_eq_flatMap]

/-- The child in charge of a key, with its range, and where a key that splits this child
belongs. -/
theorem OrderedChildren.child {id : ℤ} {hi : Option ℤ} {keys : List ℤ} :
    ∀ {lo : Option ℤ} {cs : List Node}, OrderedChildren lo hi keys cs → InRange lo hi id →
      ∃ c lo' hi', cs[internalChildIdx keys id]? = some c ∧ Ordered lo' hi' c ∧ InRange lo' hi' id ∧
        (∀ l ∈ lo, ∃ m ∈ lo', l ≤ m) ∧
        ∀ key, Between lo' hi' key → internalChildIdx keys key = internalChildIdx keys id := by
  induction keys with
  | nil =>
    intro lo cs h hid
    obtain ⟨c, rfl, hc⟩ := orderedChildren_nil.mp h
    exact ⟨c, lo, hi, rfl, hc, hid, fun l hl => ⟨l, hl, le_rfl⟩, fun key _ => rfl⟩
  | cons k ks ih =>
    intro lo cs h hid
    obtain ⟨c, cs, rfl, hk, hc, hcs⟩ := orderedChildren_cons.mp h
    rcases le_or_gt k id with hle | hlt
    · have hid' : InRange (some k) hi id := ⟨by rintro l ⟨rfl⟩; exact hle, hid.2⟩
      obtain ⟨d, lo', hi', hd, hord, hin, hlo, hkey⟩ := ih hcs hid'
      obtain ⟨m, hm, hkm⟩ := hlo k rfl
      refine ⟨d, lo', hi', ?_, hord, hin, fun l hl => ⟨m, hm, (hk.1 l hl).le.trans hkm⟩, ?_⟩
      · rw [internalChildIdx_cons_of_le hle, List.getElem?_cons_succ, hd]
      · intro key hbetween
        have hle' : k ≤ key := hkm.trans (hbetween.1 m hm).le
        rw [internalChildIdx_cons_of_le hle, internalChildIdx_cons_of_le hle', hkey key hbetween]
    · refine ⟨c, lo, some k, ?_, hc, ⟨hid.1, by rintro u ⟨rfl⟩; exact hlt⟩,
        fun l hl => ⟨l, hl, le_rfl⟩, fun key hkey => ?_⟩
      · rw [internalChildIdx_cons_of_lt hlt]
        rfl
      · rw [internalChildIdx_cons_of_lt hlt, internalChildIdx_cons_of_lt (hkey.2 k rfl)]

/-- A node that splits keeps its leaves. -/
theorem leaves_splitInternal (order : ℕ) (keys : List ℤ) (cs : List Node) :
    leaves (splitInternal order keys cs).1 ++ leaves (splitInternal order keys cs).2.2 =
      leavesList cs := by
  have hcut := List.take_append_drop (order / 2 + 1) cs
  simp only [splitInternal, leaves, leavesList_eq_flatMap]
  rw [← List.flatMap_append, hcut]

/-- **An insertion changes one leaf, and puts the new one, if any, behind it.** -/
theorem leafInserted_insertRec {order : ℕ} (horder : 2 ≤ order) (fresh : ℕ) {id rowIndex : ℤ}
    (n : Node) : ∀ {lo hi : Option ℤ}, Ordered lo hi n → InRange lo hi id →
      LeafInserted fresh (leaves n) (leavesAfter (insertRec order fresh id rowIndex n)) := by
  induction n using Node.induct with
  | leaf addr entries next =>
    intro lo hi _ _
    rw [insertRec]
    refine ⟨[], [], addr, entries, next, rfl, ?_⟩
    dsimp only
    split
    · exact .inl ⟨_, rfl⟩
    · exact .inr ⟨_, _, rfl⟩
  | internal keys children ih =>
    intro lo hi h hid
    rw [Ordered] at h
    obtain ⟨c, lo', hi', hc, hord, hin, -, hkey⟩ := h.child hid
    obtain ⟨hlt, hget⟩ := List.getElem?_eq_some_iff.mp hc
    have hsplit := leavesList_split hlt c
    rw [← hget, List.set_getElem_self, hget] at hsplit
    have hins := (ih c (hget ▸ List.getElem_mem hlt) hord hin).append
      (leavesList (children.take (internalChildIdx keys id)))
      (leavesList (children.drop (internalChildIdx keys id + 1)))
    rw [← hsplit] at hins
    have hbetween := @inserted_insertRec order fresh horder id rowIndex c lo' hi' hord hin
    rw [leaves, insertRec, insertChild_eq hlt, hget]
    rcases hres : insertRec order fresh id rowIndex c with ⟨c', _ | ⟨key, right⟩⟩ <;>
      rw [hres] at hins hbetween
    · change LeafInserted fresh _ (leavesList (children.set _ c'))
      rwa [leavesList_split hlt]
    · dsimp only
      rw [leavesAfter, ← leavesList_insertIdx hlt] at hins
      simp only [internalInsertNonfull, hkey key hbetween.1]
      by_cases hroom : (keys.insertIdx (internalChildIdx keys id) key).length < order
      · rw [if_pos hroom]
        exact hins
      · rw [if_neg hroom, leavesAfter, leaves_splitInternal]
        exact hins

/-! ## The whole tree -/

/-- A tree that was made by `bptree_create` and `bptree_insert`: ordered, balanced, and with
its leaves chained from left to right. -/
structure BPTree.Sound (tree : BPTree) : Prop where
  wf : tree.Wf
  balanced : ∃ height, Balanced tree.order height tree.root
  linked : Linked (leaves tree.root) none
  nodup : (addrs (leaves tree.root)).Nodup
  fresh : ∀ a ∈ addrs (leaves tree.root), a < tree.nextAddr

theorem sound_bptreeCreate {order : ℕ} {tree : BPTree} (h : bptreeCreate order = some tree) :
    tree.Sound := by
  obtain ⟨hwf, -⟩ := wf_bptreeCreate h
  have horder := hwf.order_ge
  unfold bptreeCreate at h
  split_ifs at h
  obtain rfl := Option.some.inj h
  refine ⟨hwf, ⟨0, .leaf ?_⟩, ⟨rfl, trivial⟩, by simp [leaves], by simp [leaves]⟩
  change 3 ≤ order at horder
  change 0 < order
  omega

theorem BPTree.Sound.bptreeInsert {tree : BPTree} (h : tree.Sound) (id rowIndex : ℤ) :
    (bptreeInsert tree id rowIndex).Sound := by
  have horder := h.wf.order_ge
  have hwf := (wf_bptreeInsert h.wf id rowIndex).1
  obtain ⟨height, hbal⟩ := h.balanced
  have hgrown := balanced_insertRec horder tree.nextAddr id rowIndex tree.root hbal
  have hins := @leafInserted_insertRec tree.order (by omega) tree.nextAddr id rowIndex tree.root
    none none h.wf.ordered (inRange_none id)
  have hnew : tree.nextAddr ∉ addrs (leaves tree.root) := fun hmem =>
    Nat.lt_irrefl _ (h.fresh _ hmem)
  have hlinked := hins.linked h.linked
  obtain ⟨hnodup, haddrs⟩ := hins.addrs hnew h.nodup
  have hfresh : ∀ a ∈ addrs (leavesAfter (insertRec tree.order tree.nextAddr id rowIndex tree.root)),
      a < tree.nextAddr + 1 := by
    intro a ha
    rcases haddrs a ha with rfl | ha
    · exact Nat.lt_succ_self _
    · exact Nat.lt_succ_of_lt (h.fresh a ha)
  unfold MiniSql.bptreeInsert at hwf ⊢
  rcases hres : insertRec tree.order tree.nextAddr id rowIndex tree.root with
    ⟨root, _ | ⟨key, sibling⟩⟩ <;> rw [hres] at hgrown hlinked hnodup hfresh hwf
  · exact ⟨hwf, ⟨height, hgrown.1⟩, hlinked, hnodup, hfresh⟩
  · have hleaves : leaves (.internal [key] [root, sibling]) = leaves root ++ leaves sibling := by
      simp [leaves, leavesList]
    obtain ⟨hroot, hfilled, hsib, hfilled'⟩ := hgrown
    refine ⟨hwf, ⟨height + 1, .internal (by simp; omega) rfl ?_ ?_⟩, ?_, ?_, ?_⟩
    · simp [hroot, hsib]
    · simp [hfilled, hfilled']
    · rw [hleaves]
      exact hlinked
    · rw [hleaves]
      exact hnodup
    · rw [hleaves]
      exact hfresh

theorem sound_bptreeInsertAll {tree : BPTree} (h : tree.Sound) (pairs : List (ℤ × ℤ)) :
    (bptreeInsertAll tree pairs).Sound :=
  bptreeInsertAll_induct (P := BPTree.Sound) (fun _ id rowIndex h => h.bptreeInsert id rowIndex) h
    pairs

/-! ## Walking along the leaves -/

/-- The leaf under a number is found by the number. -/
theorem lookup_leaf {ls pre post : List Leaf} {l : Leaf} (hnodup : (addrs ls).Nodup)
    (h : ls = pre ++ l :: post) : ls.lookup l.1 = some l.2 := by
  subst h
  have hnotin : l.1 ∉ addrs pre := by
    intro hmem
    simp only [addrs, List.map_append, List.map_cons, List.nodup_append] at hnodup
    exact hnodup.2.2 _ hmem _ (by simp) rfl
  have hpre : pre.lookup l.1 = none := by
    rw [List.lookup_eq_none_iff]
    intro x hx
    have hne : l.1 ≠ x.1 := fun heq => hnotin (heq ▸ List.mem_map_of_mem hx)
    simpa using hne
  rw [List.lookup_append, hpre, Option.none_or]
  exact List.lookup_cons_self

/-- The leaves that are reached from a pointer, in the order in which they are reached. -/
def walk (ls : List Leaf) : ℕ → Option ℕ → List Leaf
  | 0, _ => []
  | n + 1, pointer =>
    match pointer.bind fun addr => (ls.lookup addr).map (addr, ·) with
    | none => []
    | some l => l :: walk ls n l.2.2

/-- From the first of some leaves at the end, the walk visits exactly these and stops. -/
theorem walk_eq {ls pre post : List Leaf} (hnodup : (addrs ls).Nodup) (hlinked : Linked ls none)
    (h : ls = pre ++ post) {n : ℕ} (hn : post.length ≤ n) :
    walk ls n (firstAddr post none) = post := by
  induction post generalizing pre n with
  | nil => cases n <;> rfl
  | cons l post ih =>
    obtain ⟨n, rfl⟩ : ∃ m, n = m + 1 := ⟨n - 1, by simp at hn; omega⟩
    have hnext : l.2.2 = firstAddr post none := by
      rw [h, linked_append] at hlinked
      exact hlinked.2.1
    have hsplit : ls = (pre ++ [l]) ++ post := by simp [h]
    have hrest : walk ls n (firstAddr post none) = post := ih hsplit (by simpa using hn)
    have hfind : ((firstAddr (l :: post) none).bind fun addr => (ls.lookup addr).map (addr, ·)) =
        some l := by
      simp [firstAddr, lookup_leaf hnodup h]
    rw [walk, hfind]
    dsimp only
    rw [hnext, hrest]

/-! ## The representation invariant -/

mutual

/-- All keys of a subtree, those of its inner nodes included. -/
def allKeys : Node → List ℤ
  | .leaf _ entries _ => entries.map Prod.fst
  | .internal keys children => keys ++ allKeysList children

def allKeysList : List Node → List ℤ
  | [] => []
  | c :: cs => allKeys c ++ allKeysList cs

end

/-- The invariant of a subtree of the given height, node by node. `isRoot` frees the root of the
whole tree from holding enough. -/
inductive RepInv (order : ℕ) : Bool → ℕ → Node → Prop
  | leaf {isRoot : Bool} {addr : ℕ} {entries : List (ℤ × ℤ)} {next : Option ℕ}
      (increasing : (entries.map Prod.fst).Pairwise (· < ·))
      (atMost : entries.length ≤ order - 1)
      (atLeast : isRoot = false → order / 2 ≤ entries.length) :
      RepInv order isRoot 0 (.leaf addr entries next)
  | internal {isRoot : Bool} {height : ℕ} {keys : List ℤ} {children : List Node}
      (increasing : keys.Pairwise (· < ·))
      (width : children.length = keys.length + 1)
      (atMost : keys.length ≤ order - 1)
      (atLeast : isRoot = false → order - order / 2 - 1 ≤ keys.length)
      (below : ∀ c ∈ children, RepInv order false height c)
      (ranges : ∀ (i : ℕ) (c : Node), children[i]? = some c → ∀ k ∈ allKeys c,
        (∀ l, 0 < i → keys[i - 1]? = some l → l ≤ k) ∧ ∀ u, keys[i]? = some u → k < u) :
      RepInv order isRoot (height + 1) (.internal keys children)

theorem Between.inRange {lo hi : Option ℤ} {k : ℤ} (h : Between lo hi k) : InRange lo hi k :=
  ⟨fun l hl => (h.1 l hl).le, h.2⟩

/-- The separators of a node increase and lie inside its range. -/
theorem OrderedChildren.keys {hi : Option ℤ} {keys : List ℤ} : ∀ {lo : Option ℤ} {cs : List Node},
    OrderedChildren lo hi keys cs → keys.Pairwise (· < ·) ∧ ∀ k ∈ keys, Between lo hi k := by
  induction keys with
  | nil => exact fun _ => ⟨List.Pairwise.nil, by simp⟩
  | cons k ks ih =>
    intro lo cs h
    obtain ⟨c, cs, rfl, hk, -, hcs⟩ := orderedChildren_cons.mp h
    obtain ⟨hincreasing, hbetween⟩ := ih hcs
    refine ⟨List.pairwise_cons.mpr ⟨fun k' hk' => (hbetween k' hk').1 k rfl, hincreasing⟩, ?_⟩
    intro k' hk'
    rcases List.mem_cons.mp hk' with rfl | hk'
    · exact hk
    · exact ⟨fun l hl => (hk.1 l hl).trans ((hbetween k' hk').1 k rfl), (hbetween k' hk').2⟩

/-- The range of the child with a given number. -/
theorem OrderedChildren.getElem? {hi : Option ℤ} {keys : List ℤ} {i : ℕ} {c : Node} :
    ∀ {lo : Option ℤ} {cs : List Node}, OrderedChildren lo hi keys cs → cs[i]? = some c →
      Ordered (if i = 0 then lo else keys[i - 1]?) ((keys[i]?).or hi) c := by
  induction keys generalizing i with
  | nil =>
    intro lo cs h hc
    obtain ⟨d, rfl, hd⟩ := orderedChildren_nil.mp h
    cases i with
    | zero =>
      obtain rfl : d = c := by simpa using hc
      simpa using hd
    | succ i => exact absurd hc (by simp)
  | cons k ks ih =>
    intro lo cs h hc
    obtain ⟨d, cs, rfl, -, hd, hcs⟩ := orderedChildren_cons.mp h
    cases i with
    | zero =>
      obtain rfl : d = c := by simpa using hc
      simpa using hd
    | succ i =>
      have hord := ih hcs (by simpa using hc)
      cases i <;> simpa using hord

theorem OrderedChildren.length {hi : Option ℤ} {keys : List ℤ} : ∀ {lo : Option ℤ} {cs : List Node},
    OrderedChildren lo hi keys cs → cs.length = keys.length + 1 := by
  induction keys with
  | nil =>
    intro lo cs h
    obtain ⟨c, rfl, -⟩ := orderedChildren_nil.mp h
    rfl
  | cons k ks ih =>
    intro lo cs h
    obtain ⟨c, cs, rfl, -, -, hcs⟩ := orderedChildren_cons.mp h
    rw [List.length_cons, List.length_cons, ih hcs]

theorem mem_allKeysList {cs : List Node} {k : ℤ} :
    k ∈ allKeysList cs ↔ ∃ c ∈ cs, k ∈ allKeys c := by
  induction cs with
  | nil => simp [allKeysList]
  | cons c cs ih => simp [allKeysList, ih]

/-- Every key of a subtree lies in its range. -/
theorem Ordered.allKeys {n : Node} : ∀ {lo hi : Option ℤ}, Ordered lo hi n →
    ∀ k ∈ allKeys n, InRange lo hi k := by
  induction n using Node.induct with
  | leaf addr entries next =>
    intro lo hi h k hk
    rw [Ordered] at h
    rw [MiniSql.allKeys] at hk
    obtain ⟨e, he, rfl⟩ := List.mem_map.mp hk
    exact h.2 e he
  | internal keys children ih =>
    intro lo hi h k hk
    rw [Ordered] at h
    rw [MiniSql.allKeys, List.mem_append, mem_allKeysList] at hk
    rcases hk with hk | ⟨c, hc, hk⟩
    · exact (h.keys.2 k hk).inRange
    · obtain ⟨i, hi', rfl⟩ := List.getElem_of_mem hc
      have hord := h.getElem? (List.getElem?_eq_getElem hi')
      have hrange := ih _ hc hord k hk
      -- the range of the child lies inside that of the node
      refine hrange.mono (fun l hl => ?_) fun u hu => ?_
      · by_cases hzero : i = 0
        · exact ⟨l, by rwa [if_pos hzero], le_rfl⟩
        · have hlt : i - 1 < keys.length := by
            have := h.length
            omega
          refine ⟨keys[i - 1], by rw [if_neg hzero, List.getElem?_eq_getElem hlt]; rfl, ?_⟩
          exact ((h.keys.2 _ (List.getElem_mem hlt)).1 l hl).le
      · cases hkey : keys[i]? with
        | none => exact ⟨u, by simpa [hkey] using hu, le_rfl⟩
        | some u' =>
          exact ⟨u', by simp, ((h.keys.2 u' (List.mem_of_getElem? hkey)).2 u hu).le⟩

theorem repInv_of_balanced {order : ℕ} {n : Node} : ∀ {lo hi : Option ℤ} {height : ℕ} {isRoot : Bool},
    Ordered lo hi n → Balanced order height n → (isRoot = false → Filled order n) →
      RepInv order isRoot height n := by
  induction n using Node.induct with
  | leaf addr entries next =>
    intro lo hi height isRoot h hbal hfilled
    rw [Ordered] at h
    cases hbal with
    | leaf hroom => exact .leaf (List.pairwise_map.mpr h.1) (by omega) hfilled
  | internal keys children ih =>
    intro lo hi height isRoot h hbal hfilled
    rw [Ordered] at h
    cases hbal with
    | internal hroom hwidth hbelow hfull =>
      refine .internal h.keys.1 hwidth (by omega) hfilled (fun c hc => ?_) fun i c hc k hk => ?_
      · obtain ⟨i, hi', rfl⟩ := List.getElem_of_mem hc
        exact ih _ hc (h.getElem? (List.getElem?_eq_getElem hi')) (hbelow _ hc) fun _ => hfull _ hc
      · have hrange := (h.getElem? hc).allKeys k hk
        refine ⟨fun l hpos hl => hrange.1 l ?_, fun u hu => hrange.2 u ?_⟩
        · rw [if_neg (Nat.pos_iff_ne_zero.mp hpos), hl]
          rfl
        · rw [hu]
          rfl

end MiniSql
