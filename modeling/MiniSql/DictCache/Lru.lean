import Mathlib.Data.List.ReduceOption
import MiniSql.DictCache
import MiniSql.Lib.Lru

/-!
# The dictionary cache forgets what was not used for longest

The slots of the cache stand for a map of the same size: its entries are those of the slots, in
the order of the times of their last use. Times are taken from a clock that goes on with each use,
so no two are equal and a new one is the latest.

## Main definitions

* `CacheCall` — a call of the cache with a key that is not empty.
* `DictCache.Represents` — the slots stand for the map.

## Main results

* `DictCache.slotForPut_full`, `DictCache.slotForPut_room` — the slot that a new key gets.
* `DictCache.Represents.exec` — what one call keeps.
* `DictCache.run_represents` — runs of calls.
-/

namespace MiniSql

variable {β : Type*}

/-- A call of the cache. -/
inductive CacheCall (β : Type*)
  | get (key : { key : CText.CStr // key ≠ [] })
  | put (key : { key : CText.CStr // key ≠ [] }) (json : β)
  | invalidate (key : { key : CText.CStr // key ≠ [] })
  | invalidateAll

namespace CacheCall

def isGet : CacheCall β → Bool
  | .get _ => true
  | _ => false

/-- What a call returns, and the map behind it. -/
def execLru (m : Lru CText.CStr β) : CacheCall β → Option β × Lru CText.CStr β
  | .get key => m.get key.1
  | .put key json => (none, m.put key.1 json)
  | .invalidate key => (none, m.erase key.1)
  | .invalidateAll => (none, m.clear)

/-- What the calls return, and the state behind them. -/
def runCalls {State : Type*} (exec : State → CacheCall β → Option β × State) :
    State → List (CacheCall β) → List (Option β) × State
  | s, [] => ([], s)
  | s, call :: calls =>
    let (answer, s) := exec s call
    let (answers, s) := runCalls exec s calls
    (answer :: answers, s)

end CacheCall

namespace DictCache

/-- What a call returns, and the cache behind it. -/
def exec (c : DictCache β) : CacheCall β → Option β × DictCache β
  | .get key => c.get key.1
  | .put key json => (none, c.put key.1 json)
  | .invalidate key => (none, c.invalidate key.1)
  | .invalidateAll => (none, c.invalidateAll)

/-! ## The slot that a new key gets -/

/-- The search ends at the first free slot. -/
theorem slotLoop_free {slots : List (Option (DictCacheEntry β))} (h : none ∈ slots)
    (i oldest oldestUsed : ℕ) :
    ∃ j, slotLoop slots i oldest oldestUsed = i + j ∧ slots[j]? = some none := by
  induction slots generalizing i oldest oldestUsed with
  | nil => exact absurd h (by simp)
  | cons slot slots ih =>
    cases slot with
    | none => exact ⟨0, rfl, rfl⟩
    | some e =>
      have hrest : none ∈ slots := by simpa using h
      rw [slotLoop]
      split
      · obtain ⟨j, hj, hslot⟩ := ih hrest (i + 1) i e.lastUsed
        exact ⟨j + 1, by omega, hslot⟩
      · obtain ⟨j, hj, hslot⟩ := ih hrest (i + 1) oldest oldestUsed
        exact ⟨j + 1, by omega, hslot⟩

/-- Without a free slot the search ends at the earliest time. -/
theorem slotLoop_full {slots : List (Option (DictCacheEntry β))} (h : none ∉ slots)
    (i oldest oldestUsed : ℕ) :
    (slotLoop slots i oldest oldestUsed = oldest ∧ ∀ e, some e ∈ slots → oldestUsed ≤ e.lastUsed) ∨
      ∃ j e, slotLoop slots i oldest oldestUsed = i + j ∧ slots[j]? = some (some e) ∧
        e.lastUsed < oldestUsed ∧ ∀ e', some e' ∈ slots → e.lastUsed ≤ e'.lastUsed := by
  induction slots generalizing i oldest oldestUsed with
  | nil => exact .inl ⟨rfl, by simp⟩
  | cons slot slots ih =>
    cases slot with
    | none => exact absurd h (by simp)
    | some e =>
      have hrest : none ∉ slots := fun hmem => h (by simp [hmem])
      rw [slotLoop]
      split
      · rename_i hlt
        right
        rcases ih hrest (i + 1) i e.lastUsed with ⟨hres, hmin⟩ | ⟨j, e', hres, hslot, hless, hmin⟩
        · refine ⟨0, e, hres, rfl, hlt, fun e' he' => ?_⟩
          rcases List.mem_cons.mp he' with heq | hmem
          · rw [Option.some.inj heq]
          · exact hmin e' hmem
        · refine ⟨j + 1, e', by omega, hslot, by omega, fun e'' he'' => ?_⟩
          rcases List.mem_cons.mp he'' with heq | hmem
          · obtain rfl := Option.some.inj heq
            omega
          · exact hmin e'' hmem
      · rename_i hge
        rcases ih hrest (i + 1) oldest oldestUsed with ⟨hres, hmin⟩ | ⟨j, e', hres, hslot, hless, hmin⟩
        · refine .inl ⟨hres, fun e' he' => ?_⟩
          rcases List.mem_cons.mp he' with heq | hmem
          · obtain rfl := Option.some.inj heq
            omega
          · exact hmin e' hmem
        · refine .inr ⟨j + 1, e', by omega, hslot, hless, fun e'' he'' => ?_⟩
          rcases List.mem_cons.mp he'' with heq | hmem
          · obtain rfl := Option.some.inj heq
            omega
          · exact hmin e'' hmem

/-- A new key gets a free slot where there is one. -/
theorem slotForPut_room {c : DictCache β} (h : none ∈ c.entries) :
    c.entries[c.slotForPut]? = some none := by
  obtain ⟨j, hj, hslot⟩ := slotLoop_free h 0 0 (c.usedAt 0)
  rw [slotForPut, hj, Nat.zero_add]
  exact hslot

/-- In a full cache a new key gets the slot that was not used for longest. -/
theorem slotForPut_full {c : DictCache β} (h : none ∉ c.entries) :
    ∃ e, c.entries[c.slotForPut]? = some (some e) ∧
      ∀ e', some e' ∈ c.entries → e.lastUsed ≤ e'.lastUsed := by
  rcases slotLoop_full h 0 0 (c.usedAt 0) with ⟨hres, hmin⟩ | ⟨j, e, hres, hslot, -, hmin⟩
  · -- no time is before that of the first slot
    have hlt := c.capacity_pos
    cases hfirst : c.entries[0] with
    | none => exact absurd (hfirst ▸ List.getElem_mem hlt) h
    | some e =>
      have hslot : c.entries[0]? = some (some e) := by rw [List.getElem?_eq_getElem hlt, hfirst]
      have hused : c.usedAt 0 = e.lastUsed := by
        rw [usedAt, hslot]
        rfl
      refine ⟨e, ?_, fun e' he' => hused ▸ hmin e' he'⟩
      rw [slotForPut, hres]
      exact hslot
  · refine ⟨e, ?_, hmin⟩
    rw [slotForPut, hres, Nat.zero_add]
    exact hslot

/-! ## The order of use -/

/-- The slots stand for the map: its entries are theirs, the last used one first. -/
structure Represents (c : DictCache β) (m : Lru CText.CStr β) : Prop where
  capacity : m.capacity = c.entries.length
  entries : ∃ es : List (DictCacheEntry β), es.Perm c.entries.reduceOption ∧
    es.Pairwise (fun e e' => e'.lastUsed < e.lastUsed) ∧ (∀ e ∈ es, e.lastUsed ≤ c.clock) ∧
    m.entries = es.map fun e => (e.key, e.json)

/-- What a new slot does to the entries. -/
theorem perm_reduceOption_set {α : Type*} {l : List (Option α)} {i : ℕ} {slot : Option α}
    (h : l[i]? = some slot) : ∃ others, l.reduceOption.Perm (slot.toList ++ others) ∧
      ∀ slot', (l.set i slot').reduceOption.Perm (slot'.toList ++ others) := by
  obtain ⟨hlt, hget⟩ := List.getElem?_eq_some_iff.mp h
  have hmiddle : ∀ (a b : List (Option α)) (s : Option α),
      (a ++ s :: b).reduceOption.Perm (s.toList ++ (a.reduceOption ++ b.reduceOption)) := by
    intro a b s
    rw [List.reduceOption_append]
    cases s with
    | none => exact List.Perm.refl _
    | some x => exact List.perm_middle
  refine ⟨(l.take i).reduceOption ++ (l.drop (i + 1)).reduceOption, ?_, fun slot' => ?_⟩
  · have hsplit : l.take i ++ slot :: l.drop (i + 1) = l := by
      rw [← hget, List.getElem_cons_drop, List.take_append_drop]
    have hperm := hmiddle (l.take i) (l.drop (i + 1)) slot
    rwa [hsplit] at hperm
  · rw [List.set_eq_take_append_cons_drop, if_pos hlt]
    exact hmiddle _ _ _

namespace Represents

variable {c : DictCache β} {m : Lru CText.CStr β}

/-- A key is in a slot when the map has it. -/
theorem mem_iff {es : List (DictCacheEntry β)} (hperm : es.Perm c.entries.reduceOption)
    (hentries : m.entries = es.map fun e => (e.key, e.json)) (k : CText.CStr) :
    k ∈ m.entries.map Prod.fst ↔ ∃ i, c.find k = some i := by
  rw [hentries, List.map_map, List.mem_map]
  constructor
  · rintro ⟨e, he, rfl⟩
    obtain ⟨i, hslot⟩ := List.mem_iff_getElem?.mp (List.reduceOption_mem_iff.mp (hperm.mem_iff.mp he))
    exact ⟨i, find_eq_some.mpr ⟨e, hslot, rfl⟩⟩
  · rintro ⟨i, hfind⟩
    obtain ⟨e, hslot, hkey⟩ := find_eq_some.mp hfind
    exact ⟨e, hperm.mem_iff.mpr (List.reduceOption_mem_iff.mpr (List.mem_of_getElem? hslot)), hkey⟩

/-- What the cache holds for a key is what the map has. -/
theorem lookup_eq (h : Represents c m) (k : CText.CStr) : m.lookup k = c.lookup k := by
  obtain ⟨es, hperm, -, -, hentries⟩ := h.entries
  ext b
  rw [lookup_eq_some]
  constructor
  · intro hb
    obtain ⟨p, hfind, hsnd⟩ := Option.map_eq_some_iff.mp hb
    have hmem := List.mem_of_find?_eq_some hfind
    rw [hentries] at hmem
    obtain ⟨e, he, rfl⟩ := List.mem_map.mp hmem
    obtain ⟨i, hslot⟩ := List.mem_iff_getElem?.mp (List.reduceOption_mem_iff.mp (hperm.mem_iff.mp he))
    exact ⟨i, e, hslot, by simpa using List.find?_some hfind, hsnd⟩
  · rintro ⟨i, e, hslot, rfl, rfl⟩
    have he : e ∈ es := hperm.mem_iff.mpr (List.reduceOption_mem_iff.mpr (List.mem_of_getElem? hslot))
    have hmem : (e.key, e.json) ∈ m.entries := hentries ▸ List.mem_map.mpr ⟨e, he, rfl⟩
    exact Lru.lookup_of_mem hmem

/-- The entries of the other keys stand for the other slots. -/
theorem others_perm {es others : List (DictCacheEntry β)} {e : DictCacheEntry β}
    (hperm : es.Perm (e :: others)) (hnodup : (es.map (·.key)).Nodup) :
    (es.filter fun e' => e'.key ≠ e.key).Perm others := by
  have hkeys := (hperm.map (·.key)).nodup_iff.mp hnodup
  rw [List.map_cons, List.nodup_cons] at hkeys
  have hothers : (others.filter fun e' => e'.key ≠ e.key) = others := by
    refine List.filter_eq_self.mpr fun e' he' => ?_
    have hne : e'.key ≠ e.key := fun heq => hkeys.1 (heq ▸ List.mem_map_of_mem he')
    simpa using hne
  have hfilter := hperm.filter fun e' => e'.key ≠ e.key
  rwa [List.filter_cons_of_neg (by simp), hothers] at hfilter

/-- The entry of a slot with the new time comes before those that are kept. -/
theorem of_cons {c' : DictCache β} {m' : Lru CText.CStr β} {es kept : List (DictCacheEntry β)}
    (k : CText.CStr) (b : β) (hcap : m'.capacity = c'.entries.length)
    (horder : es.Pairwise fun e e' => e'.lastUsed < e.lastUsed)
    (hclock : ∀ e ∈ es, e.lastUsed ≤ c.clock) (hclock' : c'.clock = c.clock + 1)
    (hkept : kept.Sublist es) (hperm : c'.entries.reduceOption.Perm (⟨k, b, c.clock + 1⟩ :: kept))
    (hentries : m'.entries = (k, b) :: kept.map fun e => (e.key, e.json)) : Represents c' m' := by
  have hlt : ∀ e ∈ kept, e.lastUsed < c.clock + 1 := by
    intro e he
    have := hclock e (hkept.subset he)
    omega
  refine ⟨hcap, ⟨k, b, c.clock + 1⟩ :: kept, hperm.symm, ?_, ?_, hentries⟩
  · exact List.pairwise_cons.mpr ⟨hlt, horder.sublist hkept⟩
  · intro e he
    rw [hclock']
    rcases List.mem_cons.mp he with rfl | hmem
    · exact Nat.le_refl _
    · exact Nat.le_of_lt (hlt e hmem)

/-- A slot of the key is used. -/
theorem use (h : Represents c m) {c' : DictCache β} {i : ℕ} {e : DictCacheEntry β} {b : β}
    (hslot : c.entries[i]? = some (some e))
    (hset : c'.entries = c.entries.set i (some ⟨e.key, b, c.clock + 1⟩))
    (hclock' : c'.clock = c.clock + 1) : Represents c' (m.put e.key b) := by
  obtain ⟨es, hperm, horder, hclock, hentries⟩ := h.entries
  obtain ⟨others, hold, hnew⟩ := perm_reduceOption_set hslot
  have hnodup : (es.map (·.key)).Nodup := by
    have hkeys := m.nodup
    rwa [hentries, List.map_map] at hkeys
  have hothers : (es.filter fun e' => e'.key ≠ e.key).Perm others :=
    others_perm (hperm.trans hold) hnodup
  have hsub : (es.filter fun e' => e'.key ≠ e.key).Sublist es := List.filter_sublist
  refine of_cons e.key b ?_ horder hclock hclock' hsub ?_ ?_
  · rw [hset, List.length_set]
    exact h.capacity
  · rw [hset]
    exact (hnew _).trans (hothers.symm.cons _)
  · rw [Lru.put_of_mem ((mem_iff hperm hentries e.key).mpr ⟨i, find_eq_some.mpr ⟨e, hslot, rfl⟩⟩),
      hentries, Lru.without, List.filter_map]
    rfl

/-- A new key gets a free slot. -/
theorem insert_room (h : Represents c m) {c' : DictCache β} {i : ℕ} {k : CText.CStr} {b : β}
    (hk : c.find k = none) (hslot : c.entries[i]? = some none)
    (hset : c'.entries = c.entries.set i (some ⟨k, b, c.clock + 1⟩))
    (hclock' : c'.clock = c.clock + 1) : Represents c' (m.put k b) := by
  obtain ⟨es, hperm, horder, hclock, hentries⟩ := h.entries
  obtain ⟨others, hold, hnew⟩ := perm_reduceOption_set hslot
  have hroom : m.entries.length < m.capacity := by
    rw [hentries, List.length_map, hperm.length_eq, h.capacity]
    exact List.reduceOption_length_lt_iff.mpr (List.mem_of_getElem? hslot)
  have habsent : k ∉ m.entries.map Prod.fst := by
    rw [mem_iff hperm hentries, hk]
    simp
  refine of_cons k b ?_ horder hclock hclock' (List.Sublist.refl es) ?_ ?_
  · rw [hset, List.length_set]
    exact h.capacity
  · rw [hset]
    exact (hnew _).trans ((hperm.trans hold).symm.cons _)
  · rw [Lru.put_of_room habsent hroom, hentries]

/-- In a full cache a new key gets the slot that was not used for longest. -/
theorem insert_full (h : Represents c m) {c' : DictCache β} {i : ℕ} {e : DictCacheEntry β}
    {k : CText.CStr} {b : β} (hk : c.find k = none) (hfull : none ∉ c.entries)
    (hslot : c.entries[i]? = some (some e))
    (hmin : ∀ e', some e' ∈ c.entries → e.lastUsed ≤ e'.lastUsed)
    (hset : c'.entries = c.entries.set i (some ⟨k, b, c.clock + 1⟩))
    (hclock' : c'.clock = c.clock + 1) : Represents c' (m.put k b) := by
  obtain ⟨es, hperm, horder, hclock, hentries⟩ := h.entries
  obtain ⟨others, hold, hnew⟩ := perm_reduceOption_set hslot
  have hmem : ∀ e', e' ∈ es ↔ some e' ∈ c.entries := by
    intro e'
    rw [hperm.mem_iff, List.reduceOption_mem_iff]
  have he : e ∈ es := (hmem e).mpr (List.mem_of_getElem? hslot)
  have hlen : m.entries.length = m.capacity := by
    rw [hentries, List.length_map, hperm.length_eq, h.capacity]
    refine List.reduceOption_length_eq_iff.mpr fun slot hin => ?_
    cases slot with
    | none => exact absurd hin hfull
    | some _ => rfl
  have habsent : k ∉ m.entries.map Prod.fst := by
    rw [mem_iff hperm hentries, hk]
    simp
  -- the entry with the earliest time is the last one
  have hlast : es.dropLast ++ [e] = es := by
    have hsplit := List.dropLast_concat_getLast (List.ne_nil_of_mem he)
    have hpair := horder
    rw [← hsplit, List.pairwise_append] at hpair
    rw [← hsplit] at he
    rcases List.mem_append.mp he with hin | hin
    · have hlt := hpair.2.2 e hin _ (List.mem_singleton_self _)
      have hge := hmin _ ((hmem _).mp (List.getLast_mem (List.ne_nil_of_mem ((hmem e).mpr
        (List.mem_of_getElem? hslot)))))
      omega
    · rw [List.mem_singleton.mp hin]
      exact hsplit
  have hothers : es.dropLast.Perm others := by
    have hcons : (e :: es.dropLast).Perm (e :: others) := by
      refine List.Perm.trans ?_ (hperm.trans hold)
      rw [← hlast, List.dropLast_concat]
      exact (List.perm_append_singleton e _).symm
    exact hcons.cons_inv
  refine of_cons k b ?_ horder hclock hclock' (List.dropLast_sublist es) ?_ ?_
  · rw [hset, List.length_set]
    exact h.capacity
  · rw [hset]
    exact (hnew _).trans (hothers.symm.cons _)
  · rw [Lru.put_of_full habsent hlen, hentries, List.map_dropLast]

/-- The slot of a key is freed. -/
theorem erase (h : Represents c m) {c' : DictCache β} {i : ℕ} {e : DictCacheEntry β}
    (hslot : c.entries[i]? = some (some e)) (hset : c'.entries = c.entries.set i none)
    (hclock' : c'.clock = c.clock) : Represents c' (m.erase e.key) := by
  obtain ⟨es, hperm, horder, hclock, hentries⟩ := h.entries
  obtain ⟨others, hold, hnew⟩ := perm_reduceOption_set hslot
  have hnodup : (es.map (·.key)).Nodup := by
    have hkeys := m.nodup
    rwa [hentries, List.map_map] at hkeys
  have hothers : (es.filter fun e' => e'.key ≠ e.key).Perm others :=
    others_perm (hperm.trans hold) hnodup
  refine ⟨?_, es.filter fun e' => e'.key ≠ e.key, ?_, horder.sublist List.filter_sublist, ?_, ?_⟩
  · rw [hset, List.length_set]
    exact h.capacity
  · rw [hset]
    exact hothers.trans (hnew none).symm
  · intro e' he'
    rw [hclock']
    exact hclock e' (List.mem_of_mem_filter he')
  · change Lru.without m.entries e.key = _
    rw [hentries, Lru.without, List.filter_map]
    rfl

/-! ## The calls -/

theorem get (h : Represents c m) {k : CText.CStr} (hk : k ≠ []) :
    (c.get k).1 = (m.get k).1 ∧ Represents (c.get k).2 (m.get k).2 := by
  refine ⟨by rw [(lookup_get hk).1, Lru.get_fst, h.lookup_eq], ?_⟩
  unfold DictCache.get Lru.get
  rw [if_neg hk, h.lookup_eq]
  cases hfind : c.find k with
  | none =>
    rw [lookup_eq_none.mpr hfind]
    exact ⟨h.capacity, h.entries⟩
  | some i =>
    obtain ⟨e, hslot, rfl⟩ := find_eq_some.mp hfind
    rw [lookup_eq_some.mpr ⟨i, e, hslot, rfl, rfl⟩]
    refine h.use hslot ?_ rfl
    change c.entries.modify i _ = _
    rw [List.modify_eq_set_getElem?, hslot]
    rfl

theorem put (h : Represents c m) {k : CText.CStr} (hk : k ≠ []) (b : β) :
    Represents (c.put k b) (m.put k b) := by
  have hset : (c.put k b).entries =
      c.entries.set ((c.find k).getD c.slotForPut) (some ⟨k, b, c.clock + 1⟩) := by
    unfold DictCache.put
    rw [if_neg hk]
  have hclock : (c.put k b).clock = c.clock + 1 := by
    unfold DictCache.put
    rw [if_neg hk]
  cases hfind : c.find k with
  | some i =>
    obtain ⟨e, hslot, rfl⟩ := find_eq_some.mp hfind
    rw [hfind, Option.getD_some] at hset
    exact h.use hslot hset hclock
  | none =>
    rw [hfind, Option.getD_none] at hset
    by_cases hroom : none ∈ c.entries
    · exact h.insert_room hfind (slotForPut_room hroom) hset hclock
    · obtain ⟨e, hslot, hmin⟩ := slotForPut_full hroom
      exact h.insert_full hfind hroom hslot hmin hset hclock

theorem invalidate (h : Represents c m) {k : CText.CStr} (hk : k ≠ []) :
    Represents (c.invalidate k) (m.erase k) := by
  unfold DictCache.invalidate
  rw [if_neg hk]
  cases hfind : c.find k with
  | some i =>
    obtain ⟨e, hslot, rfl⟩ := find_eq_some.mp hfind
    exact h.erase hslot rfl rfl
  | none =>
    obtain ⟨es, hperm, -, -, hentries⟩ := h.entries
    have habsent : k ∉ m.entries.map Prod.fst := by
      rw [mem_iff hperm hentries, hfind]
      simp
    have hsame : (m.erase k).entries = m.entries := Lru.without_of_not_mem habsent
    exact ⟨h.capacity, hsame ▸ h.entries⟩

theorem invalidateAll (h : Represents c m) : Represents c.invalidateAll m.clear := by
  refine ⟨?_, [], ?_, List.Pairwise.nil, by simp, rfl⟩
  · change m.capacity = (c.entries.map fun _ => none).length
    rw [List.length_map]
    exact h.capacity
  · change List.Perm [] (c.entries.map fun _ => none).reduceOption
    rw [List.map_const', List.reduceOption_replicate_none]

/-- One call returns the same on both sides, and the slots stand for the map behind it. -/
theorem exec (h : Represents c m) (call : CacheCall β) :
    (c.exec call).1 = (call.execLru m).1 ∧ Represents (c.exec call).2 (call.execLru m).2 := by
  cases call with
  | get key => exact h.get key.2
  | put key json => exact ⟨rfl, h.put key.2 json⟩
  | invalidate key => exact ⟨rfl, h.invalidate key.2⟩
  | invalidateAll => exact ⟨rfl, h.invalidateAll⟩

end Represents

/-- A new cache stands for the map without entries. -/
theorem represents_create {n : ℕ} (hn : 0 < n) :
    Represents (create n : DictCache β) (Lru.empty n hn) := by
  have hentries : (create n : DictCache β).entries = List.replicate n none := by
    change List.replicate (if (n : ℤ) ≤ 0 then defaultCapacity else (n : ℤ).toNat) none = _
    rw [if_neg (by omega), Int.toNat_natCast]
  refine ⟨by rw [hentries, List.length_replicate]; rfl, [], ?_, List.Pairwise.nil, by simp, rfl⟩
  rw [hentries, List.reduceOption_replicate_none]

/-- Each search is counted once, and nothing else is. -/
theorem exec_counts (c : DictCache β) (call : CacheCall β) :
    (c.exec call).2.hits + (c.exec call).2.misses = c.hits + c.misses + call.isGet.toNat := by
  cases call with
  | get key =>
    change (c.get key.1).2.hits + (c.get key.1).2.misses = _ + 1
    unfold get
    rw [if_neg key.2]
    cases c.find key.1 with
    | none => rfl
    | some i =>
      change c.hits + 1 + c.misses = _
      omega
  | put key json =>
    change (c.put key.1 json).hits + (c.put key.1 json).misses = _
    unfold put
    rw [if_neg key.2]
    rfl
  | invalidate key =>
    change (c.invalidate key.1).hits + (c.invalidate key.1).misses = _
    unfold invalidate
    rw [if_neg key.2]
    cases c.find key.1 <;> rfl
  | invalidateAll => rfl

/-- The number of slots stays. -/
theorem exec_length (c : DictCache β) (call : CacheCall β) :
    (c.exec call).2.entries.length = c.entries.length := by
  cases call with
  | get key =>
    change (c.get key.1).2.entries.length = _
    unfold get
    rw [if_neg key.2]
    cases c.find key.1 with
    | none => rfl
    | some i => exact List.length_modify ..
  | put key json =>
    change (c.put key.1 json).entries.length = _
    unfold put
    rw [if_neg key.2]
    exact List.length_set ..
  | invalidate key =>
    change (c.invalidate key.1).entries.length = _
    unfold invalidate
    rw [if_neg key.2]
    cases c.find key.1 with
    | none => rfl
    | some i => exact List.length_set ..
  | invalidateAll => exact List.length_map ..

/-- What the calls return on both sides, and what is behind them. -/
theorem represents_runCalls {c : DictCache β} {m : Lru CText.CStr β} (h : Represents c m)
    (calls : List (CacheCall β)) :
    (CacheCall.runCalls exec c calls).1 = (CacheCall.runCalls CacheCall.execLru m calls).1 ∧
      Represents (CacheCall.runCalls exec c calls).2
        (CacheCall.runCalls CacheCall.execLru m calls).2 := by
  induction calls generalizing c m with
  | nil => exact ⟨rfl, h⟩
  | cons call calls ih =>
    obtain ⟨hanswer, hnext⟩ := h.exec call
    obtain ⟨hanswers, hlast⟩ := ih hnext
    refine ⟨?_, hlast⟩
    exact congrArg₂ List.cons hanswer hanswers

/-- The number of slots stays, and the searches are counted. -/
theorem runCalls_counts (c : DictCache β) (calls : List (CacheCall β)) :
    (CacheCall.runCalls exec c calls).2.entries.length = c.entries.length ∧
      (CacheCall.runCalls exec c calls).2.hits + (CacheCall.runCalls exec c calls).2.misses =
        c.hits + c.misses + calls.countP (·.isGet) := by
  induction calls generalizing c with
  | nil => exact ⟨rfl, rfl⟩
  | cons call calls ih =>
    obtain ⟨hlength, hcount⟩ := ih (c.exec call).2
    refine ⟨hlength.trans (exec_length c call), hcount.trans ?_⟩
    have hget : call.isGet.toNat = if call.isGet then 1 else 0 := by cases call.isGet <;> rfl
    rw [exec_counts, List.countP_cons, hget]
    omega

/-- **The cache is a map of `n` entries that throws out the one that was not used for longest**:
any calls return what they return for such a map, the slots stand for that map, and each search is
a hit or a miss. -/
theorem run_represents {n : ℕ} (hn : 0 < n) (calls : List (CacheCall β)) :
    (CacheCall.runCalls exec (create n) calls).1 =
        (CacheCall.runCalls CacheCall.execLru (Lru.empty n hn) calls).1 ∧
      Represents (CacheCall.runCalls exec (create n) calls).2
        (CacheCall.runCalls CacheCall.execLru (Lru.empty n hn) calls).2 ∧
      (CacheCall.runCalls exec (create n) calls).2.entries.length = n ∧
      (CacheCall.runCalls exec (create n) calls).2.hits +
          (CacheCall.runCalls exec (create n) calls).2.misses = calls.countP (·.isGet) := by
  obtain ⟨hanswers, hlast⟩ := represents_runCalls (represents_create hn) calls
  obtain ⟨hlength, hcount⟩ := runCalls_counts (create n) calls
  refine ⟨hanswers, hlast, hlength.trans ?_, hcount.trans (Nat.zero_add _)⟩
  exact (represents_create (β := β) hn).capacity.symm

/-- Two slots: `a` was used after `b`, so a new key throws out `b`. -/
def evictionCalls : List (CacheCall ℕ) :=
  [.put ⟨"a".toList, by simp⟩ 1, .put ⟨"b".toList, by simp⟩ 2, .get ⟨"a".toList, by simp⟩,
    .put ⟨"c".toList, by simp⟩ 3, .get ⟨"b".toList, by simp⟩, .get ⟨"a".toList, by simp⟩]

theorem run_represents_two :
    (CacheCall.runCalls exec (create 2) evictionCalls).1 = [none, none, some 1, none, none, some 1] ∧
      (CacheCall.runCalls CacheCall.execLru (Lru.empty 2 (by decide)) evictionCalls).1 =
        [none, none, some 1, none, none, some 1] ∧
      (CacheCall.runCalls exec (create 2) evictionCalls).2.hits +
        (CacheCall.runCalls exec (create 2) evictionCalls).2.misses = 3 := by
  have hanswers : (CacheCall.runCalls exec (create 2) evictionCalls).1 =
      [none, none, some 1, none, none, some 1] := by decide +kernel
  obtain ⟨hsame, -, -, hcount⟩ := run_represents (n := 2) (by decide) evictionCalls
  exact ⟨hanswers, hsame.symm.trans hanswers, hcount⟩

end DictCache

end MiniSql
