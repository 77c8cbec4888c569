import MiniSql.Types

/-!
# The dictionary cache

`dict_cache.c`: a fixed number of slots, each free or with a key, the JSON text stored for it
and the time of its last use. The text is generic. `unsigned long` counters are natural numbers.

## Main definitions

* `DictCache` — the slots; no key is in two of them.
* `DictCache.get`, `DictCache.put`, `DictCache.invalidate`, `DictCache.invalidateAll`.
* `DictCache.lookup` — what the cache holds for a key.

## Main results

* `lookup_get`, `lookup_put_self`, `lookup_put_of_ne`, `lookup_invalidate_self`,
  `lookup_invalidate_of_ne` — what the operations do to it.
-/

namespace MiniSql

/-- A slot whose key is not NULL. -/
structure DictCacheEntry (β : Type*) where
  key : CText.CStr
  json : β
  lastUsed : ℕ

variable {β : Type*}

/-- No key is in two slots. -/
def KeysDistinct (entries : List (Option (DictCacheEntry β))) : Prop :=
  ∀ (i j : ℕ) (e e' : DictCacheEntry β), entries[i]? = some (some e) → entries[j]? = some (some e') → e.key = e'.key → i = j

variable (β) in
/-- `dict_cache_t`. -/
structure DictCache where
  entries : List (Option (DictCacheEntry β))
  clock : ℕ
  hits : ℕ
  misses : ℕ
  capacity_pos : 0 < entries.length
  distinct : KeysDistinct entries

namespace DictCache

theorem keysDistinct_replicate (n : ℕ) :
    KeysDistinct (List.replicate n (none : Option (DictCacheEntry β))) := by
  intro i j e e' hi
  rw [List.getElem?_replicate] at hi
  split at hi <;> exact absurd hi (by simp)

/-- A slot may be freed, or used again by what it held. -/
theorem keysDistinct_set {entries : List (Option (DictCacheEntry β))} (h : KeysDistinct entries)
    (i : ℕ) (slot : Option (DictCacheEntry β))
    (hslot : ∀ e ∈ slot, ∀ j e', entries[j]? = some (some e') → e'.key = e.key → j = i) :
    KeysDistinct (entries.set i slot) := by
  have hcases : ∀ {j e}, (entries.set i slot)[j]? = some (some e) →
      (j = i ∧ slot = some e) ∨ (j ≠ i ∧ entries[j]? = some (some e)) := by
    intro j e hj
    by_cases hij : i = j
    · subst hij
      have hlt : i < entries.length := by
        by_contra hge
        rw [List.getElem?_eq_none (by simpa using hge)] at hj
        exact absurd hj (by simp)
      rw [List.getElem?_set_self hlt] at hj
      exact .inl ⟨rfl, Option.some.inj hj⟩
    · rw [List.getElem?_set_ne hij] at hj
      exact .inr ⟨Ne.symm hij, hj⟩
  intro j k e e' hj hk hkey
  rcases hcases hj with ⟨rfl, hnew⟩ | ⟨-, hold⟩ <;> rcases hcases hk with ⟨rfl, hnew'⟩ | ⟨-, hold'⟩
  · rfl
  · exact (hslot e hnew k e' hold' hkey.symm).symm
  · exact hslot e' hnew' j e hold hkey
  · exact h j k e e' hold hold' hkey

/-- `DICT_CACHE_DEFAULT_CAPACITY`. -/
def defaultCapacity : ℕ := 128

/-- `dict_cache_create`. -/
def create (capacity : ℤ) : DictCache β where
  entries := List.replicate (if capacity ≤ 0 then defaultCapacity else capacity.toNat) none
  clock := 0
  hits := 0
  misses := 0
  capacity_pos := by
    rw [List.length_replicate]
    split
    · decide
    · omega
  distinct := keysDistinct_replicate _

/-- `dict_cache_find`. -/
def find (c : DictCache β) (key : CText.CStr) : Option ℕ :=
  c.entries.findIdx? fun slot => slot.any fun e => e.key = key

/-- The loop of `dict_cache_slot_for_put` from slot `i` on. -/
def slotLoop : List (Option (DictCacheEntry β)) → ℕ → ℕ → ℕ → ℕ
  | [], _, oldest, _ => oldest
  | none :: _, i, _, _ => i
  | some e :: slots, i, oldest, oldestUsed =>
    if e.lastUsed < oldestUsed then slotLoop slots (i + 1) i e.lastUsed
    else slotLoop slots (i + 1) oldest oldestUsed

/-- The time of the last use of a slot, `0` for a free one. -/
def usedAt (c : DictCache β) (i : ℕ) : ℕ := ((c.entries[i]?).join.map (·.lastUsed)).getD 0

/-- `dict_cache_slot_for_put`. -/
def slotForPut (c : DictCache β) : ℕ := slotLoop c.entries 0 0 (c.usedAt 0)

/-- What the cache holds for a key. -/
def lookup (c : DictCache β) (key : CText.CStr) : Option β :=
  (c.find key).bind fun i => (c.entries[i]?).join.map (·.json)

/-! ## Finding a key -/

/-- A key is found where it is. -/
theorem find_eq_some {c : DictCache β} {key : CText.CStr} {i : ℕ} :
    c.find key = some i ↔ ∃ e, c.entries[i]? = some (some e) ∧ e.key = key := by
  unfold find
  rw [List.findIdx?_eq_some_iff_getElem]
  constructor
  · rintro ⟨hlt, hkey, -⟩
    cases hslot : c.entries[i] with
    | none =>
      rw [hslot] at hkey
      exact absurd hkey (by simp)
    | some e =>
      rw [hslot] at hkey
      exact ⟨e, by rw [List.getElem?_eq_getElem hlt, hslot], by simpa using hkey⟩
  · rintro ⟨e, hslot, hkey⟩
    obtain ⟨hlt, hget⟩ := List.getElem?_eq_some_iff.mp hslot
    refine ⟨hlt, by simp [hget, hkey], fun j hj hother => ?_⟩
    cases hslot' : c.entries[j] with
    | none =>
      rw [hslot'] at hother
      exact absurd hother (by simp)
    | some e' =>
      rw [hslot'] at hother
      have hget' : c.entries[j]? = some (some e') := by
        rw [List.getElem?_eq_getElem (by omega), hslot']
      have := c.distinct j i e' e hget' hslot (by rw [hkey]; simpa using hother)
      omega

theorem find_eq_none {c : DictCache β} {key : CText.CStr} :
    c.find key = none ↔ ∀ (i : ℕ) (e : DictCacheEntry β), c.entries[i]? = some (some e) → e.key ≠ key := by
  constructor
  · intro h i e hslot hkey
    rw [find_eq_some.mpr ⟨e, hslot, hkey⟩] at h
    exact absurd h (by simp)
  · intro h
    cases hfind : c.find key with
    | none => rfl
    | some i =>
      obtain ⟨e, hslot, hkey⟩ := find_eq_some.mp hfind
      exact absurd hkey (h i e hslot)

/-- The cache holds what is in the slot of the key. -/
theorem lookup_eq_some {c : DictCache β} {key : CText.CStr} {b : β} :
    c.lookup key = some b ↔
      ∃ (i : ℕ) (e : DictCacheEntry β), c.entries[i]? = some (some e) ∧ e.key = key ∧ e.json = b := by
  unfold lookup
  rw [Option.bind_eq_some_iff]
  constructor
  · rintro ⟨i, hfind, hjson⟩
    obtain ⟨e, hslot, hkey⟩ := find_eq_some.mp hfind
    rw [hslot] at hjson
    exact ⟨i, e, hslot, hkey, Option.some.inj hjson⟩
  · rintro ⟨i, e, hslot, hkey, hjson⟩
    refine ⟨i, find_eq_some.mpr ⟨e, hslot, hkey⟩, ?_⟩
    rw [hslot, ← hjson]
    rfl

theorem lookup_eq_none {c : DictCache β} {key : CText.CStr} :
    c.lookup key = none ↔ c.find key = none := by
  constructor
  · intro h
    cases hfind : c.find key with
    | none => rfl
    | some i =>
      obtain ⟨e, hslot, hkey⟩ := find_eq_some.mp hfind
      rw [lookup_eq_some.mpr ⟨i, e, hslot, hkey, rfl⟩] at h
      exact absurd h (by simp)
  · intro h
    rw [lookup, h, Option.bind_none]

/-! ## The operations -/

/-- A slot is used: the clock goes on, and the slot gets the new time. -/
def touch (c : DictCache β) (i : ℕ) : DictCache β where
  entries := c.entries.modify i (Option.map fun e => { e with lastUsed := c.clock + 1 })
  clock := c.clock + 1
  hits := c.hits + 1
  misses := c.misses
  capacity_pos := by
    rw [List.length_modify]
    exact c.capacity_pos
  distinct := by
    have hkey : ∀ {j : ℕ} {e : DictCacheEntry β},
        (c.entries.modify i (Option.map fun e => { e with lastUsed := c.clock + 1 }))[j]? =
          some (some e) → ∃ e', c.entries[j]? = some (some e') ∧ e'.key = e.key := by
      intro j e hj
      rw [List.getElem?_modify] at hj
      split at hj
      · obtain ⟨slot, hslot, hmap⟩ := Option.map_eq_some_iff.mp hj
        obtain ⟨e', rfl, rfl⟩ := Option.map_eq_some_iff.mp hmap
        exact ⟨e', hslot, rfl⟩
      · exact ⟨e, by simpa using hj, rfl⟩
    intro j k e e' hj hk hsame
    obtain ⟨d, hd, hdkey⟩ := hkey hj
    obtain ⟨d', hd', hdkey'⟩ := hkey hk
    exact c.distinct j k d d' hd hd' (by rw [hdkey, hdkey', hsame])

/-- `dict_cache_get`: the text that is stored for the key. -/
def get (c : DictCache β) (key : CText.CStr) : Option β × DictCache β :=
  if key = [] then (none, c)
  else match c.find key with
    | none => (none, { c with misses := c.misses + 1 })
    | some i => ((c.entries[i]?).join.map (·.json), c.touch i)

/-- `dict_cache_put`. -/
def put (c : DictCache β) (key : CText.CStr) (json : β) : DictCache β :=
  if key = [] then c
  else
    { c with
      entries := c.entries.set ((c.find key).getD c.slotForPut) (some ⟨key, json, c.clock + 1⟩)
      clock := c.clock + 1
      capacity_pos := by
        rw [List.length_set]
        exact c.capacity_pos
      distinct := by
        refine keysDistinct_set c.distinct _ _ fun e he j e' hj hkey => ?_
        obtain rfl := Option.some.inj he
        rw [find_eq_some.mpr ⟨e', hj, hkey⟩, Option.getD_some] }

/-- `dict_cache_invalidate`. -/
def invalidate (c : DictCache β) (key : CText.CStr) : DictCache β :=
  if key = [] then c
  else match c.find key with
    | none => c
    | some i =>
      { c with
        entries := c.entries.set i none
        capacity_pos := by
          rw [List.length_set]
          exact c.capacity_pos
        distinct := keysDistinct_set c.distinct i none (by simp) }

/-- `dict_cache_invalidate_all`. -/
def invalidateAll (c : DictCache β) : DictCache β where
  entries := c.entries.map fun _ => none
  clock := 0
  hits := c.hits
  misses := c.misses
  capacity_pos := by
    rw [List.length_map]
    exact c.capacity_pos
  distinct := by
    intro i j e e' hi
    rw [List.getElem?_map, Option.map_eq_some_iff] at hi
    obtain ⟨_, _, h⟩ := hi
    exact absurd h (by simp)

/-! ## What they do -/

theorem slotLoop_lt {slots : List (Option (DictCacheEntry β))} {i oldest oldestUsed n : ℕ}
    (holdest : oldest < n) (hn : i + slots.length ≤ n) : slotLoop slots i oldest oldestUsed < n := by
  induction slots generalizing i oldest oldestUsed with
  | nil => exact holdest
  | cons slot slots ih =>
    rw [List.length_cons] at hn
    cases slot with
    | none =>
      rw [slotLoop]
      omega
    | some e =>
      rw [slotLoop]
      split
      · exact ih (by omega) (by omega)
      · exact ih holdest (by omega)

/-- There is a slot to put a text into. -/
theorem slotForPut_lt (c : DictCache β) : c.slotForPut < c.entries.length :=
  slotLoop_lt c.capacity_pos (by omega)

theorem putIndex_lt (c : DictCache β) (key : CText.CStr) :
    (c.find key).getD c.slotForPut < c.entries.length := by
  cases hfind : c.find key with
  | none => exact c.slotForPut_lt
  | some i =>
    obtain ⟨e, hslot, -⟩ := find_eq_some.mp hfind
    exact (List.getElem?_eq_some_iff.mp hslot).1

@[simp] theorem lookup_touch (c : DictCache β) (i : ℕ) (key : CText.CStr) :
    (c.touch i).lookup key = c.lookup key := by
  ext b
  simp only [lookup_eq_some, touch, List.getElem?_modify]
  constructor
  · rintro ⟨j, e, hj, rfl, rfl⟩
    split at hj
    · obtain ⟨slot, hslot, hmap⟩ := Option.map_eq_some_iff.mp hj
      obtain ⟨e', rfl, rfl⟩ := Option.map_eq_some_iff.mp hmap
      exact ⟨j, e', hslot, rfl, rfl⟩
    · exact ⟨j, e, by simpa using hj, rfl, rfl⟩
  · rintro ⟨j, e, hj, rfl, rfl⟩
    by_cases hij : i = j
    · exact ⟨j, { e with lastUsed := c.clock + 1 }, by simp [hij, hj], rfl, rfl⟩
    · exact ⟨j, e, by simp [hij, hj], rfl, rfl⟩

/-- A search returns what the cache holds, and changes nothing of that. -/
theorem lookup_get {c : DictCache β} {key : CText.CStr} (hkey : key ≠ []) :
    (c.get key).1 = c.lookup key ∧ ∀ k, (c.get key).2.lookup k = c.lookup k := by
  unfold get
  rw [if_neg hkey]
  cases hfind : c.find key with
  | none => exact ⟨(lookup_eq_none.mpr hfind).symm, fun k => rfl⟩
  | some i =>
    refine ⟨?_, fun k => lookup_touch c i k⟩
    rw [lookup, hfind]
    rfl

theorem lookup_put_self (c : DictCache β) {key : CText.CStr} (hkey : key ≠ []) (json : β) :
    (c.put key json).lookup key = some json := by
  refine lookup_eq_some.mpr ⟨(c.find key).getD c.slotForPut, ⟨key, json, c.clock + 1⟩, ?_, rfl, rfl⟩
  unfold put
  rw [if_neg hkey]
  exact List.getElem?_set_self (c.putIndex_lt key)

/-- A text that is put may throw out another one, but does not change any. -/
theorem lookup_put_of_ne {c : DictCache β} {key k : CText.CStr} {json b : β} (hne : k ≠ key)
    (h : (c.put key json).lookup k = some b) : c.lookup k = some b := by
  unfold put at h
  split at h
  · exact h
  · obtain ⟨i, e, hslot, rfl, rfl⟩ := lookup_eq_some.mp h
    dsimp only at hslot
    refine lookup_eq_some.mpr ⟨i, e, ?_, rfl, rfl⟩
    rw [List.getElem?_set] at hslot
    split_ifs at hslot
    · obtain rfl := Option.some.inj (Option.some.inj hslot)
      exact absurd rfl hne
    · exact hslot

theorem lookup_invalidate_self (c : DictCache β) {key : CText.CStr} (hkey : key ≠ []) :
    (c.invalidate key).lookup key = none := by
  unfold invalidate
  rw [if_neg hkey]
  cases hfind : c.find key with
  | none => exact lookup_eq_none.mpr hfind
  | some i =>
    refine lookup_eq_none.mpr (find_eq_none.mpr fun j e hslot hkey' => ?_)
    dsimp only at hslot
    rw [List.getElem?_set] at hslot
    split_ifs at hslot with hij
    · exact absurd hslot (by simp)
    · have := find_eq_some.mpr ⟨e, hslot, hkey'⟩
      exact hij (Option.some.inj (hfind.symm.trans this))

theorem lookup_invalidate_of_ne {c : DictCache β} {key k : CText.CStr} (hne : k ≠ key) :
    (c.invalidate key).lookup k = c.lookup k := by
  unfold invalidate
  split
  · rfl
  cases hfind : c.find key with
  | none => rfl
  | some i =>
    obtain ⟨e₀, hslot₀, hkey₀⟩ := find_eq_some.mp hfind
    ext b
    simp only [lookup_eq_some, List.getElem?_set]
    constructor
    · rintro ⟨j, e, hslot, rfl, rfl⟩
      split_ifs at hslot
      · exact absurd hslot (by simp)
      · exact ⟨j, e, hslot, rfl, rfl⟩
    · rintro ⟨j, e, hslot, rfl, rfl⟩
      have hij : i ≠ j := by
        rintro rfl
        rw [hslot₀] at hslot
        obtain rfl := Option.some.inj (Option.some.inj hslot)
        exact hne hkey₀
      exact ⟨j, e, by rw [if_neg hij]; exact hslot, rfl, rfl⟩

theorem lookup_create (capacity : ℤ) (key : CText.CStr) :
    (create capacity : DictCache β).lookup key = none := by
  refine lookup_eq_none.mpr (find_eq_none.mpr fun i e hslot => ?_)
  dsimp only [create] at hslot
  rw [List.getElem?_replicate] at hslot
  split at hslot <;> exact absurd hslot (by simp)

end DictCache

end MiniSql
