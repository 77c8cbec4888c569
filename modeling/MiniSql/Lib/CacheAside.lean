import Mathlib.Data.List.Basic
import MiniSql.Lib.Runs

/-!
# A cache beside a store

Readers look a key up in a cache. A reader that misses reads the store and then puts what it has
read into the cache. Writers change the store, then invalidate the key in the cache, then reply.
Each of these is one step, and the steps of all readers and writers interleave freely.

A reader that read the store before a write and puts what it has read behind the invalidation
leaves an outdated entry behind. Where no reader does that, a reader that starts after the reply
of a writer answers with what was written.

## Main definitions

* `LookupCache` — a cache seen through `lookup`.
* `CacheAside.State`, `CacheAside.step` — the readers and writers.
* `CacheAside.StoreLaws` — what is asked of the store.
* `CacheAside.Allowed` — the condition on a step.
* `CacheAside.Inv` — the invariant.

## Main results

* `CacheAside.Inv.step` — what one step keeps.
* `CacheAside.answer_of_run` — the answers of readers that start after a reply.
-/

/-- A cache, and what its operations do to what it holds. A put may throw out other keys. -/
structure LookupCache (Cache Key Body : Type*) where
  lookup : Cache → Key → Option Body
  get : Cache → Key → Option Body × Cache
  put : Cache → Key → Body → Cache
  invalidate : Cache → Key → Cache
  get_fst : ∀ c k, (get c k).1 = lookup c k
  lookup_get : ∀ c k k', lookup (get c k).2 k' = lookup c k'
  lookup_put_self : ∀ c k b, lookup (put c k b) k = some b
  lookup_put_of_ne : ∀ c k b k' b', k' ≠ k → lookup (put c k b) k' = some b' → lookup c k' = some b'
  lookup_invalidate_self : ∀ c k, lookup (invalidate c k) k = none
  lookup_invalidate_of_ne : ∀ c k k', k' ≠ k → lookup (invalidate c k) k' = lookup c k'

namespace CacheAside

/-- Where a reader is. A reader that holds what it has read knows how many writers had written
then. -/
inductive ReaderPhase (Body : Type*)
  | missed
  | holding (body : Body) (seen : ℕ)
  | done (answer : Option Body)
  deriving DecidableEq

structure Reader (Key Body : Type*) where
  key : Key
  phase : ReaderPhase Body
  deriving DecidableEq

/-- Where a writer is behind its write. A writer that has replied knows how many readers had
started then. -/
inductive WriterPhase
  | written
  | invalidated
  | replied (started : ℕ)
  deriving DecidableEq

structure Writer (Key Item : Type*) where
  key : Key
  item : Item
  phase : WriterPhase
  deriving DecidableEq

/-- The store, the cache, the readers in the order in which they started and the writers in the
order in which they wrote. -/
structure State (Store Cache Key Body Item : Type*) where
  store : Store
  cache : Cache
  readers : List (Reader Key Body)
  writers : List (Writer Key Item)

/-- A step of a reader or writer. A reader starts with its lookup, a writer with its write. -/
inductive Event (Key ReadInput WriteInput : Type*)
  | lookup (key : Key)
  | read (reader : ℕ) (input : ReadInput)
  | put (reader : ℕ)
  | write (key : Key) (input : WriteInput)
  | invalidate (writer : ℕ)
  | reply (writer : ℕ)

variable {Store Cache Key Body Item ReadInput WriteInput : Type*}
variable (L : LookupCache Cache Key Body)
variable (read : ReadInput → Store → Key → Option Body × Store)
variable (write : WriteInput → Store → Key → Option Item × Store)

/-- One step, where it is possible. A read that fails ends its reader, and a write that fails
leaves no writer behind. -/
def step (s : State Store Cache Key Body Item) :
    Event Key ReadInput WriteInput → Option (State Store Cache Key Body Item)
  | .lookup k =>
    let (found, cache) := L.get s.cache k
    let phase : ReaderPhase Body := match found with
      | some b => .done (some b)
      | none => .missed
    some { s with cache := cache, readers := s.readers ++ [⟨k, phase⟩] }
  | .read g i =>
    match s.readers[g]? with
    | some ⟨k, .missed⟩ =>
      let (found, store) := read i s.store k
      let phase : ReaderPhase Body := match found with
        | some b => .holding b s.writers.length
        | none => .done none
      some { s with store := store, readers := s.readers.set g ⟨k, phase⟩ }
    | _ => none
  | .put g =>
    match s.readers[g]? with
    | some ⟨k, .holding b _⟩ =>
      some { s with cache := L.put s.cache k b, readers := s.readers.set g ⟨k, .done (some b)⟩ }
    | _ => none
  | .write k i =>
    let (made, store) := write i s.store k
    some { s with store := store, writers := s.writers ++ (made.map fun item => ⟨k, item, .written⟩).toList }
  | .invalidate p =>
    match s.writers[p]? with
    | some ⟨k, item, .written⟩ =>
      some { s with
        cache := L.invalidate s.cache k, writers := s.writers.set p ⟨k, item, .invalidated⟩ }
    | _ => none
  | .reply p =>
    match s.writers[p]? with
    | some ⟨k, item, .invalidated⟩ =>
      some { s with writers := s.writers.set p ⟨k, item, .replied s.readers.length⟩ }
    | _ => none

/-! ## The condition on a step -/

/-- The writers that wrote after the reader had read. -/
def lateWriters (s : State Store Cache Key Body Item) (r : Reader Key Body) :
    List (Writer Key Item) :=
  match r.phase with
  | .holding _ seen => s.writers.drop seen
  | _ => []

variable (ReadOk : Store → Key → ReadInput → Prop) (WriteOk : Store → Key → WriteInput → Prop)

/-- A put happens while no writer of the key that wrote after the read has invalidated the key,
and the store is asked only what it can answer. -/
def Allowed (s : State Store Cache Key Body Item) : Event Key ReadInput WriteInput → Prop
  | .read g i => ∀ r ∈ s.readers[g]?, ReadOk s.store r.key i
  | .put g => ∀ r ∈ s.readers[g]?, ∀ w ∈ lateWriters s r, w.key = r.key → w.phase = .written
  | .write k i => WriteOk s.store k i
  | _ => True

instance [DecidableEq Key] [∀ s k i, Decidable (ReadOk s k i)] [∀ s k i, Decidable (WriteOk s k i)]
    (s : State Store Cache Key Body Item) :
    ∀ e : Event Key ReadInput WriteInput, Decidable (Allowed ReadOk WriteOk s e)
  | .read g i => inferInstanceAs (Decidable (∀ r ∈ s.readers[g]?, ReadOk s.store r.key i))
  | .put g => inferInstanceAs (Decidable (∀ r ∈ s.readers[g]?, ∀ w ∈ lateWriters s r, _ → _))
  | .write k i => inferInstanceAs (Decidable (WriteOk s.store k i))
  | .lookup _ | .invalidate _ | .reply _ => isTrue trivial

/-! ## The invariant -/

variable (Good : Store → Prop) (Holds : Store → Key → Item → Prop) (Contains : Body → Item → Prop)

/-- What is asked of the store: what was written is held from then on, and a read of the key
finds it. -/
structure StoreLaws : Prop where
  read_good : ∀ {s k i}, Good s → ReadOk s k i → Good (read i s k).2
  read_holds : ∀ {s k i k' item}, Good s → ReadOk s k i → Holds s k' item →
    Holds (read i s k).2 k' item
  read_finds : ∀ {s k i item}, Good s → ReadOk s k i → Holds s k item →
    ∃ b, (read i s k).1 = some b ∧ Contains b item
  write_good : ∀ {s k i}, Good s → WriteOk s k i → Good (write i s k).2
  write_holds : ∀ {s k i k' item}, Good s → WriteOk s k i → Holds s k' item →
    Holds (write i s k).2 k' item
  write_item : ∀ {s k i item}, Good s → WriteOk s k i → (write i s k).1 = some item →
    Holds (write i s k).2 k item

/-- The answer of a reader has the item of a writer that replied before it started. -/
def ReaderPhase.Answers (p : ℕ) (item : Item) : ReaderPhase Body → Prop
  | .missed => True
  | .holding _ seen => p < seen
  | .done answer => ∃ b, answer = some b ∧ Contains b item

/-- What holds of the readers and writers. -/
structure Inv (s : State Store Cache Key Body Item) : Prop where
  good : Good s.store
  holds : ∀ w ∈ s.writers, Holds s.store w.key w.item
  cached : ∀ k b, L.lookup s.cache k = some b →
    ∀ w ∈ s.writers, w.key = k → w.phase ≠ .written → Contains b w.item
  seen : ∀ r ∈ s.readers, ∀ b n, r.phase = .holding b n → n ≤ s.writers.length ∧
    ∀ (p : ℕ) (w : Writer Key Item), p < n → s.writers[p]? = some w → w.key = r.key →
      Contains b w.item
  started : ∀ w ∈ s.writers, ∀ n, w.phase = .replied n → n ≤ s.readers.length
  answers : ∀ (g p : ℕ) (r : Reader Key Body) (w : Writer Key Item) (n : ℕ),
    s.readers[g]? = some r → s.writers[p]? = some w → w.key = r.key → w.phase = .replied n →
      n ≤ g → r.phase.Answers Contains p w.item

section Step

variable {L read write ReadOk WriteOk Good Holds Contains}
variable {s s' : State Store Cache Key Body Item}

/-- The readers and writers at the start. -/
theorem inv_start {store : Store} (hgood : Good store) (cache : Cache) :
    Inv L Good Holds Contains (⟨store, cache, [], []⟩ : State Store Cache Key Body Item) where
  good := hgood
  holds := by simp
  cached := by simp
  seen := by simp
  started := by simp
  answers := by simp

/-- A reader starts: it finds what is cached, or goes on to the store. -/
theorem Inv.lookup (h : Inv L Good Holds Contains s) (k : Key) (phase : ReaderPhase Body)
    (cache : Cache) (hkeep : ∀ k', L.lookup cache k' = L.lookup s.cache k')
    (hphase : phase = .missed ∨ ∃ b, phase = .done (some b) ∧ L.lookup s.cache k = some b) :
    Inv L Good Holds Contains { s with cache := cache, readers := s.readers ++ [⟨k, phase⟩] } where
  good := h.good
  holds := h.holds
  cached k' b hb := h.cached k' b (hkeep k' ▸ hb)
  seen r hr b n hn := by
    rcases List.mem_append.mp hr with hold | hnew
    · exact h.seen r hold b n hn
    · obtain rfl := List.mem_singleton.mp hnew
      rcases hphase with rfl | ⟨b', rfl, -⟩ <;> exact absurd hn (by simp)
  started w hw n hn := by
    have := h.started w hw n hn
    rw [List.length_append]
    omega
  answers g p r w n hr hw hkey hn hg := by
    by_cases hlt : g < s.readers.length
    · rw [List.getElem?_append_left hlt] at hr
      exact h.answers g p r w n hr hw hkey hn hg
    · rw [List.getElem?_append_right (by omega)] at hr
      obtain rfl := List.mem_singleton.mp (List.mem_of_getElem? hr)
      rcases hphase with rfl | ⟨b, rfl, hb⟩
      · trivial
      · exact ⟨b, rfl, h.cached k b hb w (List.mem_of_getElem? hw) hkey (by simp [hn])⟩

/-- The store changes, and nothing that is held gets lost. -/
theorem Inv.store (h : Inv L Good Holds Contains s) {store : Store} (hgood : Good store)
    (hholds : ∀ k item, Holds s.store k item → Holds store k item) :
    Inv L Good Holds Contains { s with store := store } :=
  ⟨hgood, fun w hw => hholds _ _ (h.holds w hw), h.cached, h.seen, h.started, h.answers⟩

/-- A reader goes on. -/
theorem Inv.reader (h : Inv L Good Holds Contains s) {g : ℕ} {r : Reader Key Body}
    (hg : s.readers[g]? = some r) {phase : ReaderPhase Body}
    (hseen : ∀ b n, phase = .holding b n → n ≤ s.writers.length ∧
      ∀ (p : ℕ) (w : Writer Key Item), p < n → s.writers[p]? = some w → w.key = r.key →
        Contains b w.item)
    (hanswers : ∀ (p : ℕ) (w : Writer Key Item) (n : ℕ), s.writers[p]? = some w → w.key = r.key →
      w.phase = .replied n → n ≤ g → phase.Answers Contains p w.item) :
    Inv L Good Holds Contains { s with readers := s.readers.set g ⟨r.key, phase⟩ } where
  good := h.good
  holds := h.holds
  cached := h.cached
  seen r' hr' b n hn := by
    rcases List.mem_or_eq_of_mem_set hr' with hold | rfl
    · exact h.seen r' hold b n hn
    · exact hseen b n hn
  started := by
    rw [List.length_set]
    exact h.started
  answers g' p r' w n hr' hw hkey hn hle := by
    by_cases heq : g = g'
    · subst heq
      have hlt : g < s.readers.length := (List.getElem?_eq_some_iff.mp hg).1
      rw [List.getElem?_set_self hlt] at hr'
      obtain rfl := Option.some.inj hr'
      exact hanswers p w n hw hkey hn hle
    · rw [List.getElem?_set_ne heq] at hr'
      exact h.answers g' p r' w n hr' hw hkey hn hle

/-- A cache that holds less, or what a reader brings. -/
theorem Inv.cache (h : Inv L Good Holds Contains s) {cache : Cache}
    (hcache : ∀ k b, L.lookup cache k = some b → L.lookup s.cache k = some b ∨
      ∀ w ∈ s.writers, w.key = k → w.phase ≠ .written → Contains b w.item) :
    Inv L Good Holds Contains { s with cache := cache } where
  good := h.good
  holds := h.holds
  cached k b hb := by
    rcases hcache k b hb with hold | hnew
    · exact h.cached k b hold
    · exact hnew
  seen := h.seen
  started := h.started
  answers := h.answers

/-- A writer has written. -/
theorem Inv.writer_new (h : Inv L Good Holds Contains s) {k : Key} {item : Item}
    (hholds : Holds s.store k item) :
    Inv L Good Holds Contains { s with writers := s.writers ++ [⟨k, item, .written⟩] } where
  good := h.good
  holds w hw := by
    rcases List.mem_append.mp hw with hold | hnew
    · exact h.holds w hold
    · obtain rfl := List.mem_singleton.mp hnew
      exact hholds
  cached k' b hb w hw hkey hphase := by
    rcases List.mem_append.mp hw with hold | hnew
    · exact h.cached k' b hb w hold hkey hphase
    · obtain rfl := List.mem_singleton.mp hnew
      exact absurd rfl hphase
  seen r hr b n hn := by
    obtain ⟨hle, hcontains⟩ := h.seen r hr b n hn
    refine ⟨by rw [List.length_append]; omega, fun p w hp hw => ?_⟩
    rw [List.getElem?_append_left (by omega)] at hw
    exact hcontains p w hp hw
  started w hw n hn := by
    rcases List.mem_append.mp hw with hold | hnew
    · exact h.started w hold n hn
    · obtain rfl := List.mem_singleton.mp hnew
      exact absurd hn (by simp)
  answers g p r w n hr hw hkey hn hle := by
    by_cases hlt : p < s.writers.length
    · rw [List.getElem?_append_left hlt] at hw
      exact h.answers g p r w n hr hw hkey hn hle
    · rw [List.getElem?_append_right (by omega)] at hw
      obtain rfl := List.mem_singleton.mp (List.mem_of_getElem? hw)
      exact absurd hn (by simp)

/-- A writer goes on. -/
theorem Inv.writer (h : Inv L Good Holds Contains s) {p : ℕ} {w : Writer Key Item}
    (hp : s.writers[p]? = some w) {phase : WriterPhase}
    (hcached : ∀ b, L.lookup s.cache w.key = some b → phase ≠ .written → Contains b w.item)
    (hstarted : ∀ n, phase = .replied n → n = s.readers.length) :
    Inv L Good Holds Contains { s with writers := s.writers.set p ⟨w.key, w.item, phase⟩ } where
  good := h.good
  holds w' hw' := by
    rcases List.mem_or_eq_of_mem_set hw' with hold | rfl
    · exact h.holds w' hold
    · exact h.holds w (List.mem_of_getElem? hp)
  cached k b hb w' hw' hkey hphase := by
    rcases List.mem_or_eq_of_mem_set hw' with hold | rfl
    · exact h.cached k b hb w' hold hkey hphase
    · exact hcached b (hkey ▸ hb) hphase
  seen r hr b n hn := by
    obtain ⟨hle, hcontains⟩ := h.seen r hr b n hn
    refine ⟨by rw [List.length_set]; exact hle, fun q w' hq hw' hkey => ?_⟩
    by_cases heq : p = q
    · subst heq
      have hlt : p < s.writers.length := (List.getElem?_eq_some_iff.mp hp).1
      rw [List.getElem?_set_self hlt] at hw'
      obtain rfl := Option.some.inj hw'
      exact hcontains p w hq hp hkey
    · rw [List.getElem?_set_ne heq] at hw'
      exact hcontains q w' hq hw' hkey
  started w' hw' n hn := by
    rcases List.mem_or_eq_of_mem_set hw' with hold | rfl
    · exact h.started w' hold n hn
    · exact Nat.le_of_eq (hstarted n hn)
  answers g q r w' n hr hw' hkey hn hle := by
    by_cases heq : p = q
    · subst heq
      have hlt : p < s.writers.length := (List.getElem?_eq_some_iff.mp hp).1
      rw [List.getElem?_set_self hlt] at hw'
      obtain rfl := Option.some.inj hw'
      -- no reader has started since the reply
      have hstart := hstarted n hn
      have hlt' : g < s.readers.length := (List.getElem?_eq_some_iff.mp hr).1
      omega
    · rw [List.getElem?_set_ne heq] at hw'
      exact h.answers g q r w' n hr hw' hkey hn hle

/-- **What one allowed step keeps.** -/
theorem Inv.step (hlaws : StoreLaws read write ReadOk WriteOk Good Holds Contains)
    (h : Inv L Good Holds Contains s) {e : Event Key ReadInput WriteInput}
    (hallowed : Allowed ReadOk WriteOk s e) (hstep : step L read write s e = some s') :
    Inv L Good Holds Contains s' := by
  cases e with
  | lookup k =>
    have hget := L.get_fst s.cache k
    have hkeep := L.lookup_get s.cache k
    obtain rfl := Option.some.inj hstep
    refine h.lookup k _ _ hkeep ?_
    rw [hget]
    cases L.lookup s.cache k with
    | none => exact .inl rfl
    | some b => exact .inr ⟨b, rfl, rfl⟩
  | read g i =>
    rw [CacheAside.step] at hstep
    split at hstep
    · rename_i k hg
      have hok : ReadOk s.store k i := hallowed _ hg
      obtain rfl := Option.some.inj hstep
      have hread := h.store (hlaws.read_good h.good hok)
        fun k' item hitem => hlaws.read_holds h.good hok hitem
      -- what has been written before the read is found
      have hfinds : ∀ w ∈ s.writers, w.key = k →
          ∃ b, (read i s.store k).1 = some b ∧ Contains b w.item := by
        rintro w hw rfl
        exact hlaws.read_finds h.good hok (h.holds w hw)
      refine hread.reader hg ?_ ?_
      · intro b n hphase
        cases hres : (read i s.store k).1 with
        | none =>
          rw [hres] at hphase
          exact absurd hphase (by simp)
        | some b' =>
          rw [hres] at hphase hfinds
          obtain ⟨rfl, rfl⟩ := ReaderPhase.holding.inj hphase
          refine ⟨Nat.le_refl _, fun p w _ hw hkey => ?_⟩
          obtain ⟨b, hb, hcontains⟩ := hfinds w (List.mem_of_getElem? hw) hkey
          exact Option.some.inj hb ▸ hcontains
      · intro p w n hw hkey hn hle
        obtain ⟨b, hb, -⟩ := hfinds w (List.mem_of_getElem? hw) hkey
        rw [hb]
        exact (List.getElem?_eq_some_iff.mp hw).1
    · exact absurd hstep (by simp)
  | put g =>
    rw [CacheAside.step] at hstep
    split at hstep
    · rename_i k b seen hg
      have hmem := List.mem_of_getElem? hg
      have hlate : ∀ w ∈ s.writers.drop seen, w.key = k → w.phase = .written := hallowed _ hg
      obtain ⟨-, hseen⟩ := h.seen _ hmem b seen rfl
      obtain rfl := Option.some.inj hstep
      have hput : Inv L Good Holds Contains { s with cache := L.put s.cache k b } := by
        refine h.cache fun k' b' hb' => ?_
        by_cases heq : k' = k
        · subst heq
          rw [L.lookup_put_self] at hb'
          obtain rfl := Option.some.inj hb'
          refine .inr fun w hw hkey hphase => ?_
          obtain ⟨p, hp⟩ := List.mem_iff_getElem?.mp hw
          by_cases hlt : p < seen
          · exact hseen p w hlt hp hkey
          · refine absurd (hlate w (List.mem_iff_getElem?.mpr ⟨p - seen, ?_⟩) hkey) hphase
            rw [List.getElem?_drop, show seen + (p - seen) = p by omega, hp]
        · exact .inl (L.lookup_put_of_ne _ _ _ _ _ heq hb')
      refine hput.reader hg (by simp) fun p w n hw hkey hn hle => ?_
      have hp : p < seen := h.answers g p _ w n hg hw hkey hn hle
      exact ⟨b, rfl, hseen p w hp hw hkey⟩
    · exact absurd hstep (by simp)
  | write k i =>
    have hok : WriteOk s.store k i := hallowed
    obtain rfl := Option.some.inj hstep
    have hwrite := h.store (hlaws.write_good h.good hok)
      fun k' item hitem => hlaws.write_holds h.good hok hitem
    cases hres : (write i s.store k).1 with
    | none => simpa [hres] using hwrite
    | some item => simpa [hres] using hwrite.writer_new (hlaws.write_item h.good hok hres)
  | invalidate p =>
    rw [CacheAside.step] at hstep
    split at hstep
    · rename_i k item hp
      obtain rfl := Option.some.inj hstep
      have hcache : Inv L Good Holds Contains { s with cache := L.invalidate s.cache k } := by
        refine h.cache fun k' b hb => ?_
        by_cases heq : k' = k
        · subst heq
          rw [L.lookup_invalidate_self] at hb
          exact absurd hb (by simp)
        · exact .inl (L.lookup_invalidate_of_ne _ _ _ heq ▸ hb)
      refine hcache.writer hp (fun b hb _ => ?_) (by simp)
      rw [L.lookup_invalidate_self] at hb
      exact absurd hb (by simp)
    · exact absurd hstep (by simp)
  | reply p =>
    rw [CacheAside.step] at hstep
    split at hstep
    · rename_i k item hp
      obtain rfl := Option.some.inj hstep
      refine h.writer hp (fun b hb _ => ?_) (by simp [eq_comm])
      exact h.cached k b hb _ (List.mem_of_getElem? hp) rfl (by simp)
    · exact absurd hstep (by simp)

/-- **In a run of allowed steps, a reader that starts after the reply of a writer of its key
answers with the item of this writer.** -/
theorem answer_of_run (hlaws : StoreLaws read write ReadOk WriteOk Good Holds Contains)
    {store : Store} (hgood : Good store) {cache : Cache} {es : List (Event Key ReadInput WriteInput)}
    (hallowed : Runs.Meets (CacheAside.step L read write) (Allowed ReadOk WriteOk)
      (⟨store, cache, [], []⟩ : State Store Cache Key Body Item) es)
    (hrun : Runs.run (CacheAside.step L read write)
      (⟨store, cache, [], []⟩ : State Store Cache Key Body Item) es = some s)
    {g p n : ℕ} {k : Key} {answer : Option Body} {item : Item}
    (hg : s.readers[g]? = some ⟨k, .done answer⟩) (hp : s.writers[p]? = some ⟨k, item, .replied n⟩)
    (hafter : n ≤ g) : ∃ b, answer = some b ∧ Contains b item := by
  have hinv : Inv L Good Holds Contains s :=
    Runs.invariant (fun s e s' h hcond hstep => Inv.step hlaws h hcond hstep)
      (inv_start hgood cache) hallowed hrun
  exact hinv.answers g p _ _ n hg hp rfl rfl hafter

end Step

end CacheAside
