import Mathlib.Algebra.Ring.Nat
import SealedStore.Proofs.Cache.Run

set_option autoImplicit false

/-!
# What a cache counts

The numbers that a cache keeps agree with the log of its runs: each lookup is a hit or a miss, and
an entry that was put in place is still there or went in exactly one way.  Main statement: the
books of a new cache balance after every run (`balanced_of_run`).
-/

namespace SealedStore.Cache

variable {V : Type}

namespace Event

/-- Whether an event is a lookup. -/
def isLookup : Event V → Bool
  | looked _ _ => true
  | _ => false

/-- Whether an event is a lookup that found an entry. -/
def isFound : Event V → Bool
  | looked _ found => found
  | _ => false

/-- Whether an event puts an entry in place where there was none. -/
def isFresh : Event V → Bool
  | published _ _ _ fresh => fresh
  | _ => false

/-- Whether an event is the removal of one entry. -/
def isRemoval : Event V → Bool
  | removed _ => true
  | _ => false

/-- How many entries go because all go. -/
def dropped : Event V → Nat
  | cleared entries => entries
  | _ => 0

/-- How many entries go because of their age. -/
def expirations : Event V → Nat
  | swept expired _ => expired.length
  | _ => 0

/-- How many entries go because of their rank. -/
def evictions : Event V → Nat
  | swept _ evicted => evicted.length
  | _ => 0

end Event

/-- The numbers that a cache keeps are those of a log. -/
structure Balanced (c : Cache V) (log : Log V) : Prop where
  /-- Each lookup is a hit or a miss. -/
  lookups : c.tally.hits + c.tally.misses = log.countP Event.isLookup
  /-- The hits are the lookups that found an entry. -/
  hits : c.tally.hits = log.countP Event.isFound
  /-- The expirations are the entries that passes removed for their age. -/
  expirations : c.tally.expirations = (log.map Event.expirations).sum
  /-- The evictions are the entries that passes removed for their rank. -/
  evictions : c.tally.evictions = (log.map Event.evictions).sum
  /-- An entry that was put in place is there, was removed alone or with all others, expired or was
  evicted. -/
  size : c.size + log.countP Event.isRemoval + (log.map Event.dropped).sum +
      c.tally.expirations + c.tally.evictions = log.countP Event.isFresh
  /-- No pass removes an entry twice, for its age or for its rank. -/
  once : ∀ expired evicted, .swept expired evicted ∈ log → (expired ++ evicted).Nodup

theorem size_publish (c : Cache V) (key : String) (value : V) :
    (c.publish key value).size = if c.contains key then c.size else c.size + 1 :=
  Std.ExtTreeMap.size_insert

/-- A lookup leaves the number of entries as it is. -/
theorem size_afterHit {c : Cache V} {key : String} {e : Entry V} (h : c.entries[key]? = some e) :
    (c.afterHit key e).size = c.size := by
  have hcontains : c.entries.contains key = true := contains_of_getElem? h
  unfold Cache.size afterHit
  rw [Std.ExtTreeMap.size_insert, if_pos hcontains]

/-- A new cache has nothing to account for. -/
theorem balanced_of_new {c : Cache V} (hempty : c.entries = ∅) (htally : c.tally = {}) :
    Balanced c [] where
  lookups := by rw [htally]; rfl
  hits := by rw [htally]; rfl
  expirations := by rw [htally]; rfl
  evictions := by rw [htally]; rfl
  size := by rw [htally, Cache.size, hempty, Std.ExtTreeMap.size_empty]; rfl
  once := fun _ _ h => absurd h List.not_mem_nil

/-- What a step adds to each number is what the noted event says. -/
theorem Step.tally_eq {c d : Cache V} {event : Event V} (h : Step c event d) :
    d.tally.hits = c.tally.hits + [event].countP Event.isFound ∧
      d.tally.hits + d.tally.misses =
        c.tally.hits + c.tally.misses + [event].countP Event.isLookup ∧
      d.tally.expirations = c.tally.expirations + event.expirations ∧
      d.tally.evictions = c.tally.evictions + event.evictions := by
  cases h with
  | look key =>
    cases he : c.entries[key]? with
    | some e =>
      have hcontains : c.contains key = true := contains_of_getElem? he
      rw [runOn_lookup_of_some he, hcontains]
      refine ⟨rfl, ?_, rfl, rfl⟩
      simp only [afterHit, Event.isLookup, List.countP_singleton, if_true]
      omega
    | none =>
      have hcontains : c.contains key = false := contains_of_getElem? he
      rw [runOn_lookup_of_none he, hcontains]
      exact ⟨rfl, rfl, rfl, rfl⟩
  | publish => exact ⟨rfl, rfl, rfl, rfl⟩
  | remove => exact ⟨rfl, rfl, rfl, rfl⟩
  | clear => exact ⟨rfl, rfl, rfl, rfl⟩
  | sweep hperm =>
    rw [tally_swept hperm]
    refine ⟨rfl, rfl, ?_, ?_⟩ <;> simp [Event.expirations, Event.evictions, keysOf]

/-- What a step does to the number of entries is what the noted event says. -/
theorem Step.size_eq {c d : Cache V} {event : Event V} (h : Step c event d) :
    d.size + [event].countP Event.isRemoval + event.dropped + event.expirations +
        event.evictions =
      c.size + [event].countP Event.isFresh := by
  cases h with
  | look key =>
    have hsize : ((lookup key).runOn c).2.size = c.size := by
      cases he : c.entries[key]? with
      | some e =>
        rw [runOn_lookup_of_some he]
        exact size_afterHit he
      | none =>
        rw [runOn_lookup_of_none he]
        rfl
    rw [hsize]
    rfl
  | publish key value =>
    rw [size_publish]
    cases hcontains : c.contains key <;> rfl
  | remove hcontains => exact size_erase_add_one hcontains
  | clear =>
    have hsize : Cache.size { c with entries := ∅ } = 0 := Std.ExtTreeMap.size_empty
    rw [hsize]
    simp [Event.isRemoval, Event.isFresh, Event.dropped, Event.expirations, Event.evictions]
  | @sweep snapshot hperm =>
    have hsize := size_swept c snapshot
    rw [tally_swept hperm] at hsize
    have hexpired : (keysOf (c.expired snapshot)).length = (c.expired snapshot).length :=
      List.length_map _
    have hvictims : (keysOf (c.victims snapshot)).length = (c.victims snapshot).length :=
      List.length_map _
    simp only [List.countP_singleton, Event.isRemoval, Event.isFresh, Event.dropped,
      Event.expirations, Event.evictions, hexpired, hvictims, Bool.false_eq_true, if_false]
      at hsize ⊢
    omega

/-- The books balance after a step if they did before. -/
theorem Step.balanced {c d : Cache V} {event : Event V} {log : Log V} (h : Step c event d)
    (hb : Balanced c log) : Balanced d (event :: log) := by
  obtain ⟨hhits, hlookups, hexpirations, hevictions⟩ := h.tally_eq
  have hsize := h.size_eq
  constructor
  case lookups => rw [hlookups, hb.lookups, Log.countP_cons _ event log]
  case hits => rw [hhits, hb.hits, Log.countP_cons _ event log]
  case expirations =>
    rw [hexpirations, hb.expirations, List.map_cons, List.sum_cons, Nat.add_comm]
  case evictions =>
    rw [hevictions, hb.evictions, List.map_cons, List.sum_cons, Nat.add_comm]
  case size =>
    have hbefore := hb.size
    rw [Log.countP_cons _ event log, Log.countP_cons _ event log, List.map_cons, List.sum_cons]
    omega
  case once =>
    intro expired evicted hmem
    rcases List.mem_cons.1 hmem with rfl | hmem
    · cases h with
      | sweep hperm => exact nodup_picked hperm
    · exact hb.once expired evicted hmem

/-- The books of a new cache balance after every run. -/
theorem balanced_of_run {c d : Cache V} {log : Log V} (hempty : c.entries = ∅)
    (htally : c.tally = {}) (h : Run c log d) : Balanced d log := by
  have hsteps : Steps c log d := h.steps
  clear h
  induction hsteps with
  | rest => exact balanced_of_new hempty htally
  | wait now _ ih =>
    exact ⟨ih.lookups, ih.hits, ih.expirations, ih.evictions, ih.size, ih.once⟩
  | step _ hstep ih => exact hstep.balanced ih

/-- A lookup finds an entry and one finds none before all is dropped; then one pass removes an entry
for its age, which would have been the first to give way as well, and another one for its rank. -/
theorem balanced_after_pass :
    ∃ (d : Cache Nat) (log : Log Nat), Run { limit := 1, ttl := .ofSeconds 5 } log d ∧
      Balanced d log ∧ .cleared 1 ∈ log ∧ .swept ["old"] ["new"] ∈ log ∧
      d.tally = { hits := 1, misses := 1, expirations := 1, evictions := 1 } ∧ d.size = 1 := by
  let c : Cache Nat := { limit := 1, ttl := .ofSeconds 5 }
  let held : Cache Nat := c.publish "a" 7
  have hset : Run c _ held := .set "a" 7 (.rest c)
  have hthere : held.entries["a"]? = some { value := 7, populated := 0 } := by decide +kernel
  have hfound := Run.getOrInsert "a" 8 hset
  rw [runOn_getOrInsert, runOn_getOrCompute_of_some hthere] at hfound
  have hmissed := @Run.begin _ _ _ _ "b" hfound (by decide +kernel)
  let used : Cache Nat := { c with tally := { hits := 1, misses := 1 } }
  have hcleared : Run c (.cleared 1 :: _) used := .clear hmissed
  let aged : Cache Nat := { used.publish "old" 1 with clock := .ofMillis 9000 0 }
  have haged : Run c _ aged := .wait (.ofMillis 9000 0) (.set "old" 1 hcleared)
  let full : Cache Nat :=
    { (aged.publish "new" 2).publish "newer" 3 with clock := .ofMillis 10000 0 }
  have hfull : Run c _ full := .wait (.ofMillis 10000 0) (.set "newer" 3 (.set "new" 2 haged))
  have hexpired : full.expired full.entries.toList = [("old", Entry.mk 1 1 0)] := by
    decide +kernel
  have hvictims : full.victims full.entries.toList = [("new", Entry.mk 2 1 9000)] := by
    decide +kernel
  have hpass : Run c _ (full.swept full.entries.toList) := .optimize hfull (.refl _)
  have htally := tally_swept (.refl full.entries.toList)
  have hsize : (full.swept full.entries.toList).size = 1 := by decide +kernel
  rw [hexpired, hvictims] at hpass htally
  refine ⟨_, _, hpass, balanced_of_run rfl rfl hpass, ?_, .head _, htally, hsize⟩
  simp

end SealedStore.Cache
