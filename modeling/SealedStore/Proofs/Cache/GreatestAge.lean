import Mathlib.Algebra.Ring.Nat
import SealedStore.Config
import SealedStore.Proofs.Cache.Run

set_option autoImplicit false

/-!
# How far the greatest age of a cache is kept to

The greatest age of a cache is held exactly, but cut to the milliseconds that 64 bits hold when
entries are compared with it.  Main statement: a cache without a limit keeps to its greatest age,
and a longer one never makes an entry go that a shorter one would have left, exactly if no bit is
lost or those that are left are no less than any age (`expiresExactly_iff`).
-/

namespace SealedStore.Cache

/-- With a greatest age, optimizing a cache without a limit removes exactly the entries that are
older, whatever the cache holds and whatever the clock shows. -/
def ExpiresExactly (ttl : Duration) : Prop :=
  ∀ (V : Type) (c : Cache V), c.ttl = ttl → c.limit = 0 → c.clock.unixMillis < 2 ^ 64 →
    ∀ key : String, (optimize.runOn c).2.entries[key]? =
      c.entries[key]?.filter fun e => e.age c.clock.unixMillis * 1000000 ≤ ttl.nanos

/-- With a greatest age, optimizing a cache without a limit leaves every entry that a shorter one
would have left. -/
def LeavesMore (ttl : Duration) : Prop :=
  ∀ shorter : Duration, shorter.nanos ≠ 0 → shorter.nanos ≤ ttl.nanos →
    ∀ (V : Type) (c : Cache V), c.limit = 0 → c.clock.unixMillis < 2 ^ 64 → ∀ key : String,
      (optimize.runOn { c with ttl := shorter }).2.contains key = true →
        (optimize.runOn { c with ttl := ttl }).2.contains key = true

/-! ## What entries are compared with -/

section Compared

variable {V : Type} {c : Cache V}

theorem mem_keysOf_expired (httl : c.ttl.nanos ≠ 0) {key : String} :
    key ∈ keysOf (c.expired c.entries.toList) ↔
      ∃ e, c.entries[key]? = some e ∧ c.ttl.millis64 < e.age c.clock.unixMillis := by
  unfold keysOf expired split
  rw [if_neg httl]
  unfold splitExpired
  rw [List.partition_eq_filter_filter]
  simp only [List.mem_map, List.mem_filter, Prod.exists, Function.comp_apply, Bool.not_eq_true',
    decide_eq_false_iff_not, Nat.not_le, Std.ExtTreeMap.mem_toList_iff_getElem?_eq_some]
  constructor
  · rintro ⟨k, e, ⟨he, hage⟩, rfl⟩
    exact ⟨e, he, hage⟩
  · rintro ⟨e, he, hage⟩
    exact ⟨key, e, ⟨he, hage⟩, rfl⟩

/-- Optimizing a cache without a limit removes the entries that are older than what 64 bits hold of
the greatest age. -/
theorem getElem?_optimize (httl : c.ttl.nanos ≠ 0) (hlimit : c.limit = 0) (key : String) :
    (optimize.runOn c).2.entries[key]? =
      c.entries[key]?.filter fun e => e.age c.clock.unixMillis ≤ c.ttl.millis64 := by
  have hvictims : c.victims c.entries.toList = [] := if_neg fun h => h.1 hlimit
  have hswept : (optimize.runOn c).2 = c.swept c.entries.toList := by
    rw [runOn_optimize]
    rfl
  have hpicked : key ∈ keysOf (c.expired c.entries.toList) ∨
      key ∈ keysOf (c.victims c.entries.toList) ↔
        ∃ e, c.entries[key]? = some e ∧ c.ttl.millis64 < e.age c.clock.unixMillis := by
    rw [hvictims, mem_keysOf_expired httl]
    simp [keysOf]
  rw [hswept, getElem?_swept]
  simp only [hpicked]
  cases c.entries[key]? with
  | none => simp
  | some e =>
    by_cases hage : e.age c.clock.unixMillis ≤ c.ttl.millis64
    · simp [Option.filter_some, hage, Nat.not_lt.2 hage]
    · simp [Option.filter_some, hage, Nat.not_le.1 hage]

theorem contains_optimize (httl : c.ttl.nanos ≠ 0) (hlimit : c.limit = 0) (key : String) :
    (optimize.runOn c).2.contains key = true ↔
      ∃ e, c.entries[key]? = some e ∧ e.age c.clock.unixMillis ≤ c.ttl.millis64 := by
  rw [contains_eq_isSome, getElem?_optimize httl hlimit]
  simp [Option.isSome_filter, Option.any_eq_true]

end Compared

/-! ## When nothing that matters is lost -/

/-- An age is within a span exactly if it is within the whole milliseconds of the span. -/
theorem le_nanos_iff (ttl : Duration) (age : Nat) :
    age * 1000000 ≤ ttl.nanos ↔ age ≤ ttl.millis :=
  (Nat.le_div_iff_mul_le (by decide)).symm

/-- The milliseconds that 64 bits hold of a span are all of them, or no less than any age. -/
def KeepsWhatMatters (ttl : Duration) : Prop :=
  ttl.millis < 2 ^ 64 ∨ ttl.millis64 = 2 ^ 64 - 1

theorem le_millis64_iff {ttl : Duration} (h : KeepsWhatMatters ttl) {age : Nat}
    (hage : age < 2 ^ 64) : age ≤ ttl.millis64 ↔ age ≤ ttl.millis := by
  unfold KeepsWhatMatters Duration.millis64 at *
  omega

theorem expiresExactly_of_keeps {ttl : Duration} (httl : ttl.nanos ≠ 0)
    (h : KeepsWhatMatters ttl) : ExpiresExactly ttl := by
  rintro V c rfl hlimit hclock key
  rw [getElem?_optimize httl hlimit]
  congr 1
  funext e
  have hage : e.age c.clock.unixMillis < 2 ^ 64 := Nat.lt_of_le_of_lt (Nat.sub_le _ _) hclock
  rw [decide_eq_decide, le_nanos_iff, le_millis64_iff h hage]

theorem leavesMore_of_keeps {ttl : Duration} (httl : ttl.nanos ≠ 0) (h : KeepsWhatMatters ttl) :
    LeavesMore ttl := by
  intro shorter hshorter hle V c hlimit hclock key hleft
  obtain ⟨e, he, hage⟩ :=
    (contains_optimize (c := { c with ttl := shorter }) hshorter hlimit key).1 hleft
  refine (contains_optimize (c := { c with ttl := ttl }) httl hlimit key).2 ⟨e, he, ?_⟩
  have hage64 : e.age c.clock.unixMillis < 2 ^ 64 := Nat.lt_of_le_of_lt (Nat.sub_le _ _) hclock
  refine (le_millis64_iff h hage64).2 ?_
  calc e.age c.clock.unixMillis ≤ shorter.millis64 := hage
    _ ≤ shorter.millis := Nat.mod_le _ _
    _ ≤ ttl.millis := Nat.div_le_div_right hle

/-! ## When something is lost -/

/-- A cache without a limit whose one entry has some age in milliseconds. -/
def aged (ttl : Duration) (age : Nat) : Cache Unit where
  entries := .ofList [("k", Entry.mk () 1 0)]
  ttl := ttl
  clock := .ofMillis age 0

theorem getElem?_aged (ttl : Duration) (age : Nat) :
    (aged ttl age).entries["k"]? = some (Entry.mk () 1 0) := by
  simp [aged]

theorem unixMillis_aged (ttl : Duration) (age : Nat) : (aged ttl age).clock.unixMillis = age := by
  simp [aged, Instant.ofMillis, Instant.unixMillis]

theorem contains_optimize_aged {ttl : Duration} (httl : ttl.nanos ≠ 0) (age : Nat) :
    (optimize.runOn (aged ttl age)).2.contains "k" = true ↔ age ≤ ttl.millis64 := by
  rw [contains_optimize httl rfl, getElem?_aged, unixMillis_aged]
  constructor
  · rintro ⟨e, he, hage⟩
    cases he
    exact hage
  · exact fun hage => ⟨_, rfl, hage⟩

/-- A millisecond past what is left of a span is an age, and not past the span. -/
theorem exists_lost {ttl : Duration} (h : ¬ KeepsWhatMatters ttl) :
    ttl.millis64 + 1 < 2 ^ 64 ∧ ttl.millis64 + 1 ≤ ttl.millis := by
  unfold KeepsWhatMatters Duration.millis64 at *
  omega

theorem keeps_of_expiresExactly {ttl : Duration} (httl : ttl.nanos ≠ 0) (h : ExpiresExactly ttl) :
    KeepsWhatMatters ttl := by
  by_contra hlost
  obtain ⟨hclock, hwithin⟩ := exists_lost hlost
  have hexact := h Unit (aged ttl (ttl.millis64 + 1)) rfl rfl (by rwa [unixMillis_aged]) "k"
  have hgone : ¬ (optimize.runOn (aged ttl (ttl.millis64 + 1))).2.contains "k" = true := by
    rw [contains_optimize_aged httl]
    omega
  refine hgone ?_
  rw [contains_eq_isSome, hexact, getElem?_aged, unixMillis_aged]
  have hage : (ttl.millis64 + 1) * 1000000 ≤ ttl.nanos := (le_nanos_iff _ _).2 hwithin
  simp [Option.filter_some, Entry.age, hage]

theorem keeps_of_leavesMore {ttl : Duration} (httl : ttl.nanos ≠ 0) (h : LeavesMore ttl) :
    KeepsWhatMatters ttl := by
  by_contra hlost
  obtain ⟨hclock, hwithin⟩ := exists_lost hlost
  -- The shorter span is the age itself, of which nothing is lost.
  let shorter : Duration := .ofMillis (ttl.millis64 + 1)
  have hshorter : shorter.nanos ≠ 0 := Nat.mul_ne_zero (Nat.succ_ne_zero _) (by decide)
  have hkept : shorter.millis64 = ttl.millis64 + 1 := by
    unfold Duration.millis64
    rw [Duration.millis_ofMillis]
    exact Nat.mod_eq_of_lt hclock
  have hleft := h shorter hshorter ((le_nanos_iff _ _).2 hwithin) Unit
    (aged shorter (ttl.millis64 + 1)) rfl (by rwa [unixMillis_aged]) "k"
    ((contains_optimize_aged hshorter _).2 (Nat.le_of_eq hkept.symm))
  exact absurd ((contains_optimize_aged httl _).1 hleft) (by omega)

/-- A cache without a limit keeps to its greatest age, whatever it holds and whatever the clock
shows, if and only if 64 bits hold the milliseconds of the greatest age or what they hold of them is
no less than any age.  In the same cases, and in no other, it leaves every entry that a shorter
greatest age would have left. -/
theorem expiresExactly_iff {ttl : Duration} (httl : ttl.nanos ≠ 0) :
    (ExpiresExactly ttl ↔ ttl.millis < 2 ^ 64 ∨ ttl.millis64 = 2 ^ 64 - 1) ∧
      (LeavesMore ttl ↔ ttl.millis < 2 ^ 64 ∨ ttl.millis64 = 2 ^ 64 - 1) :=
  ⟨⟨keeps_of_expiresExactly httl, expiresExactly_of_keeps httl⟩,
    ⟨keeps_of_leavesMore httl, leavesMore_of_keeps httl⟩⟩

/-- The longest greatest age in whole seconds that a cache keeps to, and the next one, of which a
cache with such settings does not know more than 384 milliseconds. -/
theorem expiresExactly_iff_configured :
    (Duration.ofSeconds 18446744073709551).nanos ≠ 0 ∧
      ExpiresExactly (.ofSeconds 18446744073709551) ∧
      LeavesMore (.ofSeconds 18446744073709551) ∧
      ¬ ExpiresExactly (.ofSeconds 18446744073709552) := by
  have hlongest : (Duration.ofSeconds 18446744073709551).nanos ≠ 0 := by decide
  have hnext : (Duration.ofSeconds 18446744073709552).nanos ≠ 0 := by decide
  obtain ⟨hexact, hmore⟩ := expiresExactly_iff hlongest
  exact ⟨hlongest, hexact.2 (by decide), hmore.2 (by decide),
    fun h => absurd ((expiresExactly_iff hnext).1.1 h) (by decide)⟩

/-- With a greatest age of some 584 million years an entry goes after less than half a second,
although one second would have left it. -/
theorem optimize_forgets_years :
    let c (seconds : Nat) : Cache Nat := {
      CacheConfig.cache { ttl := seconds } with
      entries := .ofList [("k", Entry.mk 7 1 1000)]
      clock := .ofMillis 1385 0 }
    (c 18446744073709552).limit = 0 ∧ (c 18446744073709552).clock.unixMillis = 1385 ∧
      385 * 1000000 ≤ (c 18446744073709552).ttl.nanos ∧
      (optimize.runOn (c 18446744073709552)).2.entries["k"]? = none ∧
      (optimize.runOn (c 1)).2.entries["k"]? = some (Entry.mk 7 1 1000) := by
  intro c
  have hentry : ∀ seconds, (c seconds).entries["k"]? = some (Entry.mk 7 1 1000) := by
    intro seconds
    simp [c]
  refine ⟨rfl, by decide, by decide, ?_, ?_⟩
  · rw [getElem?_optimize (by decide) rfl, hentry]
    decide
  · rw [getElem?_optimize (by decide) rfl, hentry]
    decide

end SealedStore.Cache
