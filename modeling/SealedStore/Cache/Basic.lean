import SealedStore.Backend.Action
import SealedStore.Cache.Eviction
import SealedStore.Time.Clock

set_option autoImplicit false

/-!
# Caches

A cache keeps computed values in front of a costly producer.  Lookups never look at the age of an
entry; entries that are too old or too many go when the cache is optimized.
-/

namespace SealedStore

/-- A cache. -/
structure Cache (V : Type) where
  /-- The entries by key. -/
  entries : Std.ExtTreeMap String (Cache.Entry V) := ∅
  /-- The number of entries above which some are evicted; zero for no limit. -/
  limit : Nat := 0
  /-- The greatest age of an entry; zero for no limit. -/
  ttl : Duration := ⟨0⟩
  /-- The producer of values that are fetched. -/
  producer : Option (String → Answer V) := none
  /-- What was counted so far. -/
  tally : Cache.Tally := {}
  /-- What the wall clock shows. -/
  clock : Instant := ⟨0⟩

namespace Cache

variable {V : Type}

/-- The number of entries. -/
def size (c : Cache V) : Nat := c.entries.size

/-- Whether there is an entry under a key. -/
def contains (c : Cache V) (key : String) : Bool := c.entries.contains key

/-- How often the entry of a key was used; asking is no use. -/
def hitCount? (c : Cache V) (key : String) : Option Nat := c.entries[key]?.map Entry.count

/-- The cache some milliseconds later. -/
def later (c : Cache V) (millis : Nat) : Cache V :=
  { c with clock := c.clock.later (.ofMillis millis) }

/-! ## Lookups -/

/-- Puts a value in place, as new. -/
def publish (c : Cache V) (key : String) (value : V) : Cache V :=
  { c with entries := c.entries.insert key { value, populated := c.clock.unixMillis } }

/-- The value of a key, which counts as a hit or a miss. -/
def lookup (key : String) : Action (Cache V) (Option V) := .update fun c =>
  match c.entries[key]? with
  | some e =>
    (some e.value,
      { c with
        entries := c.entries.insert key e.used
        tally := { c.tally with hits := c.tally.hits + 1 } })
  | none => (none, { c with tally := { c.tally with misses := c.tally.misses + 1 } })

/-- Overwrites the entry of a key. -/
def set (key : String) (value : V) : Action (Cache V) V := .update fun c =>
  (value, c.publish key value)

/-- Overwrites the entry of a key with a produced value, unless the producer fails. -/
def setWith (key : String) (produce : String → Action (Cache V) V) : Action (Cache V) V := do
  set key (← produce key)

/-- The value of a key; on a miss it is produced and put in place, unless the producer fails. -/
def getOrCompute (key : String) (produce : String → Action (Cache V) V) :
    Action (Cache V) V := do
  match ← lookup key with
  | some value => return value
  | none => setWith key produce

/-- The value of a key, on a miss from the producer of the cache. -/
def fetch (key : String) : Action (Cache V) V := do
  let c ← get
  match c.producer with
  | some produce => getOrCompute key fun key => .ofAnswer (produce key)
  | none =>
    match ← lookup key with
    | some value => return value
    | none => throw (.noProducer key)

/-- The value of a key; on a miss the given one is put in place. -/
def getOrInsert (key : String) (value : V) : Action (Cache V) V := do
  match ← lookup key with
  | some cached => return cached
  | none => set key value

/-! ## Removals -/

/-- Removes an entry that is there. -/
def remove (key : String) : Action (Cache V) Unit := .attempt fun c =>
  if c.contains key then .ok ((), { c with entries := c.entries.erase key })
  else .error (.notFound key)

/-- Removes all entries; what was counted stays. -/
def clear : Action (Cache V) Unit := .update fun c => ((), { c with entries := ∅ })

/-- The entries of a snapshot up to the greatest age and those past it. -/
def split (c : Cache V) (snapshot : List (String × Entry V)) :
    List (String × Entry V) × List (String × Entry V) :=
  if c.ttl.nanos = 0 then (snapshot, [])
  else splitExpired snapshot c.ttl.millis64 c.clock.unixMillis

/-- The entries of a snapshot that are past the greatest age. -/
def expired (c : Cache V) (snapshot : List (String × Entry V)) : List (String × Entry V) :=
  (c.split snapshot).2

/-- The entries of a snapshot that are too many, although not past the greatest age. -/
def victims (c : Cache V) (snapshot : List (String × Entry V)) : List (String × Entry V) :=
  let live := (c.split snapshot).1
  if c.limit ≠ 0 ∧ c.limit < live.length then lowestRanked live (retained c.limit) else []

/-- Removes the entries of a snapshot that are too old or too many, and says whether any went.
Nothing comes between the snapshot and the removals, so that an entry which is still there is the
one that was ranked. -/
def sweep (snapshot : List (String × Entry V)) : Action (Cache V) Bool := .update fun c =>
  let expired := c.expired snapshot
  let victims := c.victims snapshot
  if expired.isEmpty && victims.isEmpty then (false, c)
  else
    let unexpired := removePicked c.entries expired
    let kept := removePicked unexpired.1 victims
    (0 < unexpired.2 + kept.2,
      { c with
        entries := kept.1
        tally := { c.tally with
          expirations := c.tally.expirations + unexpired.2
          evictions := c.tally.evictions + kept.2 } })

/-- Removes the entries that are too old and then those that are too many, and says whether there
were any. -/
def optimize : Action (Cache V) Bool := do
  sweep (← get).entries.toList

end Cache

end SealedStore
