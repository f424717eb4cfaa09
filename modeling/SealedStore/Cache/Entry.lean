import SealedStore.Number.Binary64

set_option autoImplicit false

/-!
# Cache entries and statistics

What a cache holds under a key, the order in which entries give way, and what a cache counts.
-/

namespace SealedStore.Cache

/-- A cached value. -/
structure Entry (V : Type) where
  /-- The value. -/
  value : V
  /-- How often the entry was asked for, the first time included. -/
  count : Nat := 1
  /-- The millisecond since 1970 at which the value was put in. -/
  populated : Nat
  deriving DecidableEq, Repr, Inhabited

namespace Entry

variable {V : Type}

/-- The entry after one more use; its age goes on. -/
def used (e : Entry V) : Entry V := { e with count := e.count + 1 }

/-- The milliseconds since the value was put in; none if the clock went back. -/
def age (e : Entry V) (now : Nat) : Nat := now - e.populated

/-- How much an entry is worth keeping: often used and young. -/
def score (e : Entry V) : Nat := e.count * e.populated

end Entry

/-- Whether the first of two keyed entries is kept before the second: the higher score, then the
greater key. -/
def outranks {V : Type} (a b : String × Entry V) : Bool :=
  b.2.score < a.2.score || (a.2.score = b.2.score && b.1 ≤ a.1)

/-- How many entries are kept when there are more than the limit: a fifth above it. -/
def retained (limit : Nat) : Nat := limit + limit / 5

/-- What a cache counts. -/
structure Tally where
  /-- Lookups that found an entry. -/
  hits : Nat := 0
  /-- Lookups that did not. -/
  misses : Nat := 0
  /-- Entries removed because there were too many. -/
  evictions : Nat := 0
  /-- Entries removed because of their age. -/
  expirations : Nat := 0
  deriving DecidableEq, Repr, Inhabited

/-- The share of lookups that found an entry; zero before the first lookup. -/
def Tally.hitRate (t : Tally) : Binary64 :=
  ((Binary64.ofInt t.hits).div? (Binary64.ofInt (t.hits + t.misses))).getD (.zero false)

end SealedStore.Cache
