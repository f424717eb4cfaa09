import SealedStore.Cache.Basic

set_option autoImplicit false

/-!
# Upkeep of a cache

A cache can be optimized at regular intervals while time goes by.  Each pass sees the clock of its
moment.  Upkeep that is begun beside another does not end it; all of them are timed by one timer,
which runs as long as the one begun last goes on.
-/

namespace SealedStore.Cache

/-- Regular passes over a cache. -/
structure Upkeep where
  /-- The milliseconds from one pass to the next. -/
  interval : Nat
  /-- The milliseconds since the last pass. -/
  waited : Nat := 0
  deriving DecidableEq, Repr, Inhabited

namespace Upkeep

/-- Whether it is time for a pass. -/
def isDue (u : Upkeep) : Bool := u.interval ≤ u.waited

/-- One millisecond later. -/
def later (u : Upkeep) : Upkeep := { u with waited := u.waited + 1 }

/-- After a pass, if it was time for one. -/
def rested (u : Upkeep) : Upkeep := if u.isDue then { u with waited := 0 } else u

end Upkeep

/-- A cache with or without upkeep. -/
structure Attended (V : Type) where
  /-- The cache. -/
  cache : Cache V
  /-- The upkeep that was begun last, unless it was ended. -/
  upkeep : Option Upkeep := none
  /-- The upkeep that was begun before and never ended. -/
  earlier : List Upkeep := []

namespace Attended

variable {V : Type}

/-- All upkeep that goes on. -/
def all (a : Attended V) : List Upkeep := a.upkeep.toList ++ a.earlier

/-- Makes a pass over the cache if it is time for one.  Further passes at the same moment would find
nothing to remove. -/
def pass (a : Attended V) : Attended V where
  cache := if a.all.any Upkeep.isDue then (optimize.runOn a.cache).2 else a.cache
  upkeep := a.upkeep.map Upkeep.rested
  earlier := a.earlier.map Upkeep.rested

/-- Begins upkeep; the first pass comes after one interval. -/
def attend (a : Attended V) (interval : Nat) : Attended V :=
  pass { a with upkeep := some { interval }, earlier := a.all }

/-- Ends the upkeep that was begun last; the timer stands still until some is begun again. -/
def leave (a : Attended V) : Attended V := { a with upkeep := none }

/-- One millisecond later, by the clock and by the timer. -/
def tick (a : Attended V) : Attended V :=
  pass {
    cache := a.cache.later 1
    upkeep := a.upkeep.map Upkeep.later
    earlier := a.earlier.map Upkeep.later }

/-- So many milliseconds later, by the clock and by the timer. -/
def ticks : (millis : Nat) → Attended V → Attended V
  | 0, a => a
  | millis + 1, a => ticks millis a.tick

/-- Lets time go by. -/
def advance (a : Attended V) (millis : Nat) : Attended V :=
  if a.upkeep.isSome then ticks millis a else { a with cache := a.cache.later millis }

end Attended

end SealedStore.Cache
