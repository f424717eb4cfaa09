import SealedStore.Cache.Entry
import Std.Data.ExtTreeMap

set_option autoImplicit false

/-!
# Entries that give way

Which entries of a snapshot go when a cache is optimized: those past their greatest age and, when
the others are too many, those that rank lowest among these.
-/

namespace SealedStore.Cache

variable {V : Type}

/-- Splits a snapshot into the entries up to a greatest age in milliseconds and those past it. -/
def splitExpired (snapshot : List (String × Entry V)) (ttl now : Nat) :
    List (String × Entry V) × List (String × Entry V) :=
  snapshot.partition fun e => e.2.age now ≤ ttl

/-- Puts an entry in its place among entries that go up in rank. -/
def insertRanked (e : String × Entry V) : List (String × Entry V) → List (String × Entry V)
  | [] => [e]
  | first :: rest =>
    if outranks first e then e :: first :: rest else first :: insertRanked e rest

/-- The entries seen so far, ranked for a bounded number of places. -/
structure Ranking (V : Type) where
  /-- The entries that hold a place, the lowest first. -/
  best : List (String × Entry V) := []
  /-- The entries that were pushed out. -/
  victims : List (String × Entry V) := []

/-- Ranks one more entry; when the places do not suffice, the lowest entry is pushed out. -/
def Ranking.add (places : Nat) (r : Ranking V) (e : String × Entry V) : Ranking V :=
  let best := insertRanked e r.best
  if places < best.length then { best := best.drop 1, victims := r.victims ++ best.take 1 }
  else { r with best }

/-- The entries outside those that rank highest, of which so many are kept. -/
def lowestRanked (entries : List (String × Entry V)) (keep : Nat) : List (String × Entry V) :=
  if entries.length ≤ keep then [] else (entries.foldl (Ranking.add keep) {}).victims

/-- Removes the entry of a key that is still there, and counts it. -/
def removeCounted (left : Std.ExtTreeMap String (Entry V) × Nat) (e : String × Entry V) :
    Std.ExtTreeMap String (Entry V) × Nat :=
  if left.1.contains e.1 then (left.1.erase e.1, left.2 + 1) else left

/-- Removes the picked entries that are still there, and counts them. -/
def removePicked (entries : Std.ExtTreeMap String (Entry V)) (picked : List (String × Entry V)) :
    Std.ExtTreeMap String (Entry V) × Nat :=
  picked.foldl removeCounted (entries, 0)

end SealedStore.Cache
