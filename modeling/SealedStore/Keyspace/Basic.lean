import SealedStore.Keyspace.Command
import SealedStore.Text.Glob
import SealedStore.Text.Integer
import SealedStore.Time.Clock
import Std.Data.ExtTreeMap

set_option autoImplicit false

/-!
# Keyspaces

A keyspace maps keys to slots of bytes or of named fields, with or without a deadline.  A slot past
its deadline stays where it is until something removes it, and no read sees it.  All times are in
milliseconds since 1970.
-/

namespace SealedStore

/-- The named fields of a hash. -/
abbrev Fields := Std.ExtTreeMap String Bytes

/-- What a slot holds. -/
inductive Datum
  /-- Plain bytes. -/
  | string (value : Bytes)
  /-- Named fields. -/
  | hash (fields : Fields)
  deriving DecidableEq

/-- The shape of a datum. -/
def Datum.shape : Datum → Shape
  | .string _ => .string
  | .hash _ => .hash

/-- A datum with its deadline. -/
structure Slot where
  /-- What the slot holds. -/
  datum : Datum
  /-- The millisecond from which on the slot counts as gone; `none` for never. -/
  deadline : Option Nat := none
  deriving DecidableEq

/-- The deadline a number of seconds after now; it does not go past the end of time. -/
def deadlineAfter (now seconds : Nat) : Nat := min (now + seconds * 1000) endOfTime

namespace Slot

/-- Whether the deadline has come. -/
def isExpired (s : Slot) (now : Nat) : Bool :=
  match s.deadline with
  | some d => d ≤ now
  | none => false

/-- The remaining lifetime of a slot, in seconds rounded up. -/
def lifetime (s : Slot) (now : Nat) : Lifetime :=
  match s.deadline with
  | some d => .seconds ((d - now + 999) / 1000)
  | none => .persistent

/-- A slot of plain bytes that lives for a number of seconds, or for ever. -/
def ofBytes (value : Bytes) (now : Nat) (ttl : Option Nat) : Slot :=
  ⟨.string value, ttl.map (deadlineAfter now)⟩

end Slot

/-- A keyspace. -/
structure Keyspace where
  /-- The slots by key, those past their deadline included. -/
  slots : Std.ExtTreeMap String Slot := ∅
  deriving DecidableEq

namespace Keyspace

instance : Inhabited Keyspace := ⟨{}⟩

/-- The slot of a key, as long as its deadline has not come. -/
def live? (s : Keyspace) (now : Nat) (key : String) : Option Slot :=
  s.slots[key]?.filter fun slot => !slot.isExpired now

/-- The shape of the live value of a key. -/
def shape? (s : Keyspace) (now : Nat) (key : String) : Option Shape :=
  (s.live? now key).map fun slot => slot.datum.shape

/-- Puts a slot in place. -/
def put (s : Keyspace) (key : String) (slot : Slot) : Keyspace := ⟨s.slots.insert key slot⟩

/-- Takes a slot away. -/
def drop (s : Keyspace) (key : String) : Keyspace := ⟨s.slots.erase key⟩

/-! ## Reading -/

/-- The bytes of a key; a hash is of the wrong type. -/
def get (s : Keyspace) (now : Nat) (key : String) : Answer (Option Bytes) :=
  match (s.live? now key).map Slot.datum with
  | some (.string value) => .ok (some value)
  | some (.hash _) => .error (.wrongType key)
  | none => .ok none

/-- The bytes of a key, `none` for a hash too. -/
def bytes? (s : Keyspace) (now : Nat) (key : String) : Option Bytes :=
  match (s.live? now key).map Slot.datum with
  | some (.string value) => some value
  | _ => none

/-- The bytes of several keys, `none` for those that hold none. -/
def getMany (s : Keyspace) (now : Nat) (keys : List String) : List (Option Bytes) :=
  keys.map (s.bytes? now)

/-- Whether a key is there. -/
def contains (s : Keyspace) (now : Nat) (key : String) : Bool := (s.live? now key).isSome

/-- The remaining lifetime of a key. -/
def lifetime (s : Keyspace) (now : Nat) (key : String) : Lifetime :=
  match s.live? now key with
  | some slot => slot.lifetime now
  | none => .missing

/-- The live keys that match a glob pattern, in order. -/
def scan (s : Keyspace) (now : Nat) (pattern : String) : List String :=
  s.slots.keys.filter fun key => s.contains now key && Glob.accepts pattern key

/-- The fields of a key that is not there, or that holds a hash. -/
def fields (s : Keyspace) (now : Nat) (key : String) : Answer Fields :=
  match (s.live? now key).map Slot.datum with
  | some (.hash fields) => .ok fields
  | some (.string _) => .error (.wrongType key)
  | none => .ok ∅

/-- A field of a hash. -/
def field (s : Keyspace) (now : Nat) (key name : String) : Answer (Option Bytes) :=
  (s.fields now key).map fun fields => fields[name]?

/-- The number of live keys. -/
def size (s : Keyspace) (now : Nat) : Nat := (s.slots.keys.filter (s.contains now)).length

/-! ## Writing -/

/-- Stores plain bytes, whatever the key held. -/
def set (s : Keyspace) (now : Nat) (key : String) (value : Bytes) (ttl : Option Nat) : Keyspace :=
  s.put key (.ofBytes value now ttl)

/-- Removes keys and counts those that were live. -/
def delete (s : Keyspace) (now : Nat) : List String → Nat × Keyspace
  | [] => (0, s)
  | key :: rest =>
    let (n, after) := (s.drop key).delete now rest
    (n + (if s.contains now key then 1 else 0), after)

/-- Gives a live key a new deadline and says whether there was one. -/
def expire (s : Keyspace) (now : Nat) (key : String) (seconds : Nat) : Bool × Keyspace :=
  match s.live? now key with
  | some slot => (true, s.put key { slot with deadline := some (deadlineAfter now seconds) })
  | none => (false, s)

/-- The integer that a live key holds, with its deadline; a key that is not there counts as zero. -/
def counter (s : Keyspace) (now : Nat) (key : String) : Answer (Int × Option Nat) :=
  match s.live? now key with
  | some ⟨.string raw, deadline⟩ =>
    match (Utf8.decode? raw).bind (Integer.signed? Integer.least64 Integer.greatest64) with
    | some i => .ok (i, deadline)
    | none => .error (.wrongType s!"{key} is not an integer")
  | some ⟨.hash _, _⟩ => .error (.wrongType key)
  | none => .ok (0, none)

/-- Adds one to a counter and keeps its deadline. -/
def incr (s : Keyspace) (now : Nat) (key : String) : Answer (Int × Keyspace) :=
  match s.counter now key with
  | .error e => .error e
  | .ok (i, deadline) =>
    if i < Integer.greatest64 then
      .ok (i + 1, s.put key ⟨.string (Utf8.encode (Integer.render (i + 1))), deadline⟩)
    else .error (.wrongType s!"{key} would overflow")

/-- Removes the slots whose deadline has come and counts them. -/
def cleanup (s : Keyspace) (now : Nat) : Nat × Keyspace :=
  let kept := s.slots.filter fun _ slot => !slot.isExpired now
  (s.slots.size - kept.size, ⟨kept⟩)

/-! ## Committing -/

/-- Carries out one command.  Fields are added to a live hash, which keeps its deadline; on any key
that is not live they begin a new hash. -/
def apply (s : Keyspace) (now : Nat) : Command → Keyspace
  | .set key value ttl => s.set now key value ttl
  | .hset key fields =>
    match s.live? now key with
    | none => s.put key ⟨.hash (Std.ExtTreeMap.insertMany ∅ fields), none⟩
    | some ⟨.hash old, deadline⟩ => s.put key ⟨.hash (old.insertMany fields), deadline⟩
    | some ⟨.string _, _⟩ => s
  | .del key => s.drop key

/-- Carries out all commands of a transaction, or none if one of them would be refused. -/
def commit (s : Keyspace) (now : Nat) (tx : Transaction) : Answer Keyspace :=
  match tx.check (s.shape? now) with
  | .error e => .error e
  | .ok () => .ok (tx.foldl (fun s c => s.apply now c) s)

/-! ## What a write leaves alone -/

@[simp] theorem live?_put_self (s : Keyspace) (now : Nat) (key : String) (slot : Slot) :
    (s.put key slot).live? now key = if slot.isExpired now then none else some slot := by
  cases h : slot.isExpired now <;> simp [live?, put, Option.filter, h]

theorem live?_put_of_ne (s : Keyspace) (now : Nat) {key other : String} (slot : Slot)
    (h : key ≠ other) : (s.put key slot).live? now other = s.live? now other := by
  simp [live?, put, Std.ExtTreeMap.getElem?_insert, h]

@[simp] theorem live?_drop_self (s : Keyspace) (now : Nat) (key : String) :
    (s.drop key).live? now key = none := by
  simp [live?, drop]

theorem live?_drop_of_ne (s : Keyspace) (now : Nat) {key other : String} (h : key ≠ other) :
    (s.drop key).live? now other = s.live? now other := by
  simp [live?, drop, Std.ExtTreeMap.getElem?_erase, h]

end Keyspace

end SealedStore
