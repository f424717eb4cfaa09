import SealedStore.Backend.Basic

set_option autoImplicit false

/-!
# Unreliable backends

A backend that fails, slows down or loses a key on demand, for rehearsing what a store does then.
Slow reads are timed by a timer of their own, which only waiting moves.  A read that is given up
goes on whenever its caller waits for something else.
-/

namespace SealedStore

/-- The operations that a trouble can wait for.  Asking whether a key is there and giving it a
lifetime are left alone. -/
inductive Call
  | get | getMany | set | delete | contains | lifetime | expire | scan | incr | field | fields
  | commit
  deriving DecidableEq, Repr, Inhabited

/-- Something that goes wrong. -/
inductive Trouble
  /-- The operation answers an error in the place of its result. -/
  | failure (on : Call) (error : StoreError)
  /-- The key that is asked for its lifetime vanishes first. -/
  | vanish
  deriving DecidableEq, Repr, Inhabited

/-- A read that was given up. -/
structure LateRead where
  /-- What the timer shows when it reaches the backend. -/
  due : Nat
  /-- The key that is read. -/
  key : String
  deriving DecidableEq, Repr, Inhabited

/-- A backend with trouble ahead. -/
structure Unreliable (β : Type) where
  /-- The backend itself. -/
  inner : β
  /-- The family that it passes itself off as. -/
  family : Family
  /-- What goes wrong, in order; the first waits for its operation. -/
  troubles : List Trouble := []
  /-- How many milliseconds a read of bytes takes. -/
  delay : Nat := 0
  /-- What the timer shows, in milliseconds. -/
  timer : Nat := 0
  /-- The keys of reads that were given up before they began. -/
  waiting : List String := []
  /-- The reads that were given up after they began. -/
  late : List LateRead := []

namespace Unreliable

variable {β α : Type} [Backend β]

/-- An operation of the backend itself. -/
def direct (a : Action β α) : Action (Unreliable β) α :=
  a.within Unreliable.inner fun inner u => { u with inner }

/-- An operation that the first trouble may wait for. -/
def guarded (call : Call) (a : Action β α) : Action (Unreliable β) α := do
  let u ← get
  match u.troubles with
  | .failure on error :: rest =>
    if on = call then do
      set { u with troubles := rest }
      throw error
    else direct a
  | _ => direct a

/-- Asking for a lifetime, before which the key may vanish. -/
def lifetime (now : Nat) (key : String) : Action (Unreliable β) Lifetime := do
  let u ← get
  if let .vanish :: rest := u.troubles then
    set { u with troubles := rest }
    let _ ← direct (Backend.delete now [key])
  guarded .lifetime (Backend.lifetime now key)

/-! ## Reads that take their time -/

/-- The moment at which a read reaches the backend. -/
def read (now : Nat) (key : String) : Action (Unreliable β) (Option Bytes) :=
  guarded .get (Backend.get now key)

/-- Carries out late reads; nobody learns what they answer. -/
def finish (now : Nat) (reads : List LateRead) : Action (Unreliable β) Unit :=
  reads.forM fun r => do
    let _ ← (read now r.key).observe

/-- Begins the reads that have not begun and carries out those that are due. -/
def settle (now : Nat) : Action (Unreliable β) Unit := do
  let u ← get
  let late := u.late ++ u.waiting.map fun key => ⟨u.timer + u.delay, key⟩
  set { u with waiting := [], late := late.filter fun r => u.timer < r.due }
  finish now (late.filter fun r => r.due ≤ u.timer)

/-- Waits for so many milliseconds.  Late reads that are due before the end take place meanwhile, in
the order in which they are due. -/
def wait (now millis : Nat) : Action (Unreliable β) Unit := do
  if millis = 0 then return
  settle now
  let u ← get
  let stop := u.timer + millis
  set { u with timer := stop, late := u.late.filter fun r => stop ≤ r.due }
  finish now ((u.late.filter fun r => r.due < stop).mergeSort fun r s => r.due ≤ s.due)

/-- A read that takes its time. -/
def slowRead (now : Nat) (key : String) : Action (Unreliable β) (Option Bytes) := do
  wait now (← get).delay
  read now key

/-- A read with a deadline.  It begins after all reads that were given up before, and with no time
at all it does not even begin. -/
def readBefore (now deadline : Nat) (key : String) :
    Action (Unreliable β) (Option (Option Bytes)) := do
  if deadline = 0 then
    modify fun u => { u with waiting := u.waiting ++ [key] }
    return none
  settle now
  let u ← get
  if u.delay < deadline then
    wait now u.delay
    settle now
    some <$> read now key
  else
    wait now deadline
    modify fun after => { after with late := after.late ++ [⟨u.timer + u.delay, key⟩] }
    return none

end Unreliable

instance {β : Type} [Backend β] : Backend (Unreliable β) where
  family := Unreliable.family
  get := Unreliable.slowRead
  getBefore := Unreliable.readBefore
  settle := Unreliable.settle
  getMany now keys := Unreliable.guarded .getMany (Backend.getMany now keys)
  set now key value ttl := Unreliable.guarded .set (Backend.set now key value ttl)
  delete now keys := Unreliable.guarded .delete (Backend.delete now keys)
  contains now key := Unreliable.direct (Backend.contains now key)
  lifetime := Unreliable.lifetime
  expire now key seconds := Unreliable.direct (Backend.expire now key seconds)
  scan now pattern := Unreliable.guarded .scan (Backend.scan now pattern)
  incr now key := Unreliable.guarded .incr (Backend.incr now key)
  field now key name := Unreliable.guarded .field (Backend.field now key name)
  fields now key := Unreliable.guarded .fields (Backend.fields now key)
  commit now tx := Unreliable.guarded .commit (Backend.commit now tx)
  close := Unreliable.direct Backend.close

end SealedStore
