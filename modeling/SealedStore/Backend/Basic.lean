import SealedStore.Backend.Action
import SealedStore.Keyspace.Basic

set_option autoImplicit false

/-!
# Backends

What a store needs of the service that keeps its keys, and the keyspace in memory as one such
service.  Every operation is told the time in milliseconds since 1970.
-/

namespace SealedStore

/-- The family of a backing service. -/
inductive Family
  | redis | memory
  deriving DecidableEq, Repr, Inhabited

/-- The name of a family. -/
def Family.name : Family → String
  | .redis => "Redis"
  | .memory => "Memory"

/-- A service that keeps keys with values of bytes or of named fields. -/
class Backend (β : Type) where
  /-- The family that schemes are made for. -/
  family : β → Family
  /-- The bytes of a key. -/
  get (now : Nat) (key : String) : Action β (Option Bytes)
  /-- The bytes of a key, or nothing if they are not there before a deadline in milliseconds.  A
  read that comes too late is not called off. -/
  getBefore (now deadline : Nat) (key : String) : Action β (Option (Option Bytes)) :=
    if deadline = 0 then pure none else some <$> get now key
  /-- Lets reads go on that came too late. -/
  settle (now : Nat) : Action β Unit := pure ()
  /-- The bytes of several keys; hashes and missing keys hold none. -/
  getMany (now : Nat) (keys : List String) : Action β (List (Option Bytes))
  /-- Stores bytes, with or without a number of seconds to live. -/
  set (now : Nat) (key : String) (value : Bytes) (ttl : Option Nat) : Action β Unit
  /-- Removes keys and answers how many were there. -/
  delete (now : Nat) (keys : List String) : Action β Nat
  /-- Whether a key is there. -/
  contains (now : Nat) (key : String) : Action β Bool
  /-- The remaining lifetime of a key. -/
  lifetime (now : Nat) (key : String) : Action β Lifetime
  /-- Gives a key a number of seconds to live, and answers whether it is there. -/
  expire (now : Nat) (key : String) (seconds : Nat) : Action β Bool
  /-- The keys that match a glob pattern. -/
  scan (now : Nat) (pattern : String) : Action β (List String)
  /-- Adds one to a counter, which begins at zero. -/
  incr (now : Nat) (key : String) : Action β Int
  /-- A field of a hash. -/
  field (now : Nat) (key name : String) : Action β (Option Bytes)
  /-- All fields of a hash. -/
  fields (now : Nat) (key : String) : Action β Fields
  /-- Carries out every command of a transaction or none. -/
  commit (now : Nat) (tx : Transaction) : Action β Unit
  /-- Releases what the service holds. -/
  close : Action β Unit

instance : Backend Keyspace where
  family _ := .memory
  get now key := .query fun s => s.get now key
  getMany now keys := .query fun s => .ok (s.getMany now keys)
  set now key value ttl := .update fun s => ((), s.set now key value ttl)
  delete now keys := .update fun s => s.delete now keys
  contains now key := .query fun s => .ok (s.contains now key)
  lifetime now key := .query fun s => .ok (s.lifetime now key)
  expire now key seconds := .update fun s => s.expire now key seconds
  scan now pattern := .query fun s => .ok (s.scan now pattern)
  incr now key := .attempt fun s => s.incr now key
  field now key name := .query fun s => s.field now key name
  fields now key := .query fun s => s.fields now key
  commit now tx := .attempt fun s => (s.commit now tx).map fun after => ((), after)
  close := .update fun _ => ((), {})

end SealedStore
