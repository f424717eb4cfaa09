import SealedStore.Keyspace.Command
import SealedStore.Text.Integer

set_option autoImplicit false

/-!
# Requests

What a client sends to a server that keeps keys, and the words of each request.
-/

namespace SealedStore.Server

/-- A request. -/
inductive Request
  /-- Asks for the bytes of a key. -/
  | get (key : String)
  /-- Asks for the bytes of several keys. -/
  | getMany (keys : List String)
  /-- Stores bytes, with or without a number of seconds to live. -/
  | set (key : String) (value : Bytes) (seconds : Option Nat)
  /-- Removes keys. -/
  | delete (keys : List String)
  /-- Asks whether a key is there. -/
  | contains (key : String)
  /-- Asks for the remaining lifetime of a key. -/
  | lifetime (key : String)
  /-- Gives a key a number of seconds to live. -/
  | expire (key : String) (seconds : Nat)
  /-- Asks for the page of matching keys at a cursor. -/
  | scan (cursor : Nat) (pattern : String)
  /-- Adds one to a counter. -/
  | incr (key : String)
  /-- Asks for a field of a hash. -/
  | field (key name : String)
  /-- Asks for all fields of a hash. -/
  | fields (key : String)
  /-- Adds fields to a hash. -/
  | setFields (key : String) (fields : List (String × Bytes))
  /-- Asks for the type of a key. -/
  | type (key : String)
  /-- From here on, changes of the keys by others are noticed. -/
  | watch (keys : List String)
  /-- Changes of keys are of no concern any more. -/
  | unwatch
  /-- Begins a queue of requests. -/
  | multi
  /-- Carries out the queue, unless a watched key was changed. -/
  | exec
  deriving DecidableEq, Repr, Inhabited

namespace Request

/-- The keys that a scan asks for at a time. -/
def pageSize : Nat := 200

/-- The greatest number of seconds that is sent: a server refuses one that leaves 64 bits when it is
counted in milliseconds. -/
def greatestExpiry : Nat := 0x7FFFFFFFFFFFFFFF / 1000 / 2

/-- A number of seconds as it is sent. -/
def clamp (seconds : Nat) : Nat := min seconds greatestExpiry

/-- A number as a word. -/
def number (n : Nat) : Bytes := Utf8.encode (Integer.render n)

/-- The words of a request. -/
def words : Request → List Bytes
  | .get key => ["GET", key].map Utf8.encode
  | .getMany keys => ("MGET" :: keys).map Utf8.encode
  | .set key value none => [Utf8.encode "SET", Utf8.encode key, value]
  | .set key value (some seconds) =>
    [Utf8.encode "SET", Utf8.encode key, value, Utf8.encode "EX", number seconds]
  | .delete keys => ("DEL" :: keys).map Utf8.encode
  | .contains key => ["EXISTS", key].map Utf8.encode
  | .lifetime key => ["TTL", key].map Utf8.encode
  | .expire key seconds => [Utf8.encode "EXPIRE", Utf8.encode key, number seconds]
  | .scan cursor pattern =>
    [Utf8.encode "SCAN", number cursor, Utf8.encode "MATCH", Utf8.encode pattern,
      Utf8.encode "COUNT", number pageSize]
  | .incr key => ["INCR", key].map Utf8.encode
  | .field key name => ["HGET", key, name].map Utf8.encode
  | .fields key => ["HGETALL", key].map Utf8.encode
  | .setFields key members =>
    Utf8.encode "HSET" :: Utf8.encode key ::
      members.flatMap fun (name, value) => [Utf8.encode name, value]
  | .type key => ["TYPE", key].map Utf8.encode
  | .watch keys => ("WATCH" :: keys).map Utf8.encode
  | .unwatch => [Utf8.encode "UNWATCH"]
  | .multi => [Utf8.encode "MULTI"]
  | .exec => [Utf8.encode "EXEC"]

/-- The request for a staged command. -/
def ofCommand : Command → Request
  | .set key value ttl => .set key value (ttl.map clamp)
  | .hset key members => .setFields key members
  | .del key => .delete [key]

end Request

end SealedStore.Server
