import SealedStore.Error
import SealedStore.Text.Utf8

set_option autoImplicit false

/-!
# Commands and transactions

Writes that are staged to be committed together, and the check that none of them will be refused.
The check follows the shape of every key through the staged commands, so a commit is all or
nothing.
-/

namespace SealedStore

/-- The remaining lifetime of a key. -/
inductive Lifetime
  /-- The key is not there. -/
  | missing
  /-- The key does not expire. -/
  | persistent
  /-- The key expires in so many seconds. -/
  | seconds (n : Nat)
  deriving DecidableEq, Repr, Inhabited

/-- Reads the reply of a server that is asked for a lifetime: `-2` for a key that is not there, any
other negative number for one that does not expire. -/
def Lifetime.ofReply (reply : Int) : Lifetime :=
  if reply = -2 then .missing
  else if reply < 0 then .persistent
  else .seconds reply.toNat

/-- The shape of the value that a key holds. -/
inductive Shape
  /-- Plain bytes. -/
  | string
  /-- Named fields. -/
  | hash
  /-- Anything that this library never writes. -/
  | other
  deriving DecidableEq, Repr, Inhabited

namespace Shape

/-- The name of a shape. -/
def name : Shape → String
  | .string => "String"
  | .hash => "Hash"
  | .other => "Other"

/-- Reads the reply of a server that is asked for a type; `none` says that the key is not there. -/
def ofTypeReply (reply : String) : Option Shape :=
  if reply = "none" then none
  else if reply = "string" then some .string
  else if reply = "hash" then some .hash
  else some .other

end Shape

/-- A write. -/
inductive Command
  /-- Stores plain bytes, with or without a number of seconds to live. -/
  | set (key : String) (value : Bytes) (ttl : Option Nat)
  /-- Adds fields to a hash. -/
  | hset (key : String) (fields : List (String × Bytes))
  /-- Removes a key. -/
  | del (key : String)
  deriving DecidableEq, Repr, Inhabited

namespace Command

/-- The key that a command writes. -/
def key : Command → String
  | .set key _ _ => key
  | .hset key _ => key
  | .del key => key

/-- The shape of the key after the command, or the reason why the command is refused. -/
def shapeAfter (c : Command) (before : Option Shape) : Answer (Option Shape) :=
  match c, before with
  | .set key _ (some 0), _ => .error (.transaction key "zero expiry")
  | .set _ _ _, _ => .ok (some .string)
  | .hset _ _, none => .ok (some .hash)
  | .hset _ _, some .hash => .ok (some .hash)
  | .hset key _, some shape => .error (.transaction key s!"hash write on a {shape.name} key")
  | .del _, _ => .ok none

end Command

/-- Commands to be committed together, in the order of staging. -/
abbrev Transaction := List Command

namespace Transaction

/-- The keys that a transaction writes, each once, in the order of first use. -/
def keys (tx : Transaction) : List String :=
  tx.foldl (fun ks c => if c.key ∈ ks then ks else ks ++ [c.key]) []

/-- Follows the shapes of the keys through the commands; fails with the first command that would be
refused. -/
def check (shapes : String → Option Shape) : Transaction → Answer Unit
  | [] => .ok ()
  | c :: rest =>
    match c.shapeAfter (shapes c.key) with
    | .error e => .error e
    | .ok after => check (fun k => if k = c.key then after else shapes k) rest

end Transaction

end SealedStore
