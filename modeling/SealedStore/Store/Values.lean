import SealedStore.Store.Basic

set_option autoImplicit false

/-!
# Values in a store

Reading and writing single values by key.  A handle on a store has a default namespace and a default
deadline for reads; each call may name another namespace.
-/

namespace SealedStore

/-- A handle on a store. -/
structure Handle where
  /-- The default namespace. -/
  space : Option String := none
  /-- The default deadline of reads that have one. -/
  readTimeout : Duration := .ofMillis 2000
  deriving DecidableEq, Repr, Inhabited

namespace Handle

variable {β : Type} [Backend β]

/-- The same handle in another default namespace; the empty one is none. -/
def withSpace (h : Handle) (space : String) : Handle :=
  { h with space := if space = "" then none else some space }

/-- The full name of a key. -/
def fullName (h : Handle) (key : String) (space : Option String) : String :=
  Namespace.resolve key space h.space

/-! ## Reading -/

/-- The value of a key. -/
def getValue (h : Handle) (key : String) (space : Option String) :
    Action (Store β) (Option Value) :=
  Store.read (h.fullName key space)

/-- The value of a key, read as a type. -/
def get (h : Handle) (key : String) (space : Option String) (schema : Schema) :
    Action (Store β) (Option Json) := do
  let v ← h.getValue key space
  Store.readAs schema (h.fullName key space) v

/-- The span that a remaining lifetime leaves, `none` for ever.  A key that has gone since it was
read has no time left. -/
def timeLeft : Lifetime → Option Duration
  | .missing => some ⟨0⟩
  | .persistent => none
  | .seconds n => some (.ofSeconds n)

/-- The value of a key, read as a type, with the time that it has left. -/
def getWithExpiry (h : Handle) (key : String) (space : Option String) (schema : Schema) :
    Action (Store β) (Option (Json × Option Duration)) := do
  match ← h.get key space schema with
  | none => return none
  | some v =>
    let lifetime ← Store.onBackend (Backend.lifetime · (h.fullName key space))
    return some (v, timeLeft lifetime)

/-- The value of a key, read as a type, unless the read is not done before its deadline.  A read
that comes too late is not called off. -/
def getWithTimeout (h : Handle) (key : String) (space : Option String) (schema : Schema)
    (timeout : Option Duration) : Action (Store β) (Option Json) := do
  let deadline := timeout.getD h.readTimeout
  let name := h.fullName key space
  match ← Store.onBackend (Backend.getBefore · deadline.ticks name) with
  | some raw => Store.readAs schema name (← Store.opened name raw)
  | none => throw (.timeout deadline.millis64)

/-- The values found by a scan, by key. -/
abbrev Found (α : Type) := Std.ExtTreeMap String α

/-- The values of all keys of a namespace that match a glob pattern, by key without the namespace.
Counters are passed over by name, hashes because they hold no bytes. -/
def scanValues (h : Handle) (pattern : String) (space : Option String) :
    Action (Store β) (Found Value) := do
  let names ← Store.onBackend (Backend.scan · (h.fullName pattern space))
  let names := names.filter fun name => !Namespace.isCounter name
  let raws ← Store.onBackend (Backend.getMany · names)
  let found ← (names.zip raws).filterMapM fun (name, raw) =>
    match raw with
    | some raw => do
      let v ← (Store.decode raw).mapError (.inContext "scan" name)
      return some (Namespace.strip name (space.or h.space), v)
    | none => return none
  return .ofList found

/-- The values of a scan, read as a type. -/
def scan (h : Handle) (pattern : String) (space : Option String) (schema : Schema) :
    Action (Store β) (Found Json) := do
  let found ← h.scanValues pattern space
  let typed ← found.toList.mapM fun (key, v) => .ofAnswer <|
    ((v.read schema).mapError (.inContext "scan" key)).map fun j => (key, j)
  return .ofList typed

/-! ## Writing -/

/-- Writes a value, with or without a number of seconds to live. -/
def write (h : Handle) (key : String) (v : Value) (ttl : Option Nat) (space : Option String) :
    Action (Store β) Unit := do
  let name := h.fullName key space
  .ofAnswer (Namespace.checkWritable name)
  let data ← (Store.encode v).mapError (.inContext "put" name)
  Store.onBackend (Backend.set · name data ttl)

/-- Writes a value. -/
def putValue (h : Handle) (key : String) (v : Value) (space : Option String) :
    Action (Store β) Unit :=
  h.write key v none space

/-- Writes a JSON value. -/
def put (h : Handle) (key : String) (j : Json) (space : Option String) : Action (Store β) Unit :=
  h.putValue key (.ofJson j) space

/-- Writes a JSON value that lives for a number of seconds. -/
def putWithExpiry (h : Handle) (key : String) (j : Json) (ttl : Nat) (space : Option String) :
    Action (Store β) Unit :=
  h.write key (.ofJson j) (some ttl) space

/-- Writes a JSON value under several namespaces, under all or none.  Every copy is encrypted under
a salt of its own. -/
def putFanout (h : Handle) (key : String) (j : Json) (spaces : List String) :
    Action (Store β) Unit := do
  let tx ← spaces.mapM fun space => do
    let name := h.fullName key (some space)
    .ofAnswer (Namespace.checkWritable name)
    let data ← (Store.encode (.ofJson j)).mapError (.inContext "put" name)
    return Command.set name data none
  Store.onBackend (Backend.commit · tx)

/-! ## Deleting -/

/-- Deletes a key and says whether it was there. -/
def delete (h : Handle) (key : String) (space : Option String) : Action (Store β) Bool := do
  let n ← Store.onBackend (Backend.delete · [h.fullName key space])
  return 0 < n

/-- Deletes several keys and says how many were there. -/
def deleteMany (h : Handle) (keys : List String) (space : Option String) : Action (Store β) Nat :=
  Store.onBackend (Backend.delete · (keys.map (h.fullName · space)))

end Handle

end SealedStore
