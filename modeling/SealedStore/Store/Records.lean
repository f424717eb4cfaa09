import SealedStore.Scheme.Basic
import SealedStore.Store.Values

set_option autoImplicit false

/-!
# Records in a store

Writing and reading records by a scheme.  A record and its index entries are committed in one
transaction; every check comes before the first write.
-/

namespace SealedStore

/-- Where a record landed. -/
structure Landing where
  /-- The key of the record inside its namespace. -/
  key : String
  /-- The full name of the record. -/
  fullName : String
  deriving DecidableEq, Repr, Inhabited

namespace Scheme

/-- The full name of a record of the scheme. -/
def fullName (s : Scheme) (key : String) : String := Namespace.key s.space key

/-- The lookup hash of an index of the scheme. -/
def lookupKey (s : Scheme) (index : String) : String := Namespace.lookupKey s.space index

/-- The key that a record itself gives: a text that is not empty, or an integer. -/
def fieldKey? (s : Scheme) (r : Record) : Option String :=
  match s.keyField.bind r.find? with
  | some (.text t) => if t = "" then none else some t
  | some (.number (.integer i _)) => some (Integer.render i)
  | _ => none

/-- The lookup entries of a record: for each index in which it has a key, the lookup hash and that
key. -/
def entries (s : Scheme) (r : Record) : List (String × String) :=
  s.indexes.filterMap fun index =>
    (index.presentKey? r).map fun key => (s.lookupKey index.name, key)

/-- The error for an operation on sets. -/
def setUnsupported : StoreError := .scheme "set layout is not supported"

end Scheme

namespace Store

variable {β : Type} [Backend β]

/-! ## Checks before the first write -/

/-- Refuses a scheme that the store cannot apply. -/
def checkScheme (scheme : Scheme) : Action (Store β) Unit := .query fun s =>
  let family := Backend.family s.backend
  if scheme.family ≠ family then
    .error (.scheme
      s!"scheme targets {scheme.family.name} but the store runs on {family.name}")
  else if scheme.layout = .set then .error Scheme.setUnsupported
  else if scheme.encryptedFields ≠ [] ∧ ¬ s.isEncrypted then
    .error (.scheme "scheme has encrypted fields but store encryption is off")
  else .ok ()

/-- Refuses a record whose key in an index that is not shared belongs to another record.  A record
without a name as yet owns no key. -/
def checkUnique (scheme : Scheme) (r : Record) (fullName : Option String) :
    Action (Store β) Unit :=
  (scheme.indexes.filter fun index => !index.shared).forM fun index => do
    let some key := index.presentKey? r | return
    let some owner ← onBackend (Backend.field · (scheme.lookupKey index.name) key) | return
    if fullName.map Utf8.encode ≠ some owner then
      throw (.scheme
        s!"index '{index.name}' already maps '{key}' to {Utf8.decodeLossy owner}")

/-- The key of a record when the caller gives none; `none` leaves it to the counter.  A record
without a usable key field gets a random key. -/
def deriveKey (scheme : Scheme) (r : Record) : Action (Store β) (Option String) :=
  match scheme.keySource with
  | .sequence => return none
  | .random => some <$> drawIdentifier
  | .field =>
    match scheme.fieldKey? r with
    | some key => return some key
    | none => some <$> drawIdentifier

/-! ## Staging -/

/-- Stages a record as one envelope, with its lookup entries. -/
def stagePlain (scheme : Scheme) (r : Record) (fullName : String) :
    Action (Store β) Transaction := do
  let data ← (encode (.structured (.object r))).mapError (.inContext "put" fullName)
  return .set fullName data none :: (scheme.entries r).map fun (lookup, key) =>
    .hset lookup [(key, Utf8.encode fullName)]

/-- Stages a record as a hash that replaces whatever is there. -/
def stageHash (scheme : Scheme) (r : Record) (fullName : String) :
    Action (Store β) Transaction := do
  let fields ← r.mapM fun (name, j) => do
    let plain := j.toBytes
    let data ← if scheme.encrypts name then
        (encrypt plain).mapError (.inContext "put" fullName)
      else pure plain
    return (name, data)
  return .del fullName :: if fields = [] then [] else [.hset fullName fields]

/-- Stages a record in the layout of its scheme. -/
def stage (scheme : Scheme) (r : Record) (fullName : String) : Action (Store β) Transaction :=
  match scheme.layout with
  | .plain => stagePlain scheme r fullName
  | .hashTable => stageHash scheme r fullName
  | .set => throw Scheme.setUnsupported

/-- The error of a record whose commit failed: always that the transaction was not committed. -/
def commitFailure (fullName : String) (e : StoreError) : StoreError :=
  if e.isTransaction then e else .transaction fullName e.message

/-! ## Writing and reading records -/

/-- Writes a record by its scheme.  An empty key stands for one that the scheme provides; a number
is drawn from the counter only when all checks are passed. -/
def putRecord (scheme : Scheme) (key : String) (j : Json) : Action (Store β) Landing := do
  checkScheme scheme
  let r ← .ofAnswer (Record.ofJson j)
  let known ← if key = "" then deriveKey scheme r else pure (some key)
  if let some key := known then
    .ofAnswer (Namespace.checkWritable (scheme.fullName key))
  if scheme.layout = .plain then
    checkUnique scheme r (known.map scheme.fullName)
  let key ← match known with
    | some key => pure key
    | none => Integer.render <$> onBackend (Backend.incr · (Namespace.sequenceKey scheme.space))
  let fullName := scheme.fullName key
  let tx ← stage scheme r fullName
  (onBackend (Backend.commit · tx)).mapError (commitFailure fullName)
  return ⟨key, fullName⟩

/-- The record that a hash holds. -/
def readHash (scheme : Scheme) (fullName : String) : Action (Store β) (Option Value) := do
  let fields ← onBackend (Backend.fields · fullName)
  if fields.isEmpty then return none
  let members ← fields.toList.mapM fun (name, data) => do
    let plain ← if scheme.encrypts name then
        (decrypt data).mapError (.inContext "get" fullName)
      else pure data
    match Json.read? plain with
    | some j => return (name, j)
    | none =>
      let e := StoreError.serialization (.words s!"field '{name}': " :: Detail.malformed)
      throw (e.inContext "get" fullName)
  return some (.structured (.object members))

/-- Reads a record that was written by its scheme. -/
def getRecord (scheme : Scheme) (key : String) (schema : Schema) :
    Action (Store β) (Option Json) := do
  let fullName := scheme.fullName key
  let v ← match scheme.layout with
    | .plain => read fullName
    | .hashTable => readHash scheme fullName
    | .set => throw Scheme.setUnsupported
  readAs schema fullName v

/-- The full name of the record that owns a key in an index. -/
def resolveIndex (scheme : Scheme) (index key : String) : Action (Store β) (Option String) := do
  if scheme.layout ≠ .plain then
    throw (.scheme s!"{scheme.layout.name} records have no secondary indexes")
  if (scheme.index? index).isNone then throw (.scheme s!"unknown index '{index}'")
  let lookup := scheme.lookupKey index
  match ← onBackend (Backend.field · lookup key) with
  | none => return none
  | some owner =>
    match Utf8.decode owner with
    | .ok name => return some name
    | .error fault => throw (.serialization s!"lookup {lookup}: {fault.message}")

/-- Reads the record that owns a key in an index.  A record that was deleted is none. -/
def getByIndex (scheme : Scheme) (index key : String) (schema : Schema) :
    Action (Store β) (Option Json) := do
  match ← resolveIndex scheme index key with
  | none => return none
  | some fullName => readAs schema fullName (← read fullName)

end Store

/-- Writes a record by a scheme; without one it is a JSON value like any other. -/
def Handle.putRecord {β : Type} [Backend β] (h : Handle) (key : String) (j : Json)
    (scheme : Option Scheme) (space : Option String) : Action (Store β) Landing := do
  match scheme with
  | some scheme => Store.putRecord scheme key j
  | none =>
    h.put key j space
    return ⟨key, h.fullName key space⟩

end SealedStore
