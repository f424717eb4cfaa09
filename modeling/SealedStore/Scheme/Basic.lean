import SealedStore.Backend.Basic
import SealedStore.Scheme.Index

set_option autoImplicit false

/-!
# Schemes

A scheme says how the records of one type are keyed, indexed and laid out.  A draft is put together
step by step; a scheme is a draft that names a namespace and whose indexes all have fields.
-/

namespace SealedStore

/-- Where the key of a record comes from when the caller gives none. -/
inductive KeySource
  /-- The counter of the namespace. -/
  | sequence
  /-- A field of the record. -/
  | field
  /-- A random identifier. -/
  | random
  deriving DecidableEq, Repr, Inhabited

/-- How a record is written. -/
inductive Layout
  /-- One envelope for the whole record; it can be indexed. -/
  | plain
  /-- One hash field for each field of the record; there are no indexes. -/
  | hashTable
  /-- Membership without order, which the store does not support. -/
  | set
  deriving DecidableEq, Repr, Inhabited

/-- The name of a layout. -/
def Layout.name : Layout → String
  | .plain => "Plain"
  | .hashTable => "HashTable"
  | .set => "Set"

/-- A scheme in the making. -/
structure SchemeDraft where
  /-- The namespace of the records. -/
  space : String
  /-- The family of backends that the scheme is made for. -/
  family : Family := .redis
  /-- Where keys come from. -/
  keySource : KeySource := .random
  /-- The field that keys come from, if a field was ever named. -/
  keyField : Option String := none
  /-- The indexes. -/
  indexes : List Index := []
  /-- How records are written. -/
  layout : Layout := .plain
  /-- The names of the fields that are encrypted one by one. -/
  encryptedFields : List String := []
  /-- The version of the scheme. -/
  version : String := "1"
  deriving DecidableEq, Repr, Inhabited

namespace SchemeDraft

/-- Keys are drawn from the counter of the namespace. -/
def withSequenceKey (d : SchemeDraft) : SchemeDraft := { d with keySource := .sequence }

/-- Keys are random. -/
def withRandomKey (d : SchemeDraft) : SchemeDraft := { d with keySource := .random }

/-- Keys are taken from a field. -/
def withFieldKey (d : SchemeDraft) (name : String) : SchemeDraft :=
  { d with keySource := .field, keyField := some name }

/-- Adds an index. -/
def withIndex (d : SchemeDraft) (index : Index) : SchemeDraft :=
  { d with indexes := d.indexes ++ [index] }

/-- Adds an encrypted field. -/
def withEncryptedField (d : SchemeDraft) (name : String) : SchemeDraft :=
  { d with encryptedFields := d.encryptedFields ++ [name] }

end SchemeDraft

/-- A scheme. -/
structure Scheme extends SchemeDraft where
  /-- The namespace is not empty. -/
  space_ne : space ≠ ""
  /-- Every index has fields. -/
  fields_ne : ∀ index ∈ indexes, index.fields ≠ []
  deriving DecidableEq, Repr

namespace Scheme

/-- Completes a draft, or says what is missing. -/
def build (d : SchemeDraft) : Answer Scheme :=
  if hs : d.space = "" then .error (.scheme "key prefix must not be empty")
  else
    match hi : d.indexes.find? fun index => index.fields = [] with
    | some index => .error (.scheme s!"index '{index.name}' has no fields")
    | none =>
      .ok ⟨d, hs, fun index h e => by simpa [e] using List.find?_eq_none.1 hi index h⟩

/-- The index of a name. -/
def index? (s : Scheme) (name : String) : Option Index :=
  s.indexes.find? fun index => index.name = name

/-- Whether a field is encrypted by itself. -/
def encrypts (s : Scheme) (name : String) : Bool := s.encryptedFields.contains name

end Scheme

/-- The fields of a record; only an object is a record. -/
def Record.ofJson : Json → Answer Record
  | .object members => .ok members
  | j => .error (.scheme s!"record must serialize to a map, got {j.kind.name}")

end SealedStore
