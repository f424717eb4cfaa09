import SealedStore.Json.Printer

set_option autoImplicit false

/-!
# Indexes

Secondary indexes over the fields of a record.  The key of a record in an index is made of the
texts of the indexed fields, in the order of the index.
-/

namespace SealedStore

/-- A secondary index. -/
structure Index where
  /-- The name of the index. -/
  name : String
  /-- The names of the indexed fields. -/
  fields : List String
  /-- Whether several records may have the same key; the newest one owns it. -/
  shared : Bool := false
  deriving DecidableEq, Repr, Inhabited

namespace Index

/-- The character between the parts of a key. -/
def separator : Char := '\x1F'

/-- The text of a field value: a text as it is, nothing for `null`, and any other value as JSON. -/
def textOf : Json → String
  | .text s => s
  | .null => ""
  | j => j.render

/-- A key made of its parts. -/
def keyOfParts (parts : List String) : String := separator.toString.intercalate parts

/-- The texts of the indexed fields; a missing field has the empty text. -/
def parts (index : Index) (r : Record) : List String :=
  index.fields.map fun name => ((r.find? name).map textOf).getD ""

/-- The key of a record. -/
def keyOf (index : Index) (r : Record) : String := keyOfParts (index.parts r)

/-- The key of a record, `none` when all its parts are empty: such a record cannot be looked up and
never collides with another. -/
def presentKey? (index : Index) (r : Record) : Option String :=
  let key := index.keyOf r
  if key.toList.all (· = separator) then none else some key

end Index

end SealedStore
