import SealedStore.Json.Basic

set_option autoImplicit false

/-!
# Schemas

The types that callers read values into.  Reading a JSON value by a schema gives the value in the
form of that type, as JSON again: a number read as floating-point is one, and a record holds its
fields only.
-/

namespace SealedStore

/-- A type to read a JSON value into. -/
inductive Schema
  /-- Any value. -/
  | any
  /-- An integer between two bounds; never a floating-point number. -/
  | integer (low high : Int)
  /-- Any number, read as floating-point. -/
  | float
  /-- A truth value. -/
  | bool
  /-- A text. -/
  | text
  /-- A list of values of one type. -/
  | list (item : Schema)
  /-- An object whose members are values of one type. -/
  | mapping (item : Schema)
  /-- A value of a type, or `null`. -/
  | optional (item : Schema)
  /-- Named fields, each with its type; other members are passed over.  A list of exactly the
  fields in order is taken too. -/
  | record (fields : List (String × Schema))
  deriving Repr, Inhabited

namespace Schema

/-- Signed 64-bit integers. -/
def int64 : Schema := .integer (-0x8000000000000000) 0x7FFFFFFFFFFFFFFF

/-- Unsigned 64-bit integers. -/
def uint64 : Schema := .integer 0 0xFFFFFFFFFFFFFFFF

/-- Unsigned 32-bit integers. -/
def uint32 : Schema := .integer 0 0xFFFFFFFF

/-- Unsigned 8-bit integers. -/
def uint8 : Schema := .integer 0 0xFF

mutual

/-- Reads a value, `none` when it does not fit. -/
def read? : Schema → Json → Option Json
  | .any, j => some j
  | .integer low high, .number n => (n.toInt? low high).map .ofInt
  | .float, .number n => some (.number (.double n.toBinary64))
  | .bool, .bool b => some (.bool b)
  | .text, .text s => some (.text s)
  | .list item, .array js => (js.mapM fun j => read? item j).map .array
  | .mapping item, .object ms =>
    (ms.mapM fun m => (read? item m.2).map fun j => (m.1, j)).map .object
  | .optional _, .null => some .null
  | .optional item, j => read? item j
  | .record fields, .object ms => (readMembers? fields ms).map fun r => .object (Record.ofMembers r)
  | .record fields, .array js => (readItems? fields js).map fun r => .object (Record.ofMembers r)
  | _, _ => none
termination_by structural s => s

/-- Reads each field from the member of its name. -/
def readMembers? : List (String × Schema) → List (String × Json) → Option (List (String × Json))
  | [], _ => some []
  | f :: rest, ms =>
    match readMember? f ms, readMembers? rest ms with
    | some m, some r => some (m :: r)
    | _, _ => none
termination_by structural fs => fs

/-- Reads a field from the member of its name. -/
def readMember? : String × Schema → List (String × Json) → Option (String × Json)
  | (name, s), ms =>
    match ms.lookup name with
    | some j => (read? s j).map fun j => (name, j)
    | none => none
termination_by structural f => f

/-- Reads the fields from as many items. -/
def readItems? : List (String × Schema) → List Json → Option (List (String × Json))
  | [], [] => some []
  | f :: rest, j :: js =>
    match readItem? f j, readItems? rest js with
    | some m, some r => some (m :: r)
    | _, _ => none
  | _, _ => none
termination_by structural fs => fs

/-- Reads a field from an item. -/
def readItem? : String × Schema → Json → Option (String × Json)
  | (name, s), j => (read? s j).map fun j => (name, j)
termination_by structural f => f

end

@[simp] theorem read?_any (j : Json) : read? .any j = some j := by simp [read?]

end Schema

end SealedStore
