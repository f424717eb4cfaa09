import SealedStore.Error
import SealedStore.Json.Schema
import SealedStore.Text.Utf8

set_option autoImplicit false

/-!
# Values

What callers store: integers, texts, bytes, and any other JSON value; and the tags that name these
sorts next to a stored value.
-/

namespace SealedStore

/-- The tag of a stored value. -/
inductive Tag
  /-- A signed 64-bit integer. -/
  | int
  /-- A text. -/
  | string
  /-- Bytes, in hexadecimal. -/
  | bytes
  /-- A JSON value of a kind, by the name of the kind. -/
  | kind (name : String)
  deriving DecidableEq, Repr, Inhabited

namespace Tag

/-- Reads a tag; a text that is no other tag names a kind. -/
def ofText (s : String) : Tag :=
  if s = "int" then .int
  else if s = "string" then .string
  else if s = "bytes" then .bytes
  else .kind s

/-- Writes a tag. -/
def text : Tag → String
  | .int => "int"
  | .string => "string"
  | .bytes => "bytes"
  | .kind name => name

@[simp] theorem text_ofText (s : String) : (ofText s).text = s := by
  unfold ofText
  split
  · simp [text, *]
  · split
    · simp [text, *]
    · split <;> simp [text, *]

end Tag

/-- A value as callers store it. -/
inductive Value
  /-- A signed 64-bit integer. -/
  | int (i : Int) (inRange : -0x8000000000000000 ≤ i ∧ i < 0x8000000000000000)
  /-- A text. -/
  | text (s : String)
  /-- Bytes. -/
  | bytes (bs : Bytes)
  /-- A JSON value of another sort. -/
  | structured (j : Json)
  deriving DecidableEq, Repr, Inhabited

namespace Value

theorem int_inRange {i : Int} (inRange : -0x8000000000000000 ≤ i ∧ i < 0x10000000000000000)
    (h : i < 0x8000000000000000) : -0x8000000000000000 ≤ i ∧ i < 0x8000000000000000 :=
  ⟨inRange.1, h⟩

/-- Sorts a JSON value: signed 64-bit integers and texts have sorts of their own. -/
def ofJson : Json → Value
  | .number (.integer i inRange) =>
    if h : i < 0x8000000000000000 then .int i (int_inRange inRange h)
    else .structured (.number (.integer i inRange))
  | .text s => .text s
  | j => .structured j

/-- The value as JSON; bytes are a list of numbers. -/
def toJson : Value → Json
  | .int i _ => .ofInt i
  | .text s => .text s
  | .bytes bs => .array (bs.map fun b => .ofInt b.toNat)
  | .structured j => j

/-- Reads the value as a type. -/
def read (s : Schema) (v : Value) : Answer Json :=
  match s.read? v.toJson with
  | some j => .ok j
  | none => .error (.typeMismatch .malformed)

@[simp] theorem read_any (v : Value) : v.read .any = .ok v.toJson := by simp [read]

/-- The tag that names the sort of a value. -/
def tag : Value → Tag
  | .int _ _ => .int
  | .text _ => .string
  | .bytes _ => .bytes
  | .structured j => .kind j.kind.name

end Value

end SealedStore
