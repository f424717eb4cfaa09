import SealedStore.Envelope.Value
import SealedStore.Text.Hex
import SealedStore.Time.Timestamp

set_option autoImplicit false

/-!
# Envelopes

Every stored value is wrapped in an envelope that names its sort and the time of wrapping.
Unwrapping checks the payload against the tag, so no payload is read as something it is not.
-/

namespace SealedStore

/-- A wrapped value. -/
structure Envelope where
  /-- The sort of the value. -/
  tag : Tag
  /-- The value as JSON. -/
  payload : Json
  /-- The time of wrapping. -/
  timestamp : Timestamp
  deriving DecidableEq, Repr, Inhabited

/-- The kinds that an envelope may name as a tag. -/
def Kind.structured : List Kind := [.object, .array, .bool, .float, .uint, .null]

namespace Envelope

/-- The payload of a value: bytes are written in hexadecimal. -/
def payloadOf : Value → Json
  | .int i _ => .ofInt i
  | .text s => .text s
  | .bytes bs => .text (Hex.encode bs)
  | .structured j => j

/-- Wraps a value at an instant. -/
def wrap (v : Value) (now : Instant) : Envelope :=
  ⟨v.tag, payloadOf v, .ofInstant now⟩

/-- The error when a payload is not what its tag says. -/
def mismatch (expected : String) (found : Json) : StoreError :=
  .typeMismatch s!"envelope tagged '{expected}' holds {found.kind.name}"

/-- Unwraps a payload under a tag.  A number of any kind may stand under `float`. -/
def unwrap (tag : Tag) (payload : Json) : Answer Value :=
  match tag, payload with
  | .int, .number (.integer i inRange) =>
    if h : i < 0x8000000000000000 then .ok (.int i (Value.int_inRange inRange h))
    else .error (mismatch "int" payload)
  | .int, _ => .error (mismatch "int" payload)
  | .string, .text s => .ok (.text s)
  | .string, _ => .error (mismatch "string" payload)
  | .bytes, .text s =>
    match Hex.decode s with
    | .ok bs => .ok (.bytes bs)
    | .error e => .error (.typeMismatch ("bytes payload: " ++ e.message : String))
  | .bytes, _ => .error (mismatch "bytes" payload)
  | .kind name, _ =>
    if ¬ name ∈ Kind.structured.map Kind.name then
      .error (.typeMismatch s!"unsupported value type '{name}'")
    else if payload.kind.name = name ∨ (name = "float" ∧ payload.kind = .uint) then
      .ok (.structured payload)
    else .error (mismatch name payload)

/-- Unwraps an envelope. -/
def value (e : Envelope) : Answer Value := unwrap e.tag e.payload

end Envelope

end SealedStore
