import SealedStore.Envelope.Basic
import SealedStore.Json.Printer
import SealedStore.Json.Tree

set_option autoImplicit false

/-!
# Codecs

How envelopes become bytes.  The default codec writes JSON text.  A codec is told the number of the
call that it serves, so that one which fails now and then is a codec too.
-/

namespace SealedStore

/-- Turns envelopes into bytes and back. -/
structure Codec where
  /-- The bytes of an envelope, at a numbered call. -/
  marshal : (call : Nat) → Envelope → Answer Bytes
  /-- The envelope of bytes. -/
  unmarshal : Bytes → Answer Envelope

namespace Envelope

/-- An envelope as JSON text: tag, payload and timestamp in this order. -/
def chars (e : Envelope) : List Char :=
  "\x7b\"value_type\":".toList ++ Json.quoted e.tag.text ++
    ",\"value\":".toList ++ e.payload.chars ++
    ",\"timestamp\":".toList ++ Json.quoted e.timestamp.render ++ ['}']

/-- Puts an envelope together from its three written parts.  The payload lies one level deep. -/
def ofParts? (tag payload timestamp : Tree) : Option Envelope := do
  let tag ← tag.text?
  let payload ← payload.toJson? (Json.maxDepth - 1)
  let timestamp ← timestamp.text?.bind Timestamp.read?
  pure ⟨.ofText tag, payload, timestamp⟩

/-- The only member of a name, `none` when there is none or more than one. -/
def only? (name : String) (members : List (String × Tree)) : Option Tree :=
  match members.filter fun m => m.1 = name with
  | [m] => some m.2
  | _ => none

/-- Reads an envelope from an object, whatever other members it has, or from an array of the three
parts.  The values of other members are not looked at. -/
def ofTree? : Tree → Option Envelope
  | .object members => do
    let members ← members.mapM fun m => (Piece.text? m.1).map fun cs => (String.ofList cs, m.2)
    let tag ← only? "value_type" members
    let payload ← only? "value" members
    let timestamp ← only? "timestamp" members
    ofParts? tag payload timestamp
  | .array [tag, payload, timestamp] => ofParts? tag payload timestamp
  | _ => none

end Envelope

namespace Codec

/-- Envelopes as JSON text. -/
def json : Codec where
  marshal _ e := .ok (Utf8.encode (String.ofList e.chars))
  unmarshal bs :=
    match (Tree.read? bs).bind Envelope.ofTree? with
    | some e => .ok e
    | none => .error (.serialization .malformed)

/-- A codec behind a mark: bytes without the mark are refused. -/
def marked (mark : Bytes) (missing : Detail) (inner : Codec) : Codec where
  marshal call e := (inner.marshal call e).map (mark ++ ·)
  unmarshal bs :=
    if mark.isPrefixOf bs then inner.unmarshal (bs.drop mark.length)
    else .error (.serialization missing)

/-- A codec that is out of order. -/
def broken (writing reading : Detail) : Codec where
  marshal _ _ := .error (.serialization writing)
  unmarshal _ := .error (.serialization reading)

/-- Wraps a value and writes the envelope. -/
def write (c : Codec) (call : Nat) (now : Instant) (v : Value) : Answer Bytes :=
  c.marshal call (.wrap v now)

/-- Reads an envelope and unwraps it. -/
def read (c : Codec) (bs : Bytes) : Answer Value :=
  (c.unmarshal bs).bind Envelope.value

end Codec

end SealedStore
