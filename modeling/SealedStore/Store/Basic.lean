import SealedStore.Backend.Basic
import SealedStore.Cipher.Basic
import SealedStore.Envelope.Codec
import SealedStore.Namespace

set_option autoImplicit false

/-!
# Stores

A store keeps values in a backend.  On the way in a value is wrapped in an envelope, written by the
codec and, when encryption is on, encrypted under a fresh salt; on the way out all of that is
undone.
-/

namespace SealedStore

/-- How stored bytes are encrypted. -/
structure Encryption where
  /-- The secret. -/
  key : Bytes
  /-- The cipher. -/
  cipher : Cipher

/-- A store, as all its handles share it. -/
structure Store (β : Type) where
  /-- Where the bytes are kept. -/
  backend : β
  /-- How the bytes are encrypted, if they are. -/
  encryption : Option Encryption := none
  /-- How envelopes are written. -/
  codec : Codec := .json
  /-- What the wall clock shows. -/
  clock : Instant := ⟨0⟩
  /-- How many numbered calls the codec, the cipher and the source of identifiers have served. -/
  calls : Nat := 0
  /-- The random identifier that a numbered call draws. -/
  identifiers : Nat → String

namespace Store

variable {β α : Type} [Backend β]

/-- An operation of the backend, which is told the time. -/
def onBackend (a : (now : Nat) → Action β α) : Action (Store β) α := do
  let s ← get
  (a s.clock.unixMillis).within Store.backend fun backend s => { s with backend }

/-- The number of the next call. -/
def nextCall : Action (Store β) Nat := .update fun s => (s.calls, { s with calls := s.calls + 1 })

/-- Draws a random identifier. -/
def drawIdentifier : Action (Store β) String := do
  let call ← nextCall
  return (← get).identifiers call

/-- Whether stored bytes are encrypted. -/
def isEncrypted (s : Store β) : Bool := s.encryption.isSome

/-- Encrypts bytes under a fresh salt; with encryption off they stay as they are.  While the cipher
is at work, reads that came too late go on. -/
def encrypt (data : Bytes) : Action (Store β) Bytes := do
  match (← get).encryption with
  | some e =>
    onBackend Backend.settle
    .ofAnswer (e.cipher.encrypt (← nextCall) e.key data true)
  | none => return data

/-- Decrypts bytes; with encryption off they stay as they are. -/
def decrypt (data : Bytes) : Action (Store β) Bytes := do
  match (← get).encryption with
  | some e =>
    onBackend Backend.settle
    .ofAnswer (e.cipher.decrypt e.key data true)
  | none => return data

/-- The stored bytes of a value. -/
def encode (v : Value) : Action (Store β) Bytes := do
  let call ← nextCall
  let s ← get
  let plain ← .ofAnswer (s.codec.write call s.clock v)
  encrypt plain

/-- The value of stored bytes. -/
def decode (raw : Bytes) : Action (Store β) Value := do
  let plain ← decrypt raw
  .query fun s => s.codec.read plain

/-- The value of what was read under a full name. -/
def opened (fullName : String) (raw : Option Bytes) : Action (Store β) (Option Value) := do
  match raw with
  | some raw => some <$> (decode raw).mapError (.inContext "get" fullName)
  | none => return none

/-- The value under a full name. -/
def read (fullName : String) : Action (Store β) (Option Value) := do
  opened fullName (← onBackend (Backend.get · fullName))

/-- A value read as a type. -/
def readAs (schema : Schema) (fullName : String) (v : Option Value) :
    Action (Store β) (Option Json) :=
  .ofAnswer <| match v with
    | some v => ((v.read schema).mapError (.inContext "get" fullName)).map some
    | none => .ok none

/-- Turns encryption on or off. -/
def setEncryption (e : Option Encryption) : Action (Store β) Unit :=
  .update fun s => ((), { s with encryption := e })

/-- Sets the codec of later calls. -/
def setCodec (codec : Codec) : Action (Store β) Unit := .update fun s => ((), { s with codec })

/-- Releases what the backend holds. -/
def close : Action (Store β) Unit := onBackend fun _ => Backend.close

end Store

end SealedStore
