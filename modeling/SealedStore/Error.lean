set_option autoImplicit false

/-!
# Errors

Why an operation of the store, the cipher or the cache fails.  A missing key is no error for reads
of the store: they answer `none`.
-/

namespace SealedStore

/-- Whose words a part of a message is in. -/
inductive Party
  /-- The data format: why a text cannot be read as data of the expected type. -/
  | dataFormat
  /-- The server: why it refused a command. -/
  | server
  deriving DecidableEq, Repr, Inhabited

/-- A part of a message. -/
inductive Phrase
  /-- Words of the store itself. -/
  | words (s : String)
  /-- The words of another party. -/
  | quote (party : Party)
  deriving DecidableEq, Repr, Inhabited

/-- The particulars of an error. -/
abbrev Detail := List Phrase

namespace Detail

instance : Coe String Detail := ⟨fun s => [.words s]⟩

/-- A detail in full, with the words of each party put in. -/
def render (words : Party → String) (d : Detail) : String :=
  String.join <| d.map fun
    | .words s => s
    | .quote party => words party

end Detail

/-- An error, by its cause. -/
inductive StoreError
  /-- The backing service failed or answered with an error. -/
  | connection (detail : Detail)
  /-- No connection to the backing service could be had. -/
  | pool (detail : Detail)
  /-- An envelope or a record could not be written or read. -/
  | serialization (detail : Detail)
  /-- A ciphertext is too short or otherwise malformed. -/
  | invalidCiphertext (detail : Detail)
  /-- A ciphertext did not open. -/
  | decryption (detail : Detail)
  /-- A plaintext could not be sealed. -/
  | encryption (detail : Detail)
  /-- No key could be derived, or a raw key is of no use. -/
  | keyDerivation (detail : Detail)
  /-- A stored value is of another type than the one asked for. -/
  | typeMismatch (detail : Detail)
  /-- A scheme does not apply to the record or to the store. -/
  | scheme (detail : Detail)
  /-- A transaction was not committed. -/
  | transaction (key : String) (reason : Detail)
  /-- A write was aimed at a name that is kept for a counter. -/
  | reservedKey (key : String)
  /-- A key holds another shape of value than the operation works on. -/
  | wrongType (key : String)
  /-- A key is not there. -/
  | notFound (key : String)
  /-- A deadline passed before the read was complete. -/
  | timeout (millis : Nat)
  /-- A lookup missed and the cache has no producer. -/
  | noProducer (key : String)
  deriving DecidableEq, Repr, Inhabited

namespace StoreError

/-- The message of an error. -/
def message : StoreError → Detail
  | .connection d => .words "Connection error: " :: d
  | .pool d => .words "Pool error: " :: d
  | .serialization d => .words "Serialization error: " :: d
  | .invalidCiphertext d => .words "Invalid ciphertext: " :: d
  | .decryption d => .words "Decryption failed: " :: d
  | .encryption d => .words "Encryption failed: " :: d
  | .keyDerivation d => .words "Key derivation failed: " :: d
  | .typeMismatch d => .words "Type mismatch: " :: d
  | .scheme d => .words "Scheme error: " :: d
  | .transaction key reason => .words s!"Transaction aborted for {key}: " :: reason
  | .reservedKey key => s!"Reserved key: {key}"
  | .wrongType key => s!"Wrong type for key: {key}"
  | .notFound key => s!"Key not found: {key}"
  | .timeout millis => s!"Timed out after {millis} ms"
  | .noProducer key => s!"No producer configured for key: {key}"

/-- Puts the operation and the key in front of the particulars of an error about malformed data;
any other error stays as it is. -/
def inContext (op key : String) : StoreError → StoreError
  | .serialization d => .serialization (.words s!"{op} {key}: " :: d)
  | .invalidCiphertext d => .invalidCiphertext (.words s!"{op} {key}: " :: d)
  | .decryption d => .decryption (.words s!"{op} {key}: " :: d)
  | .typeMismatch d => .typeMismatch (.words s!"{op} {key}: " :: d)
  | e => e

/-- Whether an error says that a transaction was not committed. -/
def isTransaction : StoreError → Bool
  | .transaction _ _ => true
  | _ => false

end StoreError

/-- What an operation answers: a value or an error. -/
abbrev Answer (α : Type) := Except StoreError α

/-- The particulars when data cannot be read. -/
def Detail.malformed : Detail := [.quote .dataFormat]

end SealedStore
