set_option autoImplicit false

/-!
# UTF-8

Bytes and text.  `encode` writes a text, `decode` reads one strictly and says where the first
malformed sequence stands, `decodeLossy` puts U+FFFD in the place of each malformed sequence, and
`symbols` keeps every byte that belongs to no character as it is.
-/

namespace SealedStore

/-- A byte string. -/
abbrev Bytes := List UInt8

namespace Utf8

/-- The bytes of a text. -/
def encode (s : String) : Bytes :=
  s.toList.flatMap String.utf8EncodeChar

/-- What the first byte of a character promises: how many bytes follow, the range of the next one,
and the bits that the first byte contributes. -/
structure Lead where
  /-- The number of bytes that follow. -/
  owed : Nat
  /-- The least value of the byte that follows. -/
  low : UInt8
  /-- The greatest value of the byte that follows. -/
  high : UInt8
  /-- The leading bits of the code point. -/
  bits : Nat
  deriving DecidableEq, Repr, Inhabited

/-- Reads the first byte of a character, `none` for a byte that starts no character. -/
def Lead.of? (b : UInt8) : Option Lead :=
  let n := b.toNat
  if n < 0x80 then some ⟨0, 0x80, 0xBF, n⟩
  else if n < 0xC2 then none
  else if n < 0xE0 then some ⟨1, 0x80, 0xBF, n - 0xC0⟩
  else if n = 0xE0 then some ⟨2, 0xA0, 0xBF, 0⟩
  else if n = 0xED then some ⟨2, 0x80, 0x9F, 0xD⟩
  else if n < 0xF0 then some ⟨2, 0x80, 0xBF, n - 0xE0⟩
  else if n = 0xF0 then some ⟨3, 0x90, 0xBF, 0⟩
  else if n < 0xF4 then some ⟨3, 0x80, 0xBF, n - 0xF0⟩
  else if n = 0xF4 then some ⟨3, 0x80, 0x8F, 4⟩
  else none

/-- What stands at the head of a byte string. -/
inductive Head
  /-- A character, written in `width` bytes. -/
  | char (c : Char) (width : Nat)
  /-- No character starts with these `width` bytes, and the bytes before the last could go on. -/
  | fault (width : Nat)
  /-- The bytes end inside a character. -/
  | cut
  deriving DecidableEq, Repr

/-- Reads the bytes that a character still owes; `code` holds the bits and `width` the bytes so far.
-/
def tails : (owed : Nat) → (low high : UInt8) → (code width : Nat) → Bytes → Head
  | 0, _, _, code, width, _ => .char (Char.ofNat code) width
  | _ + 1, _, _, _, _, [] => .cut
  | owed + 1, low, high, code, width, b :: rest =>
    if low ≤ b ∧ b ≤ high then
      tails owed 0x80 0xBF (code * 64 + (b.toNat - 0x80)) (width + 1) rest
    else .fault width

/-- Reads the head of the byte string `b :: rest`. -/
def head (b : UInt8) (rest : Bytes) : Head :=
  match Lead.of? b with
  | none => .fault 1
  | some l => tails l.owed l.low l.high l.bits 1 rest

/-- A byte string in characters, as far as it is made of them. -/
inductive Symbol
  /-- A character. -/
  | char (c : Char)
  /-- A byte that belongs to no character. -/
  | stray (b : UInt8)
  deriving DecidableEq, Repr

/-- Splits bytes into characters and stray bytes after passing over the first `skip` bytes. -/
def symbolsAfter : (skip : Nat) → Bytes → List Symbol
  | _, [] => []
  | skip + 1, _ :: rest => symbolsAfter skip rest
  | 0, b :: rest =>
    match head b rest with
    | .char c width => .char c :: symbolsAfter (width - 1) rest
    | _ => .stray b :: symbolsAfter 0 rest

/-- Splits bytes into characters and stray bytes. -/
def symbols (bs : Bytes) : List Symbol := symbolsAfter 0 bs

/-- Where and how strict reading fails. -/
inductive Fault
  /-- The `width` bytes at `index` start no character. -/
  | invalid (width index : Nat)
  /-- The bytes from `index` on are a character cut short. -/
  | incomplete (index : Nat)
  deriving DecidableEq, Repr, Inhabited

/-- The wording of a fault. -/
def Fault.message : Fault → String
  | .invalid width index => s!"invalid utf-8 sequence of {width} bytes from index {index}"
  | .incomplete index => s!"incomplete utf-8 byte sequence from index {index}"

/-- Strict reading from position `index`, after passing over the first `skip` bytes. -/
def decodeFrom : (index skip : Nat) → Bytes → Except Fault (List Char)
  | _, _, [] => .ok []
  | index, skip + 1, _ :: rest => decodeFrom (index + 1) skip rest
  | index, 0, b :: rest =>
    match head b rest with
    | .char c width =>
      match decodeFrom (index + 1) (width - 1) rest with
      | .ok cs => .ok (c :: cs)
      | .error e => .error e
    | .fault width => .error (.invalid width index)
    | .cut => .error (.incomplete index)

/-- Reads a text, or says where the first malformed sequence stands. -/
def decode (bs : Bytes) : Except Fault String :=
  (decodeFrom 0 0 bs).map String.ofList

/-- Reads a text, `none` when the bytes are malformed. -/
def decode? (bs : Bytes) : Option String := (decode bs).toOption

/-- Lenient reading after passing over the first `skip` bytes. -/
def lossyAfter : (skip : Nat) → Bytes → List Char
  | _, [] => []
  | skip + 1, _ :: rest => lossyAfter skip rest
  | 0, b :: rest =>
    match head b rest with
    | .char c width => c :: lossyAfter (width - 1) rest
    | .fault width => '\uFFFD' :: lossyAfter (width - 1) rest
    | .cut => ['\uFFFD']

/-- Reads a text with U+FFFD in the place of each malformed sequence. -/
def decodeLossy (bs : Bytes) : String := String.ofList (lossyAfter 0 bs)

end Utf8

end SealedStore
