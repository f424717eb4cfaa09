import SealedStore.Number.Octets

set_option autoImplicit false

/-!
# The block cipher

AES with keys of 256 bits, on blocks of 128 bits.  A block is worked on as four columns of four
bytes, each column a 32-bit word with the top byte first.
-/

namespace SealedStore

/-- A block of 128 bits. -/
abbrev Block := BitVec 128

namespace Block

/-- The sixteen bytes of a block. -/
def toBytes (b : Block) : Bytes := Octets.big 16 b.toNat

/-- The block of up to sixteen bytes, filled up with zeros. -/
def ofBytes (bs : Bytes) : Block :=
  BitVec.ofNat 128 (Octets.ofBig (bs ++ List.replicate (16 - bs.length) 0))

@[simp] theorem length_toBytes (b : Block) : b.toBytes.length = 16 := by simp [toBytes]

@[simp] theorem ofBytes_toBytes (b : Block) : ofBytes b.toBytes = b := by
  have h : b.toNat % Nat.pow 256 16 = b.toNat := Nat.mod_eq_of_lt b.isLt
  unfold ofBytes
  rw [length_toBytes, Nat.sub_self, List.replicate_zero, List.append_nil, toBytes,
    Octets.ofBig_big, h, BitVec.ofNat_toNat, BitVec.setWidth_eq]

end Block

namespace Aes

/-! ## The field of 256 elements -/

/-- Doubles an element. -/
def double (a : UInt8) : UInt8 := (a <<< 1) ^^^ (if a &&& 0x80 = 0 then 0 else 0x1B)

/-- Multiplies an element by the lowest bits of another, as many as given. -/
def times (a : UInt8) : (bits : Nat) → UInt8 → UInt8
  | 0, _ => 0
  | bits + 1, b => (if b &&& 1 = 0 then 0 else a) ^^^ double (times a bits (b >>> 1))

/-- Multiplies two elements. -/
def mul (a b : UInt8) : UInt8 := times a 8 b

/-- Squares an element several times over. -/
def square (a : UInt8) : (n : Nat) → UInt8
  | 0 => a
  | n + 1 => square (mul a a) n

/-- The inverse of an element, which is its power 254; zero has zero. -/
def inverse (a : UInt8) : UInt8 :=
  ((List.range 7).map fun i => square a (i + 1)).foldl mul 1

/-- A byte turned left by some bits. -/
def turn (a : UInt8) (n : UInt8) : UInt8 := (a <<< n) ||| (a >>> (8 - n))

/-- What takes the place of a byte. -/
def substitute (a : UInt8) : UInt8 :=
  let b := inverse a
  b ^^^ turn b 1 ^^^ turn b 2 ^^^ turn b 3 ^^^ turn b 4 ^^^ 0x63

/-- The table of substitutes. -/
def table : Vector UInt8 256 := .ofFn fun i => substitute (UInt8.ofFin i)

/-! ## Columns -/

/-- The byte of a word, from the top. -/
@[inline] def byte (w : UInt32) (i : UInt32) : UInt8 := (w >>> (24 - 8 * i)).toUInt8

/-- A word of four bytes. -/
@[inline] def word (a b c d : UInt8) : UInt32 :=
  (a.toUInt32 <<< 24) ||| (b.toUInt32 <<< 16) ||| (c.toUInt32 <<< 8) ||| d.toUInt32

/-- The substitute of a byte, from the table. -/
@[inline] def lookup (b : UInt8) : UInt8 := table.get b.toFin

/-- Substitutes the bytes of a word. -/
def substituteWord (w : UInt32) : UInt32 :=
  word (lookup (byte w 0)) (lookup (byte w 1)) (lookup (byte w 2)) (lookup (byte w 3))

/-- Mixes the bytes of a column. -/
def mixColumn (w : UInt32) : UInt32 :=
  let a := byte w 0
  let b := byte w 1
  let c := byte w 2
  let d := byte w 3
  let all := a ^^^ b ^^^ c ^^^ d
  word (a ^^^ all ^^^ double (a ^^^ b)) (b ^^^ all ^^^ double (b ^^^ c))
    (c ^^^ all ^^^ double (c ^^^ d)) (d ^^^ all ^^^ double (d ^^^ a))

/-- Four columns, from the left. -/
structure Columns where
  /-- The first column. -/
  a : UInt32
  /-- The second column. -/
  b : UInt32
  /-- The third column. -/
  c : UInt32
  /-- The last column. -/
  d : UInt32
  deriving DecidableEq, Repr, Inhabited

namespace Columns

/-- The columns of a block. -/
def ofBlock (x : Block) : Columns where
  a := UInt32.ofBitVec (x.extractLsb 127 96)
  b := UInt32.ofBitVec (x.extractLsb 95 64)
  c := UInt32.ofBitVec (x.extractLsb 63 32)
  d := UInt32.ofBitVec (x.extractLsb 31 0)

/-- The block of columns. -/
def toBlock (s : Columns) : Block :=
  s.a.toBitVec ++ s.b.toBitVec ++ s.c.toBitVec ++ s.d.toBitVec

/-- Adds a round key. -/
def add (s k : Columns) : Columns := ⟨s.a ^^^ k.a, s.b ^^^ k.b, s.c ^^^ k.c, s.d ^^^ k.d⟩

/-- A column whose bytes come, substituted, from four columns in turn. -/
def gather (p q r s : UInt32) : UInt32 :=
  word (lookup (byte p 0)) (lookup (byte q 1)) (lookup (byte r 2)) (lookup (byte s 3))

/-- Substitutes all bytes and shifts the rows: the second by one column, the third by two and the
last by three. -/
def shift (s : Columns) : Columns :=
  ⟨gather s.a s.b s.c s.d, gather s.b s.c s.d s.a, gather s.c s.d s.a s.b, gather s.d s.a s.b s.c⟩

/-- Mixes every column. -/
def mix (s : Columns) : Columns := ⟨mixColumn s.a, mixColumn s.b, mixColumn s.c, mixColumn s.d⟩

end Columns

/-! ## Keys -/

/-- The next eight words of the key schedule, from the last eight. -/
def nextKeys (constant : UInt8) (left right : Columns) : Columns × Columns :=
  let turned := (right.d <<< 8) ||| (right.d >>> 24)
  let a := left.a ^^^ substituteWord turned ^^^ word constant 0 0 0
  let b := left.b ^^^ a
  let c := left.c ^^^ b
  let d := left.d ^^^ c
  let e := right.a ^^^ substituteWord d
  let f := right.b ^^^ e
  let g := right.c ^^^ f
  (⟨a, b, c, d⟩, ⟨e, f, g, right.d ^^^ g⟩)

/-- The round keys from eight words of the schedule on, two for each further step. -/
def keysFrom (constant : UInt8) (left right : Columns) : (steps : Nat) → List Columns
  | 0 => [left]
  | steps + 1 =>
    let (left', right') := nextKeys constant left right
    left :: right :: keysFrom (double constant) left' right' steps

/-- The fifteen round keys of a key of 32 bytes. -/
def roundKeys (key : Bytes) : List Columns :=
  keysFrom 1 (.ofBlock (.ofBytes (key.take 16))) (.ofBlock (.ofBytes (key.drop 16))) 7

/-! ## Blocks -/

/-- The rounds after the first key, the last of which mixes nothing. -/
def rounds (s : Columns) : List Columns → Columns
  | [] => s
  | [k] => s.shift.add k
  | k :: rest => rounds (s.shift.mix.add k) rest

/-- Encrypts a block under round keys. -/
def encryptBlock (keys : List Columns) (x : Block) : Block :=
  match keys with
  | [] => x
  | k :: rest => (rounds ((Columns.ofBlock x).add k) rest).toBlock

end Aes

end SealedStore
