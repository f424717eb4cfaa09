import SealedStore.Cipher.Mixing

set_option autoImplicit false

/-!
# The hash function

BLAKE2b without a key, with digests of up to 64 bytes.
-/

namespace SealedStore.Blake2b

/-- The eight words that the state begins with. -/
def start : Vector Pair 4 :=
  ⟨#[⟨0x6A09E667F3BCC908, 0xBB67AE8584CAA73B⟩, ⟨0x3C6EF372FE94F82B, 0xA54FF53A5F1D36F1⟩,
      ⟨0x510E527FADE682D1, 0x9B05688C2B3E6C1F⟩, ⟨0x1F83D9ABFB41BD6B, 0x5BE0CD19137E2179⟩], rfl⟩

/-- The order in which each of ten rounds takes up the words of the message. -/
def order : Vector (Vector (Fin 16) 16) 10 :=
  ⟨#[⟨#[0, 1, 2, 3, 4, 5, 6, 7, 8, 9, 10, 11, 12, 13, 14, 15], rfl⟩,
      ⟨#[14, 10, 4, 8, 9, 15, 13, 6, 1, 12, 0, 2, 11, 7, 5, 3], rfl⟩,
      ⟨#[11, 8, 12, 0, 5, 2, 15, 13, 10, 14, 3, 6, 7, 1, 9, 4], rfl⟩,
      ⟨#[7, 9, 3, 1, 13, 12, 11, 14, 2, 6, 5, 10, 4, 0, 15, 8], rfl⟩,
      ⟨#[9, 0, 5, 7, 2, 4, 10, 15, 14, 1, 11, 12, 6, 8, 3, 13], rfl⟩,
      ⟨#[2, 12, 6, 10, 0, 11, 8, 3, 4, 13, 7, 5, 15, 14, 1, 9], rfl⟩,
      ⟨#[12, 5, 1, 15, 14, 13, 4, 10, 0, 7, 6, 3, 9, 2, 8, 11], rfl⟩,
      ⟨#[13, 11, 7, 14, 12, 1, 3, 9, 5, 0, 15, 4, 8, 6, 2, 10], rfl⟩,
      ⟨#[6, 15, 14, 9, 11, 3, 0, 8, 12, 2, 13, 7, 1, 4, 10, 5], rfl⟩,
      ⟨#[10, 2, 8, 4, 7, 6, 1, 5, 15, 11, 9, 14, 3, 12, 13, 0], rfl⟩], rfl⟩

/-- Mixes four words with two words of the message. -/
def mix (x y a b c d : UInt64) : Quad :=
  let a := a + b + x
  let d := turnRight (d ^^^ a) 32
  let c := c + d
  let b := turnRight (b ^^^ c) 24
  let a := a + b + y
  let d := turnRight (d ^^^ a) 16
  let c := c + d
  let b := turnRight (b ^^^ c) 63
  ⟨a, b, c, d⟩

/-- One round on a message. -/
def round (message : Vector UInt64 16) (order : Vector (Fin 16) 16) (s : Square) : Square :=
  s.round fun place a b c d =>
    mix (message.get (order.get ⟨2 * place, by omega⟩))
      (message.get (order.get ⟨2 * place + 1, by omega⟩)) a b c d

/-- The words of up to 128 bytes, filled up with zeros. -/
def words (bs : Bytes) : Vector UInt64 16 :=
  .ofFn fun i => .ofNat (Octets.ofLittle ((bs.drop (8 * i)).take 8))

/-- The state after a block, when so many bytes have been taken in. -/
def compress (state : Vector Pair 4) (block : Bytes) (taken : Nat) (last : Bool) :
    Vector Pair 4 :=
  let count : Pair := ⟨.ofNat taken, .ofNat (taken >>> 64)⟩
  let mark : Pair := ⟨if last then 0xFFFFFFFFFFFFFFFF else 0, 0⟩
  let fresh : Vector Pair 4 :=
    ⟨#[start.get 0, start.get 1, (start.get 2).xor count, (start.get 3).xor mark], rfl⟩
  let message := words block
  let mixed := (List.range 12).foldl
    (fun s i => round message (order.get ⟨i % 10, by omega⟩) s) (state ++ fresh)
  .ofFn fun i =>
    ((state.get i).xor (mixed.get ⟨i, by omega⟩)).xor (mixed.get ⟨i + 4, by omega⟩)

/-- Takes in the blocks of a message. -/
def absorb (state : Vector Pair 4) (taken : Nat) : List Bytes → Vector Pair 4
  | [] => compress state [] taken true
  | [block] => compress state block (taken + block.length) true
  | block :: rest =>
    absorb (compress state block (taken + block.length) false) (taken + block.length) rest

/-- The digest of a message, of a length from 1 to 64 bytes. -/
def digest (length : Nat) (message : Bytes) : Bytes :=
  let first := (start.get 0).xor ⟨.ofNat (0x01010000 + length), 0⟩
  let state := absorb (start.set 0 first) 0 (Octets.pieces 128 message)
  (state.toList.flatMap Pair.toBytes).take length

end SealedStore.Blake2b
