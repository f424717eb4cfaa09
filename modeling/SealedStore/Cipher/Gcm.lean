import SealedStore.Cipher.Aes

set_option autoImplicit false

/-!
# Authenticated encryption

Galois counter mode over a block cipher, with a nonce of 96 bits and a tag of 128 bits.  Main
statement: what was encrypted decrypts to itself under the same cipher and nonce
(`decrypt_encrypt`).
-/

namespace SealedStore.Gcm

/-- A value that is used for one encryption only. -/
abbrev Nonce := BitVec 96

/-! ## Counter mode -/

/-- The numbered counter block of a nonce. -/
def counterBlock (nonce : Nonce) (n : Nat) : Block := nonce ++ BitVec.ofNat 32 n

/-- The stream of so many blocks that hides a text; the first counter block is kept for the tag. -/
def keystream (cipher : Block → Block) (nonce : Nonce) (count : Nat) : Bytes :=
  (List.range count).flatMap fun i => (cipher (counterBlock nonce (i + 2))).toBytes

/-- Hides a text, or brings it back. -/
def xorStream (cipher : Block → Block) (nonce : Nonce) (text : Bytes) : Bytes :=
  List.zipWith (· ^^^ ·) text (keystream cipher nonce ((text.length + 15) / 16))

/-! ## The tag -/

/-- The product in the field of 2¹²⁸ elements, by the remaining bits of the left factor, the lowest
powers first. -/
def mulBits (x : Block) : (bits : Nat) → (power sum : Block) → Block
  | 0, _, sum => sum
  | bits + 1, power, sum =>
    let sum := if x.getLsbD bits then sum ^^^ power else sum
    let power := if power.getLsbD 0 then (power >>> 1) ^^^ (0xE1#128 <<< 120) else power >>> 1
    mulBits x bits power sum

/-- The product of two elements of the field. -/
def mul (x y : Block) : Block := mulBits x 128 y 0

/-- The hash of blocks under a key. -/
def hash (key : Block) (blocks : List Block) : Block :=
  blocks.foldl (fun sum b => mul (sum ^^^ b) key) 0

/-- The tag of a hidden text. -/
def tag (cipher : Block → Block) (nonce : Nonce) (hidden : Bytes) : Block :=
  let length := BitVec.ofNat 128 (8 * hidden.length)
  let blocks := (Octets.pieces 16 hidden).map Block.ofBytes ++ [length]
  hash (cipher 0) blocks ^^^ cipher (counterBlock nonce 1)

/-! ## Encryption -/

/-- The length of a tag in bytes. -/
def tagLength : Nat := 16

/-- Hides a text and puts the tag behind it. -/
def encrypt (cipher : Block → Block) (nonce : Nonce) (text : Bytes) : Bytes :=
  let hidden := xorStream cipher nonce text
  hidden ++ (tag cipher nonce hidden).toBytes

/-- Brings a text back if its tag is right. -/
def decrypt (cipher : Block → Block) (nonce : Nonce) (data : Bytes) : Option Bytes :=
  let hidden := data.take (data.length - tagLength)
  if data.drop (data.length - tagLength) = (tag cipher nonce hidden).toBytes then
    some (xorStream cipher nonce hidden)
  else none

/-! ## Decryption undoes encryption -/

theorem length_keystream (cipher : Block → Block) (nonce : Nonce) (count : Nat) :
    (keystream cipher nonce count).length = 16 * count := by
  induction count with
  | zero => rfl
  | succ count ih =>
    simp only [keystream] at ih
    simp [keystream, List.range_succ, List.flatMap_append, ih]
    omega

@[simp] theorem length_xorStream (cipher : Block → Block) (nonce : Nonce) (text : Bytes) :
    (xorStream cipher nonce text).length = text.length := by
  simp only [xorStream, List.length_zipWith, length_keystream]
  omega

theorem zipWith_xor_twice (text stream : Bytes) (h : text.length ≤ stream.length) :
    List.zipWith (· ^^^ ·) (List.zipWith (· ^^^ ·) text stream) stream = text := by
  induction text generalizing stream with
  | nil => simp
  | cons a text ih =>
    cases stream with
    | nil => simp at h
    | cons b stream =>
      have hrest : text.length ≤ stream.length := Nat.le_of_succ_le_succ h
      rw [List.zipWith_cons_cons, List.zipWith_cons_cons, ih stream hrest, UInt8.xor_assoc,
        UInt8.xor_self, UInt8.xor_zero]

/-- Hiding a text twice brings it back. -/
@[simp] theorem xorStream_xorStream (cipher : Block → Block) (nonce : Nonce) (text : Bytes) :
    xorStream cipher nonce (xorStream cipher nonce text) = text := by
  have e : xorStream cipher nonce (xorStream cipher nonce text) =
      List.zipWith (· ^^^ ·) (xorStream cipher nonce text)
        (keystream cipher nonce (((xorStream cipher nonce text).length + 15) / 16)) := rfl
  rw [e, length_xorStream]
  apply zipWith_xor_twice
  rw [length_keystream]
  omega

@[simp] theorem length_encrypt (cipher : Block → Block) (nonce : Nonce) (text : Bytes) :
    (encrypt cipher nonce text).length = text.length + tagLength := by
  simp [encrypt, tagLength]

theorem decrypt_encrypt (cipher : Block → Block) (nonce : Nonce) (text : Bytes) :
    decrypt cipher nonce (encrypt cipher nonce text) = some text := by
  have hl : (encrypt cipher nonce text).length - tagLength =
      (xorStream cipher nonce text).length := by simp
  simp only [decrypt, hl]
  simp [encrypt]

/-- What decrypts was encrypted. -/
theorem encrypt_of_decrypt {cipher : Block → Block} {nonce : Nonce} {data text : Bytes}
    (h : decrypt cipher nonce data = some text) : encrypt cipher nonce text = data := by
  unfold decrypt at h
  simp only at h
  split at h
  · rename_i htag
    obtain rfl := Option.some.inj h
    unfold encrypt
    simp only [xorStream_xorStream]
    rw [← htag, List.take_append_drop]
  · cases h

end SealedStore.Gcm
