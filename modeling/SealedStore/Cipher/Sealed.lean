import SealedStore.Cipher.Argon2
import SealedStore.Cipher.Basic
import SealedStore.Cipher.Gcm

set_option autoImplicit false

/-!
# Sealed bytes

The cipher of a store: AES-256 in Galois counter mode, under a key that Argon2id derives from the
secret and a salt.  A sealed text is the nonce, the hidden text with its tag and, in salted mode,
the salt.  How the parts are laid out does not depend on the algorithms, which are a parameter.
-/

namespace SealedStore

/-- Checks how much work a derivation is to be. -/
def Argon2.Cost.check (memory passes : Nat) : Answer Argon2.Cost :=
  if hm : 8 ≤ memory then
    if hp : 0 < passes then .ok ⟨memory, passes, hm, hp⟩
    else .error (.keyDerivation "Invalid Argon2 params: time cost is too small")
  else .error (.keyDerivation "Invalid Argon2 params: memory cost is too small")

/-- The work that is usual for a store: 19 MiB, gone through twice. -/
def Argon2.Cost.usual : Argon2.Cost := ⟨19 * 1024, 2, by decide, by decide⟩

namespace Sealed

/-- What a seal draws at random. -/
structure Randomness where
  /-- The nonce. -/
  nonce : Gcm.Nonce
  /-- The salt, for salted mode. -/
  salt : BitVec 256
  deriving DecidableEq, Repr, Inhabited

/-- The length of a nonce in bytes. -/
def nonceLength : Nat := 12

/-- The length of a salt in bytes. -/
def saltLength : Nat := 32

/-- The least length of a salt that a key is derived from. -/
def leastSaltLength : Nat := 8

/-- The block cipher of a key. -/
def blockCipher (key : Bytes) : Block → Block := Aes.encryptBlock (Aes.roundKeys key)

/-- Derives a key. -/
def deriveKey (cost : Argon2.Cost) (secret salt : Bytes) : Answer Bytes :=
  if salt.length < leastSaltLength then .error (.keyDerivation "salt is too short")
  else .ok (Argon2.derive cost secret salt)

/-- A key that is used as it is has to have the right length. -/
def rawKey (key : Bytes) : Answer Bytes :=
  if key.length = Argon2.keyLength then .ok key
  else .error (.keyDerivation
    s!"unsalted mode needs a {Argon2.keyLength}-byte key, got {key.length}")

/-- The algorithms that sealing rests on. -/
structure Algorithms where
  /-- Derives a key from a secret and a salt. -/
  deriveKey : (secret salt : Bytes) → Answer Bytes
  /-- Hides a text under a key and puts the tag behind it. -/
  hide : (key : Bytes) → (nonce : Gcm.Nonce) → (text : Bytes) → Bytes
  /-- Brings a hidden text back if its tag is right. -/
  reveal : (key : Bytes) → (nonce : Gcm.Nonce) → (hidden : Bytes) → Option Bytes

/-- Argon2id at some cost, and AES-256 in Galois counter mode. -/
def Algorithms.standard (cost : Argon2.Cost) : Algorithms where
  deriveKey := Sealed.deriveKey cost
  hide key := Gcm.encrypt (blockCipher key)
  reveal key := Gcm.decrypt (blockCipher key)

@[simp] theorem Algorithms.deriveKey_standard (cost : Argon2.Cost) (secret salt : Bytes) :
    (standard cost).deriveKey secret salt = Sealed.deriveKey cost secret salt := rfl

section Layout

variable (a : Algorithms)

/-- Seals a text under a key: the nonce goes in front. -/
def lock (key : Bytes) (nonce : Gcm.Nonce) (text : Bytes) : Bytes :=
  Octets.big nonceLength nonce.toNat ++ a.hide key nonce text

/-- Opens a sealed text. -/
def unlock (key data : Bytes) : Answer Bytes :=
  if data.length < nonceLength + Gcm.tagLength then
    .error (.invalidCiphertext s!"{data.length} bytes is shorter than nonce and tag")
  else
    let nonce := BitVec.ofNat 96 (Octets.ofBig (data.take nonceLength))
    match a.reveal key nonce (data.drop nonceLength) with
    | some text => .ok text
    | none => .error (.decryption "authentication failed")

/-- Seals data in either mode; in salted mode the salt goes to the end. -/
def encryptWith (drawn : Randomness) (key data : Bytes) (salted : Bool) : Answer Bytes := do
  if salted then
    let salt := Octets.big saltLength drawn.salt.toNat
    let derived ← a.deriveKey key salt
    return lock a derived drawn.nonce data ++ salt
  else
    let key ← rawKey key
    return lock a key drawn.nonce data

/-- Opens data in either mode. -/
def decryptWith (key data : Bytes) (salted : Bool) : Answer Bytes := do
  if salted then
    if data.length < nonceLength + Gcm.tagLength + saltLength then
      throw (.invalidCiphertext s!"{data.length} bytes is shorter than nonce, tag and salt")
    let (locked, salt) := data.splitAt (data.length - saltLength)
    let derived ← a.deriveKey key salt
    unlock a derived locked
  else
    let key ← rawKey key
    unlock a key data

end Layout

/-- Seals data in either mode with the standard algorithms. -/
def encrypt (cost : Argon2.Cost) (drawn : Randomness) (key data : Bytes) (salted : Bool) :
    Answer Bytes :=
  encryptWith (.standard cost) drawn key data salted

/-- Opens data in either mode with the standard algorithms. -/
def decrypt (cost : Argon2.Cost) (key data : Bytes) (salted : Bool) : Answer Bytes :=
  decryptWith (.standard cost) key data salted

end Sealed

/-- The cipher that seals with given algorithms, with the randomness that each numbered call
draws. -/
def Cipher.sealingWith (a : Sealed.Algorithms) (drawn : (call : Nat) → Sealed.Randomness) : Cipher
    where
  encrypt call key data salted := Sealed.encryptWith a (drawn call) key data salted
  decrypt key data salted := Sealed.decryptWith a key data salted
  deriveKey secret salt := a.deriveKey secret salt

/-- The cipher of a store, with the randomness that each numbered call draws. -/
def Cipher.sealing (cost : Argon2.Cost) (drawn : (call : Nat) → Sealed.Randomness) : Cipher :=
  .sealingWith (.standard cost) drawn

end SealedStore
