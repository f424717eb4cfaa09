import SealedStore.Error
import SealedStore.Text.Utf8

set_option autoImplicit false

/-!
# Ciphers

What a store needs of a cipher, and two ciphers for rehearsals.  A cipher is told the number of the
call that it serves: whatever it draws at random, and whether it fails, may depend on it.
-/

namespace SealedStore

/-- A symmetric cipher. -/
structure Cipher where
  /-- Encrypts data, at a numbered call.  A salted ciphertext is under a key derived from the given
  one and a fresh salt. -/
  encrypt : (call : Nat) → (key data : Bytes) → (salted : Bool) → Answer Bytes
  /-- Decrypts what was encrypted under the same key and in the same mode. -/
  decrypt : (key data : Bytes) → (salted : Bool) → Answer Bytes
  /-- Derives a key from a secret and a salt. -/
  deriveKey : (secret salt : Bytes) → Answer Bytes

namespace Cipher

/-- The two bytes that a masked text begins with: the mode, and the length of the key. -/
def maskHeader (key : Bytes) (salted : Bool) : Bytes :=
  [if salted then 0x53 else 0x55, UInt8.ofNat key.length]

/-- A cipher that hides nothing: a header and the data with every byte inverted in part. -/
def mask : Cipher where
  encrypt _ key data salted := .ok (maskHeader key salted ++ data.map (· ^^^ 0x5A))
  decrypt key data salted :=
    if data.length < 2 then .error (.invalidCiphertext "mask: too short")
    else if data.take 2 ≠ maskHeader key salted then .error (.decryption "mask: bad header")
    else .ok ((data.drop 2).map (· ^^^ 0x5A))
  deriveKey secret _ := .ok secret

/-- A cipher that is out of order. -/
def broken (reason : Detail) : Cipher where
  encrypt _ _ _ _ := .error (.encryption reason)
  decrypt _ _ _ := .error (.decryption reason)
  deriveKey _ _ := .error (.keyDerivation reason)

/-- Decrypting a masked text gives the data back. -/
theorem mask_decrypt_encrypt (call : Nat) (key data : Bytes) (salted : Bool) :
    (mask.encrypt call key data salted).bind (mask.decrypt key · salted) = .ok data := by
  have htext : (data.map (· ^^^ 0x5A)).map (· ^^^ 0x5A) = data := by
    rw [List.map_map]
    refine (List.map_congr_left fun b _ => ?_).trans data.map_id
    simp only [Function.comp, UInt8.xor_assoc, UInt8.xor_self, UInt8.xor_zero, id]
  have hdecrypt : ∀ masked, mask.decrypt key (maskHeader key salted ++ masked) salted =
      .ok (masked.map (· ^^^ 0x5A)) := by
    intro masked
    simp [mask, maskHeader]
  exact (hdecrypt _).trans (congrArg Except.ok htext)

end Cipher

end SealedStore
