import SealedStore.Proofs.Cipher.Parts

set_option autoImplicit false

/-!
# Opening undoes sealing

A seal puts the nonce in front of the hidden text and the salt behind it.  These are the parts that
an opening finds, as bytes have parts in one way only.  Main statement: with algorithms that reveal
what they hid, opening brings the data back in both modes, and a seal has a fixed length more than
the data (`opensSealed`).
-/

namespace SealedStore.Sealed

/-- What a seal relies on: under a key and a nonce the algorithms reveal what they hid, which has
the length of a tag more than the text. -/
structure Algorithms.Reversible (a : Algorithms) : Prop where
  reveal_hide : ∀ key nonce text, a.reveal key nonce (a.hide key nonce text) = some text
  length_hide : ∀ key nonce text, (a.hide key nonce text).length = text.length + Gcm.tagLength

/-- At every cost the standard algorithms are such. -/
theorem Algorithms.reversible_standard (cost : Argon2.Cost) : (standard cost).Reversible where
  reveal_hide key nonce text := Gcm.decrypt_encrypt (blockCipher key) nonce text
  length_hide key nonce text := Gcm.length_encrypt (blockCipher key) nonce text

/-! ## The parts of a seal -/

section Seal

variable {a : Algorithms} (ha : a.Reversible) (key : Bytes) (drawn : Randomness) (data : Bytes)

/-- The parts that a seal under a derived key puts in a row. -/
def Parts.ofSeal : Parts where
  nonce := Octets.big nonceLength drawn.nonce.toNat
  hidden := a.hide key drawn.nonce data
  salt := Octets.big saltLength drawn.salt.toNat
  length_nonce := Octets.length_big _ _
  tagLength_le := by
    rw [ha.length_hide]
    exact Nat.le_add_left _ _
  length_salt := Octets.length_big _ _

theorem Parts.nonceBits_ofSeal : (ofSeal ha key drawn data).nonceBits = drawn.nonce := by
  have hfits : drawn.nonce.toNat % Nat.pow 256 nonceLength = drawn.nonce.toNat :=
    Nat.mod_eq_of_lt drawn.nonce.isLt
  unfold nonceBits ofSeal
  rw [Octets.ofBig_big, hfits, BitVec.ofNat_toNat, BitVec.setWidth_eq]

theorem Parts.length_bytes_ofSeal : (ofSeal ha key drawn data).bytes.length = data.length + 60 := by
  unfold bytes ofSeal
  rw [List.length_append, List.length_append, Octets.length_big, Octets.length_big, ha.length_hide]
  unfold nonceLength saltLength Gcm.tagLength
  omega

theorem reveal_ofSeal : reveal a key (Parts.ofSeal ha key drawn data) = .ok data := by
  unfold reveal
  rw [Parts.nonceBits_ofSeal]
  simp only [Parts.ofSeal, ha.reveal_hide]

end Seal

/-! ## Salted mode -/

section Salted

variable {a : Algorithms} {drawn : Randomness} {key derived : Bytes}

/-- A key and a salt that give a key seal any data, as the parts of the seal in a row. -/
theorem encryptWith_salted (ha : a.Reversible)
    (hkey : a.deriveKey key (Octets.big saltLength drawn.salt.toNat) = .ok derived) (data : Bytes) :
    encryptWith a drawn key data true = .ok (Parts.ofSeal ha derived drawn data).bytes :=
  encryptWith_of_genuine hkey rfl rfl rfl

theorem decryptWith_ofSeal (ha : a.Reversible)
    (hkey : a.deriveKey key (Octets.big saltLength drawn.salt.toNat) = .ok derived) (data : Bytes) :
    decryptWith a key (Parts.ofSeal ha derived drawn data).bytes true = .ok data := by
  have hparts := (Parts.ofBytes?_eq_some_iff _ (Parts.ofSeal ha derived drawn data)).2 rfl
  have hsalt : a.deriveKey key (Parts.ofSeal ha derived drawn data).salt = .ok derived := hkey
  rw [decryptWith_salted, hparts]
  simp only [hsalt]
  exact reveal_ofSeal ha derived drawn data

/-- A salt of full length gives a key by the standard algorithms. -/
theorem deriveKey_salt (cost : Argon2.Cost) (secret : Bytes) (salt : BitVec 256) :
    deriveKey cost secret (Octets.big saltLength salt.toNat) =
      .ok (Argon2.derive cost secret (Octets.big saltLength salt.toNat)) := by
  have hlong : ¬ (Octets.big saltLength salt.toNat).length < leastSaltLength := by
    rw [Octets.length_big]
    decide
  exact if_neg hlong

/-- With the standard algorithms any data can be sealed in salted mode. -/
theorem encrypt_salted_ok (cost : Argon2.Cost) (drawn : Randomness) (key data : Bytes) :
    ∃ sealed, encrypt cost drawn key data true = .ok sealed :=
  ⟨_, encryptWith_salted (Algorithms.reversible_standard cost)
    (deriveKey_salt cost key drawn.salt) data⟩

theorem decrypt_encrypt_salted (cost : Argon2.Cost) (drawn : Randomness) (key data : Bytes) :
    (encrypt cost drawn key data true).bind (decrypt cost key · true) = .ok data := by
  have hstandard := Algorithms.reversible_standard cost
  have hkey := deriveKey_salt cost key drawn.salt
  unfold encrypt
  rw [encryptWith_salted hstandard hkey]
  exact decryptWith_ofSeal hstandard hkey data

end Salted

/-! ## Unsalted mode -/

section Unsalted

variable {a : Algorithms} {drawn : Randomness} {key : Bytes}

theorem rawKey_ok (h : key.length = 32) : rawKey key = .ok key := if_pos h

theorem rawKey_error (h : key.length ≠ 32) :
    rawKey key = .error (.keyDerivation s!"unsalted mode needs a 32-byte key, got {key.length}") :=
  if_neg h

theorem encryptWith_unsalted (data : Bytes) :
    encryptWith a drawn key data false =
      (rawKey key).bind fun key => .ok (lock a key drawn.nonce data) := rfl

theorem decryptWith_unsalted (raw : Bytes) :
    decryptWith a key raw false = (rawKey key).bind fun key => unlock a key raw := rfl

theorem length_lock (ha : a.Reversible) (nonce : Gcm.Nonce) (data : Bytes) :
    (lock a key nonce data).length = data.length + 28 := by
  unfold lock
  rw [List.length_append, Octets.length_big, ha.length_hide]
  unfold nonceLength Gcm.tagLength
  omega

/-- Without a salt the other parts of a seal are put in a row. -/
theorem unlock_lock (ha : a.Reversible) (data : Bytes) :
    unlock a key (lock a key drawn.nonce data) = .ok data :=
  (unlock_parts a key (Parts.ofSeal ha key drawn data)).trans (reveal_ofSeal ha key drawn data)

end Unsalted

/-! ## Both modes -/

/-- What comes of sealing data and opening them again. -/
structure OpensSealed (a : Algorithms) (drawn : Randomness) (key data : Bytes) : Prop where
  /-- In salted mode any data are sealed and brought back if the key and the salt give a key. -/
  salted : ∀ derived, a.deriveKey key (Octets.big saltLength drawn.salt.toNat) = .ok derived →
    ∃ sealed, encryptWith a drawn key data true = .ok sealed ∧
      decryptWith a key sealed true = .ok data ∧ sealed.length = data.length + 60
  /-- In unsalted mode any data are sealed and brought back under a key of the right length. -/
  unsalted : key.length = 32 →
    ∃ sealed, encryptWith a drawn key data false = .ok sealed ∧
      decryptWith a key sealed false = .ok data ∧ sealed.length = data.length + 28
  /-- Under a key of another length nothing is sealed or opened. -/
  refused : key.length ≠ 32 →
    let e := StoreError.keyDerivation s!"unsalted mode needs a 32-byte key, got {key.length}"
    encryptWith a drawn key data false = .error e ∧ ∀ raw, decryptWith a key raw false = .error e

/-- Opening undoes sealing in both modes, whatever the data, the key and what is drawn; a seal has
the nonce, the tag and, in salted mode, the salt more than the data. -/
theorem opensSealed {a : Algorithms} (ha : a.Reversible) (drawn : Randomness) (key data : Bytes) :
    OpensSealed a drawn key data where
  salted derived hkey :=
    ⟨_, encryptWith_salted ha hkey data, decryptWith_ofSeal ha hkey data,
      Parts.length_bytes_ofSeal ha derived drawn data⟩
  unsalted hlength := by
    refine ⟨lock a key drawn.nonce data, ?_, ?_, length_lock ha drawn.nonce data⟩
    · rw [encryptWith_unsalted, rawKey_ok hlength]
      rfl
    · rw [decryptWith_unsalted, rawKey_ok hlength]
      exact unlock_lock ha data
  refused hlength := by
    refine ⟨?_, fun raw => ?_⟩
    · rw [encryptWith_unsalted, rawKey_error hlength]
      rfl
    · rw [decryptWith_unsalted, rawKey_error hlength]
      rfl

/-- The standard algorithms at the least cost that is accepted: nothing at all is sealed under the
empty secret, and a raw key that is too short is refused. -/
theorem opensSealed_least :
    ∃ cost, Argon2.Cost.check 8 1 = .ok cost ∧ (Algorithms.standard cost).Reversible ∧
      (∃ sealed, encrypt cost ⟨0, 0⟩ [] [] true = .ok sealed ∧
        decrypt cost [] sealed true = .ok [] ∧ sealed.length = 60) ∧
      (∃ sealed, encrypt cost ⟨0, 0⟩ (.replicate 32 7) [1, 2] false = .ok sealed ∧
        decrypt cost (.replicate 32 7) sealed false = .ok [1, 2] ∧ sealed.length = 30) ∧
      encrypt cost ⟨0, 0⟩ [7] [1, 2] false =
        .error (.keyDerivation "unsalted mode needs a 32-byte key, got 1") := by
  let cost : Argon2.Cost := ⟨8, 1, by decide, by decide⟩
  have hstandard := Algorithms.reversible_standard cost
  exact ⟨cost, rfl, hstandard,
    (opensSealed hstandard ⟨0, 0⟩ [] []).salted _ (deriveKey_salt cost [] 0),
    (opensSealed hstandard ⟨0, 0⟩ (.replicate 32 7) [1, 2]).unsalted (by decide),
    ((opensSealed hstandard ⟨0, 0⟩ [7] [1, 2]).refused (by decide)).1⟩

end SealedStore.Sealed
