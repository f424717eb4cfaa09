import SealedStore.Cipher.Sealed

set_option autoImplicit false

/-!
# The parts of sealed bytes

Bytes that are long enough to have been sealed in salted mode are a nonce, a hidden text with its
tag, and a salt, in exactly one way (`ofBytes?_eq_some_iff`), and opening reads all three parts
(`decryptWith_salted`).  When nothing opens but what was sealed under the secret, bytes that were
not sealed under it are refused (`decryptWith_of_not_sealed`).
-/

namespace SealedStore.Sealed

/-- The parts of bytes sealed in salted mode. -/
@[ext] structure Parts where
  /-- The nonce. -/
  nonce : Bytes
  /-- The hidden text with its tag. -/
  hidden : Bytes
  /-- The salt. -/
  salt : Bytes
  length_nonce : nonce.length = nonceLength
  tagLength_le : Gcm.tagLength ≤ hidden.length
  length_salt : salt.length = saltLength

namespace Parts

/-- The least length of bytes sealed in salted mode. -/
def leastLength : Nat := nonceLength + Gcm.tagLength + saltLength

/-- The parts in a row. -/
def bytes (p : Parts) : Bytes := p.nonce ++ p.hidden ++ p.salt

/-- Cuts bytes into their parts; the nonce is cut off the one end and the salt off the other. -/
def ofBytes? (raw : Bytes) : Option Parts :=
  if h : raw.length < leastLength then none
  else
    some {
      nonce := raw.take nonceLength
      hidden := (raw.take (raw.length - saltLength)).drop nonceLength
      salt := raw.drop (raw.length - saltLength)
      length_nonce := by
        unfold leastLength at h
        rw [List.length_take]
        omega
      tagLength_le := by
        unfold leastLength at h
        rw [List.length_drop, List.length_take]
        omega
      length_salt := by
        unfold leastLength at h
        rw [List.length_drop]
        omega }

theorem length_bytes (p : Parts) : leastLength ≤ p.bytes.length := by
  have hnonce := p.length_nonce
  have hhidden := p.tagLength_le
  have hsalt := p.length_salt
  unfold leastLength bytes
  rw [List.length_append, List.length_append]
  omega

/-- Bytes have no parts exactly if they are too short. -/
theorem ofBytes?_eq_none_iff (raw : Bytes) : ofBytes? raw = none ↔ raw.length < leastLength := by
  unfold ofBytes?
  split
  · rename_i h
    exact ⟨fun _ => h, fun _ => rfl⟩
  · rename_i h
    exact iff_of_false nofun h

/-- The parts of bytes in a row are the bytes. -/
theorem bytes_of_ofBytes? {raw : Bytes} {p : Parts} (h : ofBytes? raw = some p) :
    p.bytes = raw := by
  unfold ofBytes? at h
  split at h
  · cases h
  · rename_i hlong
    obtain rfl := Option.some.inj h
    have htake : raw.take nonceLength = (raw.take (raw.length - saltLength)).take nonceLength := by
      unfold leastLength at hlong
      rw [List.take_take]
      congr 1
      omega
    unfold bytes
    simp only
    rw [htake, List.take_append_drop, List.take_append_drop]

/-- Different parts are different bytes: nonce and salt have fixed lengths. -/
theorem eq_of_bytes_eq {p q : Parts} (h : p.bytes = q.bytes) : p = q := by
  unfold bytes at h
  have hsalt : p.salt.length = q.salt.length := p.length_salt.trans q.length_salt.symm
  obtain ⟨hfront, hsalt⟩ := List.append_inj' h hsalt
  have hnonce : p.nonce.length = q.nonce.length := p.length_nonce.trans q.length_nonce.symm
  obtain ⟨hnonce, hhidden⟩ := List.append_inj hfront hnonce
  exact Parts.ext hnonce hhidden hsalt

/-- Bytes are cut into parts in exactly one way: no byte is left out and none is in two parts. -/
theorem ofBytes?_eq_some_iff (raw : Bytes) (p : Parts) : ofBytes? raw = some p ↔ p.bytes = raw := by
  constructor
  · exact bytes_of_ofBytes?
  · rintro rfl
    cases hparts : ofBytes? p.bytes with
    | none =>
      have hshort := (ofBytes?_eq_none_iff p.bytes).1 hparts
      exact absurd p.length_bytes (Nat.not_le.2 hshort)
    | some q => rw [eq_of_bytes_eq (bytes_of_ofBytes? hparts)]

/-- The nonce as the algorithms take it. -/
def nonceBits (p : Parts) : Gcm.Nonce := BitVec.ofNat 96 (Octets.ofBig p.nonce)

end Parts

/-! ## Opening reads the parts -/

/-- Opens the parts of bytes with a key. -/
def reveal (a : Algorithms) (key : Bytes) (p : Parts) : Answer Bytes :=
  match a.reveal key p.nonceBits p.hidden with
  | some text => .ok text
  | none => .error (.decryption "authentication failed")

theorem unlock_parts (a : Algorithms) (key : Bytes) (p : Parts) :
    unlock a key (p.nonce ++ p.hidden) = reveal a key p := by
  have hlong : ¬ (p.nonce ++ p.hidden).length < nonceLength + Gcm.tagLength := by
    have hnonce := p.length_nonce
    have hhidden := p.tagLength_le
    rw [List.length_append]
    omega
  unfold unlock
  rw [if_neg hlong, List.take_left' p.length_nonce, List.drop_left' p.length_nonce]
  rfl

/-- To open bytes is to derive a key from their salt and to reveal the rest with it, if they are
long enough to have parts. -/
theorem decryptWith_salted (a : Algorithms) (secret raw : Bytes) :
    decryptWith a secret raw true =
      match Parts.ofBytes? raw with
      | none =>
        .error (.invalidCiphertext s!"{raw.length} bytes is shorter than nonce, tag and salt")
      | some p => (a.deriveKey secret p.salt).bind fun key => reveal a key p := by
  unfold decryptWith
  rw [if_pos rfl]
  cases hparts : Parts.ofBytes? raw with
  | none =>
    have hshort : raw.length < nonceLength + Gcm.tagLength + saltLength :=
      (Parts.ofBytes?_eq_none_iff raw).1 hparts
    simp only [if_pos hshort]
    rfl
  | some p =>
    have hraw : p.bytes = raw := (Parts.ofBytes?_eq_some_iff raw p).1 hparts
    have hlong : ¬ raw.length < nonceLength + Gcm.tagLength + saltLength :=
      hraw ▸ Nat.not_lt.2 p.length_bytes
    have hsplit : raw.splitAt (raw.length - saltLength) = (p.nonce ++ p.hidden, p.salt) := by
      have hlength : raw.length - saltLength = (p.nonce ++ p.hidden).length := by
        rw [← hraw, Parts.bytes, List.length_append, p.length_salt, Nat.add_sub_cancel]
      rw [List.splitAt_eq, hlength, ← hraw, Parts.bytes, List.take_left, List.drop_left]
    simp only [if_neg hlong, hsplit, unlock_parts]
    rfl

/-- Opening under a secret reads nothing but the parts of bytes, and all of them. -/
structure ReadsParts (a : Algorithms) (secret : Bytes) : Prop where
  /-- Bytes have parts unless they are too short. -/
  short : ∀ raw, Parts.ofBytes? raw = none ↔ raw.length < 60
  /-- The parts of bytes in a row are the bytes, and other parts are other bytes. -/
  exact : ∀ raw p, Parts.ofBytes? raw = some p ↔ p.bytes = raw
  /-- The salt gives a key, with which the other parts are revealed. -/
  opens : ∀ raw, decryptWith a secret raw true =
    match Parts.ofBytes? raw with
    | none => .error (.invalidCiphertext s!"{raw.length} bytes is shorter than nonce, tag and salt")
    | some p => (a.deriveKey secret p.salt).bind fun key => reveal a key p

theorem readsParts (a : Algorithms) (secret : Bytes) : ReadsParts a secret where
  short := Parts.ofBytes?_eq_none_iff
  exact := Parts.ofBytes?_eq_some_iff
  opens := decryptWith_salted a secret

/-! ## What was not sealed does not open -/

/-- What is relied on of the algorithms under a secret: salts of full length give keys, and nothing
is revealed but what one of the seals that were made hid, under its nonce and its salt. -/
structure Authentic (a : Algorithms) (secret : Bytes) (made : Randomness → Bytes → Prop) :
    Prop where
  derives : ∀ salt : Bytes, salt.length = saltLength → ∃ key, a.deriveKey secret salt = .ok key
  genuine : ∀ (p : Parts) key text, a.deriveKey secret p.salt = .ok key →
    a.reveal key p.nonceBits p.hidden = some text →
      ∃ drawn data, made drawn data ∧ p.nonce = Octets.big nonceLength drawn.nonce.toNat ∧
        p.salt = Octets.big saltLength drawn.salt.toNat ∧ p.hidden = a.hide key drawn.nonce data

/-- Why bytes that were not sealed are refused. -/
def refusal (raw : Bytes) : StoreError :=
  if raw.length < Parts.leastLength then
    .invalidCiphertext s!"{raw.length} bytes is shorter than nonce, tag and salt"
  else .decryption "authentication failed"

theorem refusal_of_short {raw : Bytes} (h : raw.length < 60) :
    refusal raw =
      .invalidCiphertext s!"{raw.length} bytes is shorter than nonce, tag and salt" :=
  if_pos h

theorem refusal_of_long {raw : Bytes} (h : 60 ≤ raw.length) :
    refusal raw = .decryption "authentication failed" :=
  if_neg (Nat.not_lt.2 h)

/-- Parts that are revealed are those of a seal that was made. -/
theorem encryptWith_of_genuine {a : Algorithms} {secret key : Bytes} {drawn : Randomness}
    {data : Bytes} {p : Parts} (hkey : a.deriveKey secret p.salt = .ok key)
    (hnonce : p.nonce = Octets.big nonceLength drawn.nonce.toNat)
    (hsalt : p.salt = Octets.big saltLength drawn.salt.toNat)
    (hhidden : p.hidden = a.hide key drawn.nonce data) :
    encryptWith a drawn secret data true = .ok p.bytes := by
  unfold encryptWith Parts.bytes
  rw [hsalt] at hkey
  simp only [if_true, hkey, hnonce, hsalt, hhidden]
  rfl

/-- Bytes that no seal under the secret is are refused: as malformed if they are too short to have
parts, and else because their tag is wrong. -/
theorem decryptWith_of_not_sealed {a : Algorithms} {secret : Bytes}
    {made : Randomness → Bytes → Prop} (ha : Authentic a secret made) {raw : Bytes}
    (hraw : ∀ drawn data, made drawn data → encryptWith a drawn secret data true ≠ .ok raw) :
    decryptWith a secret raw true = .error (refusal raw) := by
  rw [decryptWith_salted]
  unfold refusal
  cases hparts : Parts.ofBytes? raw with
  | none => rw [if_pos ((Parts.ofBytes?_eq_none_iff raw).1 hparts)]
  | some p =>
    have hbytes : p.bytes = raw := (Parts.ofBytes?_eq_some_iff raw p).1 hparts
    have hlong : ¬ raw.length < Parts.leastLength := hbytes ▸ Nat.not_lt.2 p.length_bytes
    obtain ⟨key, hkey⟩ := ha.derives p.salt p.length_salt
    have hhidden : a.reveal key p.nonceBits p.hidden = none := by
      cases hreveal : a.reveal key p.nonceBits p.hidden with
      | none => rfl
      | some text =>
        -- What opens was sealed, and bytes have only one set of parts.
        obtain ⟨drawn, data, hmade, hnonce, hsalt, hhidden⟩ := ha.genuine p key text hkey hreveal
        have hsealed := encryptWith_of_genuine hkey hnonce hsalt hhidden
        rw [hbytes] at hsealed
        exact absurd hsealed (hraw drawn data hmade)
    rw [if_neg hlong]
    simp only [hkey, Except.bind, reveal, hhidden]

/-! ## The standard algorithms -/

/-- Whatever the standard algorithms reveal could have been sealed with them. -/
theorem authentic_standard (cost : Argon2.Cost) (secret : Bytes) :
    Authentic (.standard cost) secret fun _ _ => True where
  derives salt hsalt := by
    refine ⟨Argon2.derive cost secret salt, ?_⟩
    have hlong : ¬ salt.length < leastSaltLength := by
      rw [hsalt]
      decide
    rw [Algorithms.deriveKey_standard, deriveKey, if_neg hlong]
  genuine p key text hkey htext := by
    have hnonce : Octets.big p.nonce.length p.nonceBits.toNat = p.nonce :=
      Octets.big_toNat_ofNat p.nonce (by rw [p.length_nonce]; rfl)
    have hsalt : Octets.big p.salt.length (BitVec.ofNat 256 (Octets.ofBig p.salt)).toNat = p.salt :=
      Octets.big_toNat_ofNat p.salt (by rw [p.length_salt]; rfl)
    rw [p.length_nonce] at hnonce
    rw [p.length_salt] at hsalt
    exact ⟨⟨p.nonceBits, BitVec.ofNat 256 (Octets.ofBig p.salt)⟩, text, trivial, hnonce.symm,
      hsalt.symm, (Gcm.encrypt_of_decrypt htext).symm⟩

/-- The empty text is hidden in one way only under a nonce and a salt: with another tag nothing was
sealed. -/
theorem encryptWith_ne_of_wrong_tag (cost : Argon2.Cost) (secret : Bytes) (r : Randomness)
    {key hidden : Bytes}
    (hkey : deriveKey cost secret (Octets.big saltLength r.salt.toNat) = .ok key)
    (hlength : hidden.length = Gcm.tagLength)
    (hwrong : hidden ≠ Gcm.encrypt (blockCipher key) r.nonce []) (drawn : Randomness)
    (data : Bytes) :
    encryptWith (.standard cost) drawn secret data true ≠
      .ok (Octets.big nonceLength r.nonce.toNat ++ hidden ++
        Octets.big saltLength r.salt.toNat) := by
  intro h
  obtain ⟨key', hkey'⟩ := (authentic_standard cost secret).derives
    (Octets.big saltLength drawn.salt.toNat) (Octets.length_big _ _)
  unfold encryptWith at h
  simp only [if_true, hkey'] at h
  have hbytes := Except.ok.inj h
  obtain ⟨hfront, hsalt⟩ := List.append_inj' hbytes (by simp)
  obtain ⟨hnonce, hhidden⟩ := List.append_inj hfront (by simp)
  have hsame : drawn.nonce = r.nonce := Octets.eq_of_big_eq rfl hnonce
  rw [hsalt, Algorithms.deriveKey_standard, hkey] at hkey'
  obtain rfl := Except.ok.inj hkey'
  have hencrypt : Gcm.encrypt (blockCipher key) r.nonce data = hidden := hsame ▸ hhidden
  have hempty : data = [] := by
    have hlong := congrArg List.length hencrypt
    rw [Gcm.length_encrypt, hlength] at hlong
    exact List.eq_nil_of_length_eq_zero (by omega)
  rw [hempty] at hencrypt
  exact hwrong hencrypt.symm

end SealedStore.Sealed
