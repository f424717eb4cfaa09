import SealedStore.Proofs.Cipher.Parts
import SealedStore.Proofs.Keyspace.Slots
import SealedStore.Proofs.Store.ValueWrites

set_option autoImplicit false

/-!
# Bytes that were tampered with

Someone who has the keyspace but not the secret may put any bytes in the place of those that a store
wrote.  Main statement: a read of such bytes fails, unless they were sealed under the secret
themselves (`get_of_tampered`).
-/

namespace SealedStore

/-- A keyspace in which other bytes came to lie under a name; the deadline is what it was. -/
def Keyspace.overwrite (b : Keyspace) (name : String) (raw : Bytes) : Keyspace :=
  match b.slots[name]? with
  | some slot => b.put name { slot with datum := .string raw }
  | none => b

/-- What was put in place of a live slot is read. -/
theorem Keyspace.get_overwrite {b : Keyspace} {now : Nat} {name : String}
    (h : b.contains now name = true) (raw : Bytes) :
    (b.overwrite name raw).get now name = .ok (some raw) := by
  obtain ⟨slot, hlive⟩ := Option.isSome_iff_exists.1 h
  have hslot : b.slots[name]? = some slot := Option.eq_some_of_filter_eq_some hlive
  have hexpired : Slot.isExpired { slot with datum := .string raw } now = false := by
    have hfilter := (Option.filter_eq_some_iff.1 hlive).2
    simpa [Slot.isExpired] using hfilter
  unfold overwrite
  rw [hslot]
  simp only
  exact get_eq_some.2 ⟨slot.deadline, by rw [live?_put_self, hexpired]; rfl⟩

namespace Store

/-- A store at another moment, with other bytes under a name. -/
def tampered (s : Store Keyspace) (later : Instant) (name : String) (raw : Bytes) :
    Store Keyspace :=
  { s with clock := later, backend := s.backend.overwrite name raw }

/-- Reading a key as a value or as any type fails with an error, and leaves the store alone. -/
def FailsToRead (s : Store Keyspace) (h : Handle) (key : String) (space : Option String)
    (e : StoreError) : Prop :=
  (h.getValue key space).runOn s = (.error e, s) ∧
    ∀ schema, (h.get key space schema).runOn s = (.error e, s)

/-- A key cannot be read when the bytes that are live there do not open. -/
theorem failsToRead_of_openBytes {h : Handle} {key : String} {space : Option String}
    {s : Store Keyspace} {raw : Bytes} {e : StoreError}
    (hget : s.backend.get s.clock.unixMillis (h.fullName key space) = .ok (some raw))
    (hopen : s.openBytes raw = .error e) :
    s.FailsToRead h key space (e.inContext "get" (h.fullName key space)) := by
  have hvalue : (h.getValue key space).runOn s =
      (.error (e.inContext "get" (h.fullName key space)), s) := by
    unfold Handle.getValue
    rw [runOn_read, hget]
    simp only [Except.bind, hopen]
    rfl
  refine ⟨hvalue, fun schema => ?_⟩
  unfold Handle.get
  rw [Action.runOn_bind, hvalue]

/-- Bytes that no seal under the secret is do not open in a store with the secret. -/
theorem openBytes_of_not_sealed {a : Sealed.Algorithms} {drawn : Nat → Sealed.Randomness}
    {secret : Bytes} {made : Sealed.Randomness → Bytes → Prop}
    (ha : Sealed.Authentic a secret made) {s : Store Keyspace}
    (hs : s.encryption = some ⟨secret, .sealingWith a drawn⟩) {raw : Bytes}
    (hraw : ∀ drawn data, made drawn data →
      Sealed.encryptWith a drawn secret data true ≠ .ok raw) :
    s.openBytes raw = .error (Sealed.refusal raw) := by
  have hdecrypt := Sealed.decryptWith_of_not_sealed ha hraw
  unfold openBytes decryptBytes
  rw [hs]
  simp only [Cipher.sealingWith, hdecrypt]
  rfl

/-- A value that was written lies in the keyspace as bytes sealed under the secret of the store.
After other bytes came to lie there, which no seal under the secret is, a read of the value fails at
any later moment at which it is there: the bytes are malformed if they are too short to have parts,
and else they do not open.  Long enough bytes are cut into their parts in exactly one way, and
opening reads all parts and nothing else. -/
theorem get_of_tampered {a : Sealed.Algorithms} {drawn : Nat → Sealed.Randomness} {secret : Bytes}
    {made : Sealed.Randomness → Bytes → Prop} (ha : Sealed.Authentic a secret made)
    {s s₁ : Store Keyspace} (hs : s.encryption = some ⟨secret, .sealingWith a drawn⟩) {h : Handle}
    {key : String} {v : Value} {ttl : Option Nat} {space : Option String}
    (hput : (h.write key v ttl space).runOn s = (.ok (), s₁)) {later : Instant}
    (hthere : s₁.backend.contains later.unixMillis (h.fullName key space) = true) {raw : Bytes}
    (hraw : ∀ drawn data, made drawn data →
      Sealed.encryptWith a drawn secret data true ≠ .ok raw) :
    let name := h.fullName key space
    let s₂ := s₁.tampered later name raw
    (raw.length < 60 → s₂.FailsToRead h key space (.invalidCiphertext
      [.words s!"get {name}: ",
        .words s!"{raw.length} bytes is shorter than nonce, tag and salt"])) ∧
    (60 ≤ raw.length → s₂.FailsToRead h key space (.decryption
      [.words s!"get {name}: ", .words "authentication failed"])) ∧
    Sealed.ReadsParts a secret := by
  intro name s₂
  obtain ⟨-, sealed, mid, -, hs₁⟩ := write_encoded hput
  have hkept : s₁.encryption = s.encryption := (congrArg Store.encryption hs₁ :)
  have hs₂ : s₂.encryption = some ⟨secret, .sealingWith a drawn⟩ := hkept.trans hs
  have hget : s₂.backend.get s₂.clock.unixMillis name = .ok (some raw) :=
    Keyspace.get_overwrite hthere raw
  have hfails := failsToRead_of_openBytes hget (openBytes_of_not_sealed ha hs₂ hraw)
  refine ⟨fun hshort => ?_, fun hlong => ?_, Sealed.readsParts a secret⟩
  · rw [Sealed.refusal_of_short hshort] at hfails
    exact hfails
  · rw [Sealed.refusal_of_long hlong] at hfails
    exact hfails

/-- The empty text under a wrong tag, in the place of a value that was sealed with the standard
algorithms. -/
theorem get_of_tampered_tag :
    ∃ (s s₁ : Store Keyspace) (raw : Bytes),
      s.encryption = some ⟨[7], .sealing .usual fun _ => ⟨0, 0⟩⟩ ∧
      (Handle.put {} "a" .null none).runOn s = (.ok (), s₁) ∧ raw.length = 60 ∧
      (s₁.tampered ⟨0⟩ "a" raw).FailsToRead {} "a" none (.decryption
        [.words "get a: ", .words "authentication failed"]) := by
  let r : Sealed.Randomness := ⟨0, 0⟩
  let s : Store Keyspace :=
    { backend := {}, encryption := some ⟨[7], .sealing .usual fun _ => r⟩,
      identifiers := fun _ => "" }
  obtain ⟨plain, hwrite⟩ : ∃ plain, Codec.json.write 0 ⟨0⟩ (.ofJson .null) = .ok plain :=
    ⟨_, rfl⟩
  obtain ⟨sealed, hsealed⟩ := Sealed.encrypt_salted_ok .usual r [7] plain
  have hencode : (encode (.ofJson .null)).runOn s = (.ok sealed, { s with calls := 2 }) := by
    rw [runOn_encode_of_encrypted rfl hwrite]
    exact congrArg (·, _) hsealed
  have hput : (Handle.put {} "a" .null none).runOn s =
      (.ok (), { s with calls := 2, backend := s.backend.set 0 "a" sealed none }) := by
    have hwritable : Namespace.checkWritable (Handle.fullName {} "a" none) = .ok () := by decide
    unfold Handle.put Handle.putValue Handle.write
    simp only [Action.runOn_bind, Action.runOn_ofAnswer, hwritable, Action.runOn_mapError, hencode]
    rfl
  have hthere : (s.backend.set 0 "a" sealed none).contains (Instant.unixMillis ⟨0⟩)
      "a" = true := by
    rw [Keyspace.contains, Keyspace.set, Keyspace.live?_put_self]
    rfl
  have hkey := Sealed.deriveKey_salt .usual [7] r.salt
  generalize Argon2.derive .usual [7] (Octets.big Sealed.saltLength r.salt.toNat) = key at hkey
  let tag := Gcm.encrypt (Sealed.blockCipher key) r.nonce []
  have htag : tag.length = Gcm.tagLength := Gcm.length_encrypt _ _ _
  have hwrong : tag.map (· ^^^ 1) ≠ tag := by
    intro h
    obtain ⟨b, rest, hb⟩ := List.exists_cons_of_length_pos (htag ▸ (by decide : 0 < Gcm.tagLength))
    rw [hb] at h
    have hsame : b ^^^ 1 = b := (List.cons.inj h).1
    have hzero : b ^^^ (b ^^^ 1) = b ^^^ b := congrArg (b ^^^ ·) hsame
    rw [← UInt8.xor_assoc, UInt8.xor_self, UInt8.zero_xor] at hzero
    exact absurd hzero (by decide)
  have hraw := Sealed.encryptWith_ne_of_wrong_tag .usual [7] r hkey
    ((List.length_map _).trans htag) hwrong
  have hfails := get_of_tampered (Sealed.authentic_standard .usual [7]) rfl hput hthere
    fun drawn data _ => hraw drawn data
  have hlength : (Octets.big Sealed.nonceLength r.nonce.toNat ++ tag.map (· ^^^ 1) ++
      Octets.big Sealed.saltLength r.salt.toNat).length = 60 := by
    rw [List.length_append, List.length_append, Octets.length_big, Octets.length_big,
      List.length_map, htag]
    rfl
  exact ⟨s, _, _, rfl, hput, hlength, hfails.2.1 hlength.ge⟩

end Store

end SealedStore
