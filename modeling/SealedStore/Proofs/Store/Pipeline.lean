import SealedStore.Proofs.Action
import SealedStore.Proofs.Cipher.RoundTrip
import SealedStore.Proofs.Envelope.Opening
import SealedStore.Store.Values

set_option autoImplicit false

/-!
# From values to stored bytes and back

Sealing a value touches nothing of a store but the count of the calls that it served; opening bytes
touches nothing at all.  When the codec reads back what it wrote and the cipher undoes itself, the
bytes of a value open to the value (`openBytes_of_encode`).
-/

namespace SealedStore

/-- Under its key a cipher gives back what it encrypted under a salt. -/
def Encryption.Undoes (e : Encryption) : Prop :=
  ∀ call data hidden, e.cipher.encrypt call e.key data true = .ok hidden →
    e.cipher.decrypt e.key hidden true = .ok data

namespace Encryption

theorem undoes_of_bind {e : Encryption} (h : ∀ call data,
    (e.cipher.encrypt call e.key data true).bind (e.cipher.decrypt e.key · true) = .ok data) :
    e.Undoes := by
  intro call data hidden hhidden
  have hdata := h call data
  rw [hhidden] at hdata
  exact hdata

theorem undoes_mask (key : Bytes) : Encryption.Undoes ⟨key, .mask⟩ :=
  undoes_of_bind fun call data => Cipher.mask_decrypt_encrypt call key data true

/-- The cipher of a store gives back what it sealed, at any cost and whatever it draws. -/
theorem undoes_sealing (key : Bytes) (cost : Argon2.Cost) (drawn : Nat → Sealed.Randomness) :
    Encryption.Undoes ⟨key, .sealing cost drawn⟩ :=
  undoes_of_bind fun call data => Sealed.decrypt_encrypt_salted cost (drawn call) key data

end Encryption

namespace Store

variable {α γ : Type}

/-- A store but for the number of calls that it has served. -/
def uncounted (s : Store Keyspace) : Store Keyspace := { s with calls := 0 }

/-- What a store is set to: all that no call of the store changes, but for the clock. -/
def settings (s : Store Keyspace) : Store Keyspace :=
  { s.uncounted with backend := {}, clock := ⟨0⟩ }

section Uncounted

variable {s t : Store Keyspace}

theorem backend_of_uncounted (h : s.uncounted = t.uncounted) : s.backend = t.backend :=
  (congrArg Store.backend h :)

theorem clock_of_uncounted (h : s.uncounted = t.uncounted) : s.clock = t.clock :=
  (congrArg Store.clock h :)

theorem settings_of_uncounted (h : s.uncounted = t.uncounted) : s.settings = t.settings :=
  (congrArg settings h :)

/-- A write that depends on the clock and the keyspace alone. -/
theorem uncounted_withBackend (h : s.uncounted = t.uncounted) (f : Nat → Keyspace → Keyspace) :
    uncounted { s with backend := f s.clock.unixMillis s.backend } =
      uncounted { t with backend := f t.clock.unixMillis t.backend } :=
  (congrArg (fun u : Store Keyspace =>
    uncounted { u with backend := f u.clock.unixMillis u.backend }) h :)

end Uncounted

/-! ## Calls of the backend -/

@[simp] theorem runOn_onBackend (a : Nat → Action Keyspace α) (s : Store Keyspace) :
    (onBackend a).runOn s =
      (((a s.clock.unixMillis).runOn s.backend).1,
        { s with backend := ((a s.clock.unixMillis).runOn s.backend).2 }) := rfl

/-- A call that leaves the keyspace alone leaves the store alone. -/
theorem keeps_onBackend {a : Nat → Action Keyspace α} (h : ∀ now, (a now).Keeps id)
    (view : Store Keyspace → γ) : (onBackend a).Keeps view := by
  intro s
  have hb : ((a s.clock.unixMillis).runOn s.backend).2 = s.backend := h _ s.backend
  rw [runOn_onBackend, hb]

theorem keepsOnFailure_onBackend {a : Nat → Action Keyspace α}
    (h : ∀ now, (a now).KeepsOnFailure id) (view : Store Keyspace → γ) :
    (onBackend a).KeepsOnFailure view := by
  intro s e s' hr
  rw [runOn_onBackend] at hr
  obtain ⟨he, hs⟩ := Prod.mk.inj hr
  have hb : ((a s.clock.unixMillis).runOn s.backend).2 = s.backend :=
    h _ s.backend e _ (Prod.ext he rfl)
  rw [hb] at hs
  rw [← hs]

/-! ## Sealing -/

theorem keeps_nextCall : (nextCall : Action (Store Keyspace) Nat).Keeps uncounted := fun _ => rfl

theorem keeps_drawIdentifier :
    (drawIdentifier : Action (Store Keyspace) String).Keeps uncounted := by
  unfold drawIdentifier
  refine keeps_nextCall.bind fun call => ?_
  exact Action.keeps_get.bind fun s => Action.keeps_pure _

theorem keeps_settle (view : Store Keyspace → γ) :
    (onBackend Backend.settle : Action (Store Keyspace) Unit).Keeps view :=
  keeps_onBackend (fun _ => Action.keeps_pure ()) view

theorem keeps_encrypt (data : Bytes) :
    (encrypt data : Action (Store Keyspace) Bytes).Keeps uncounted := by
  unfold encrypt
  refine Action.keeps_get.bind fun s => ?_
  cases s.encryption with
  | none => exact Action.keeps_pure data
  | some e =>
    refine (keeps_settle uncounted).bind fun _ => ?_
    exact keeps_nextCall.bind fun call => Action.keeps_ofAnswer _

theorem keeps_encode (v : Value) :
    (encode v : Action (Store Keyspace) Bytes).Keeps uncounted := by
  unfold encode
  refine keeps_nextCall.bind fun call => ?_
  refine Action.keeps_get.bind fun s => ?_
  exact (Action.keeps_ofAnswer _).bind fun plain => keeps_encrypt plain

/-- With encryption off the bytes of a value are what the codec writes. -/
theorem runOn_encode_of_unencrypted {s : Store Keyspace} (h : s.encryption = none)
    (v : Value) :
    (encode v).runOn s =
      (s.codec.write s.calls s.clock v, { s with calls := s.calls + 1 }) := by
  obtain ⟨backend, encryption, codec, clock, calls, identifiers⟩ := s
  obtain rfl : encryption = none := h
  simp only [encode, nextCall, Action.runOn_bind, Action.runOn_update, Action.runOn_get,
    Action.runOn_ofAnswer]
  cases codec.write calls clock v <;> rfl

/-- With encryption on the bytes of a value are what the cipher makes of what the codec writes. -/
theorem runOn_encode_of_encrypted {s : Store Keyspace} {e : Encryption} (h : s.encryption = some e)
    {v : Value} {plain : Bytes} (hwrite : s.codec.write s.calls s.clock v = .ok plain) :
    (encode v).runOn s =
      (e.cipher.encrypt (s.calls + 1) e.key plain true, { s with calls := s.calls + 2 }) := by
  obtain ⟨backend, encryption, codec, clock, calls, identifiers⟩ := s
  obtain rfl : encryption = some e := h
  simp only at hwrite
  simp only [encode, nextCall, Action.runOn_bind, Action.runOn_update, Action.runOn_get,
    Action.runOn_ofAnswer, hwrite]
  rfl

/-! ## Opening -/

/-- What decrypting bytes answers. -/
def decryptBytes (s : Store Keyspace) (data : Bytes) : Answer Bytes :=
  match s.encryption with
  | some e => e.cipher.decrypt e.key data true
  | none => .ok data

/-- What opening stored bytes answers. -/
def openBytes (s : Store Keyspace) (raw : Bytes) : Answer Value :=
  (s.decryptBytes raw).bind s.codec.read

theorem openBytes_of_settings {s t : Store Keyspace} (h : s.settings = t.settings)
    (raw : Bytes) : s.openBytes raw = t.openBytes raw :=
  (congrArg (fun u : Store Keyspace => u.openBytes raw) h :)

theorem undoes_of_settings {s t : Store Keyspace} (h : s.settings = t.settings)
    (ht : ∀ e, t.encryption = some e → e.Undoes) : ∀ e, s.encryption = some e → e.Undoes := by
  have hencryption : s.encryption = t.encryption := (congrArg Store.encryption h :)
  rw [hencryption]
  exact ht

theorem runOn_decrypt (data : Bytes) (s : Store Keyspace) :
    (decrypt data).runOn s = (s.decryptBytes data, s) := by
  unfold decrypt decryptBytes
  rw [Action.runOn_bind, Action.runOn_get]
  cases he : s.encryption with
  | none =>
    simp only [he]
    rfl
  | some e =>
    simp only [he]
    rfl

theorem runOn_decode (raw : Bytes) (s : Store Keyspace) :
    (decode raw).runOn s = (s.openBytes raw, s) := by
  unfold decode openBytes
  rw [Action.runOn_bind, runOn_decrypt]
  cases s.decryptBytes raw with
  | error e => rfl
  | ok plain => rfl

/-- Reading a full name opens the bytes that are live there. -/
theorem runOn_read (fullName : String) (s : Store Keyspace) :
    (read fullName).runOn s =
      ((s.backend.get s.clock.unixMillis fullName).bind fun raw =>
        match raw with
        | some raw => ((s.openBytes raw).mapError (.inContext "get" fullName)).map some
        | none => .ok none, s) := by
  unfold read opened
  rw [Action.runOn_bind]
  have hget : (onBackend (Backend.get · fullName) : Action (Store Keyspace) _).runOn s =
      (s.backend.get s.clock.unixMillis fullName, s) := rfl
  rw [hget]
  cases s.backend.get s.clock.unixMillis fullName with
  | error e => rfl
  | ok raw =>
    cases raw with
    | none => rfl
    | some raw =>
      simp only [Action.runOn_map, Action.runOn_mapError, runOn_decode]
      rfl

/-- A value that was read lies under the name as bytes that open to it. -/
theorem runOn_read_eq_some {fullName : String} {v : Value} {s s' : Store Keyspace} :
    (read fullName).runOn s = (.ok (some v), s') ↔
      s' = s ∧ ∃ raw, s.backend.get s.clock.unixMillis fullName = .ok (some raw) ∧
        s.openBytes raw = .ok v := by
  rw [runOn_read, Prod.mk.injEq, Answer.bind_eq_ok]
  constructor
  · rintro ⟨⟨found, hget, hopen⟩, rfl⟩
    cases found with
    | none => cases hopen
    | some raw =>
      obtain ⟨v', hopen, hv⟩ := Answer.map_eq_ok.1 hopen
      cases hv
      exact ⟨rfl, raw, hget, Answer.mapError_eq_ok.1 hopen⟩
  · rintro ⟨rfl, raw, hget, hopen⟩
    exact ⟨⟨some raw, hget, Answer.map_eq_ok.2 ⟨v, Answer.mapError_eq_ok.2 hopen, rfl⟩⟩, rfl⟩

/-! ## Opening what was sealed -/

/-- Whatever a store seals, it can open: the codec reads back what it wrote, and the cipher, if
there is one, gives back what it encrypted. -/
structure Faithful (s : Store Keyspace) : Prop where
  codec : s.codec.ReadsBack
  cipher : ∀ e, s.encryption = some e → e.Undoes

theorem Faithful.of_settings {s t : Store Keyspace} (ht : t.Faithful)
    (h : s.settings = t.settings) : s.Faithful := by
  have hs : s.settings.Faithful := by
    rw [h]
    exact ⟨ht.codec, ht.cipher⟩
  exact ⟨hs.codec, hs.cipher⟩

/-- Bytes that were encrypted are what the cipher returned. -/
theorem encrypt_ok {s s' : Store Keyspace} {e : Encryption} {data hidden : Bytes}
    (hs : s.encryption = some e) (h : (encrypt data).runOn s = (.ok hidden, s')) :
    ∃ call, e.cipher.encrypt call e.key data true = .ok hidden := by
  unfold encrypt at h
  obtain ⟨t, mid, hget, h⟩ := Action.runOn_bind_eq_ok.1 h
  cases hget
  rw [hs] at h
  obtain ⟨_, settled, -, h⟩ := Action.runOn_bind_eq_ok.1 h
  obtain ⟨call, after, -, h⟩ := Action.runOn_bind_eq_ok.1 h
  exact ⟨call, (Prod.mk.inj h).1⟩

theorem decryptBytes_of_encrypt {s s' : Store Keyspace} {data hidden : Bytes}
    (hs : ∀ e, s.encryption = some e → e.Undoes)
    (h : (encrypt data).runOn s = (.ok hidden, s')) : s.decryptBytes hidden = .ok data := by
  unfold decryptBytes
  cases he : s.encryption with
  | none =>
    unfold encrypt at h
    obtain ⟨t, mid, hget, h⟩ := Action.runOn_bind_eq_ok.1 h
    cases hget
    rw [he] at h
    cases h
    rfl
  | some e =>
    obtain ⟨call, hencrypt⟩ := encrypt_ok he h
    exact hs e he call data hidden hencrypt

/-- The bytes of a value open as the codec reads what it wrote. -/
theorem openBytes_encoded {s s' : Store Keyspace} {v : Value} {raw : Bytes}
    (hs : ∀ e, s.encryption = some e → e.Undoes) (h : (encode v).runOn s = (.ok raw, s')) :
    ∃ call plain, s.codec.write call s.clock v = .ok plain ∧
      s.openBytes raw = s.codec.read plain := by
  unfold encode at h
  obtain ⟨call, s₁, hcall, h⟩ := Action.runOn_bind_eq_ok.1 h
  obtain ⟨t, s₂, hget, h⟩ := Action.runOn_bind_eq_ok.1 h
  cases hget
  obtain ⟨plain, s₃, hwrite, h⟩ := Action.runOn_bind_eq_ok.1 h
  have h₁ : s₁.uncounted = s.uncounted := keeps_nextCall.of_runOn hcall
  have hcodec : s₁.codec = s.codec := (congrArg Store.codec h₁ :)
  have hs₁ := undoes_of_settings (settings_of_uncounted h₁) hs
  obtain ⟨hplain, rfl⟩ := Prod.mk.inj hwrite
  rw [hcodec, clock_of_uncounted h₁] at hplain
  refine ⟨call, plain, hplain, ?_⟩
  rw [← openBytes_of_settings (settings_of_uncounted h₁), ← hcodec]
  unfold openBytes
  rw [decryptBytes_of_encrypt hs₁ h]
  rfl

/-- The bytes of a value open to the value. -/
theorem openBytes_of_encode {s s' : Store Keyspace} {v : Value} {raw : Bytes} (hs : s.Faithful)
    (h : (encode v).runOn s = (.ok raw, s')) : s.openBytes raw = .ok v.reread := by
  obtain ⟨call, plain, hwrite, hopen⟩ := openBytes_encoded hs.cipher h
  rw [hopen]
  exact Codec.read_of_write hs.codec hwrite

end Store

end SealedStore
