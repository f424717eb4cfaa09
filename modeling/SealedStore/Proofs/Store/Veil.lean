import SealedStore.Proofs.Store.RecordPut

set_option autoImplicit false

/-!
# Runs with hidden ciphertexts

A store is veiled when each byte string that its cipher returns is replaced by one mark.  A put of a
record in a veiled store does what it does in the store itself, and commits the same commands but
for the ciphertexts, each of which is the mark (`putRecord_veiled`).
-/

namespace SealedStore

/-! ## Commands with hidden ciphertexts -/

/-- Bytes are shown as they are, or as a mark if a cipher returned them. -/
def Shows (returned : Bytes → Prop) (mark raw shown : Bytes) : Prop :=
  shown = raw ∨ returned raw ∧ shown = mark

/-- A command is shown with bytes that a cipher returned replaced by a mark. -/
inductive Command.Shows (returned : Bytes → Prop) (mark : Bytes) : Command → Command → Prop
  | set (key : String) {raw shown : Bytes} (ttl : Option Nat)
      (h : SealedStore.Shows returned mark raw shown) :
    Shows returned mark (.set key raw ttl) (.set key shown ttl)
  | hset (key : String) {fields shown : List (String × Bytes)}
      (h : List.Forall₂ (fun m n => n.1 = m.1 ∧ SealedStore.Shows returned mark m.2 n.2)
        fields shown) :
    Shows returned mark (.hset key fields) (.hset key shown)
  | del (key : String) : Shows returned mark (.del key) (.del key)

section Shown

variable {returned : Bytes → Prop} {mark : Bytes}

theorem Command.shows_refl (c : Command) : c.Shows returned mark c := by
  cases c with
  | set key raw ttl => exact .set key ttl (.inl rfl)
  | hset key fields => exact .hset key (List.forall₂_same.2 fun m _ => ⟨rfl, .inl rfl⟩)
  | del key => exact .del key

/-- Whether a command is refused does not depend on bytes. -/
theorem Command.Shows.shapeAfter {c d : Command} (h : c.Shows returned mark d)
    (before : Option Shape) :
    d.key = c.key ∧ d.shapeAfter before = c.shapeAfter before := by
  cases h with
  | set key ttl =>
    refine ⟨rfl, ?_⟩
    rcases ttl with _ | _ | n <;> rfl
  | hset key =>
    refine ⟨rfl, ?_⟩
    rcases before with _ | _ | _ | _ <;> rfl
  | del => exact ⟨rfl, rfl⟩

theorem Transaction.check_of_shows {tx shown : Transaction}
    (h : List.Forall₂ (Command.Shows returned mark) tx shown) (shapes : String → Option Shape) :
    shown.check shapes = tx.check shapes := by
  induction h generalizing shapes with
  | nil => rfl
  | @cons c d tx shown hcd htail ih =>
    obtain ⟨hkey, -⟩ := hcd.shapeAfter none
    obtain ⟨-, hafter⟩ := hcd.shapeAfter (shapes c.key)
    simp only [check, hkey, hafter, ih]

/-- What is shown of a transaction is accepted where the transaction is. -/
theorem Keyspace.commit_of_shows {tx shown : Transaction}
    (h : List.Forall₂ (Command.Shows returned mark) tx shown) {b b' : Keyspace} {now : Nat}
    (hcommit : b.commit now tx = .ok b') : ∃ b'', b.commit now shown = .ok b'' := by
  unfold commit at hcommit ⊢
  rw [Transaction.check_of_shows h]
  cases hcheck : tx.check (b.shape? now) with
  | ok => exact ⟨_, rfl⟩
  | error e =>
    rw [hcheck] at hcommit
    cases hcommit

end Shown

/-! ## Veiled stores -/

/-- A cipher that returns a mark instead of each ciphertext. -/
def Cipher.veiled (mark : Bytes) (c : Cipher) : Cipher :=
  { c with
    encrypt := fun call key data salted => (c.encrypt call key data salted).map fun _ => mark }

/-- The byte strings that a cipher returns under a salt. -/
def Encryption.Returns (e : Encryption) (raw : Bytes) : Prop :=
  ∃ call data, e.cipher.encrypt call e.key data true = .ok raw

namespace Store

variable {α β : Type} {mark : Bytes}

/-- A store with a mark in the place of each ciphertext that its cipher returns. -/
def veiled (mark : Bytes) (s : Store Keyspace) : Store Keyspace :=
  { s with encryption := s.encryption.map fun e => { e with cipher := e.cipher.veiled mark } }

/-- An action that does the same in a store and in the veiled store. -/
def Blind (mark : Bytes) (a : Action (Store Keyspace) α) : Prop :=
  ∀ s, a.runOn (s.veiled mark) = ((a.runOn s).1, (a.runOn s).2.veiled mark)

theorem blind_pure (x : α) : Blind mark (pure x) := fun _ => rfl

theorem blind_throw (e : StoreError) : Blind mark (throw e : Action (Store Keyspace) α) :=
  fun _ => rfl

theorem blind_ofAnswer (r : Answer α) : Blind mark (.ofAnswer r) := fun _ => rfl

theorem blind_onBackend (a : Nat → Action Keyspace α) : Blind mark (onBackend a) := fun _ => rfl

theorem blind_nextCall : Blind mark nextCall := fun _ => rfl

theorem Blind.bind {a : Action (Store Keyspace) α} {f : α → Action (Store Keyspace) β}
    (ha : Blind mark a) (hf : ∀ x, Blind mark (f x)) : Blind mark (a >>= f) := by
  intro s
  rw [Action.runOn_bind, Action.runOn_bind, ha s]
  rcases a.runOn s with ⟨e | x, after⟩
  · rfl
  · exact hf x after

theorem blind_forM {l : List α} {f : α → Action (Store Keyspace) Unit}
    (h : ∀ x, Blind mark (f x)) : Blind mark (l.forM f) := by
  induction l with
  | nil => exact blind_pure ()
  | cons x rest ih => exact (h x).bind fun _ => ih

theorem Blind.runOn_eq {a : Action (Store Keyspace) α} (h : Blind mark a) {s s' : Store Keyspace}
    {r : Answer α} (hrun : a.runOn s = (r, s')) :
    a.runOn (s.veiled mark) = (r, s'.veiled mark) := by
  rw [h s, hrun]

/-! ## The checks -/

theorem blind_checkScheme (scheme : Scheme) : Blind mark (checkScheme scheme) := by
  intro s
  have hsame : (s.veiled mark).isEncrypted = s.isEncrypted := Option.isSome_map
  unfold checkScheme
  simp only [Action.runOn_query, hsame]
  rfl

theorem blind_claimIndex (scheme : Scheme) (r : Record) (fullName : Option String)
    (index : Index) : Blind mark (claimIndex scheme r fullName index) := by
  unfold claimIndex
  split
  · refine (blind_onBackend _).bind fun owner => ?_
    split
    · split
      · exact blind_throw _
      · exact blind_pure ()
    · exact blind_pure ()
  · exact blind_pure ()

theorem blind_checkClaims (scheme : Scheme) (r : Record) (known : Option String) :
    Blind mark (checkClaims scheme r known) := by
  unfold checkClaims
  refine (blind_ofAnswer _).bind fun _ => ?_
  split
  · rw [checkUnique_eq]
    exact blind_forM fun index => blind_claimIndex scheme r _ index
  · exact blind_pure ()

/-! ## Ciphertexts -/

section Ciphertexts

variable {s s' : Store Keyspace} {e : Encryption}

/-- Encrypting returns the mark where the cipher returns a ciphertext. -/
theorem encrypt_veiled (hs : s.encryption = some e) {data raw : Bytes}
    (hrun : (encrypt data).runOn s = (.ok raw, s')) :
    e.Returns raw ∧ (encrypt data).runOn (s.veiled mark) = (.ok mark, s'.veiled mark) := by
  obtain ⟨backend, encryption, codec, clock, calls, identifiers⟩ := s
  obtain rfl : encryption = some e := hs
  obtain ⟨hraw, rfl⟩ := Prod.mk.inj hrun
  have hcipher : e.cipher.encrypt calls e.key data true = .ok raw := hraw
  refine ⟨⟨calls, data, hcipher⟩, ?_⟩
  refine Prod.ext ?_ rfl
  exact congrArg (Except.map fun _ => mark) hcipher

/-- Encoding a value returns the mark where it returns a ciphertext. -/
theorem encode_veiled (hs : s.encryption = some e) {v : Value} {raw : Bytes}
    (hrun : (encode v).runOn s = (.ok raw, s')) :
    e.Returns raw ∧ (encode v).runOn (s.veiled mark) = (.ok mark, s'.veiled mark) := by
  unfold encode at hrun ⊢
  obtain ⟨call, s₁, hcall, hrun⟩ := Action.runOn_bind_eq_ok.1 hrun
  obtain ⟨t, s₂, hget, hrun⟩ := Action.runOn_bind_eq_ok.1 hrun
  cases hget
  obtain ⟨plain, s₃, hwrite, hrun⟩ := Action.runOn_bind_eq_ok.1 hrun
  obtain ⟨hplain, rfl⟩ := Prod.mk.inj hwrite
  have hs₁ : s₁.encryption = some e := by
    obtain ⟨-, rfl⟩ := Prod.mk.inj hcall
    exact hs
  obtain ⟨hreturns, hencrypt⟩ := encrypt_veiled hs₁ hrun
  refine ⟨hreturns, ?_⟩
  refine Action.runOn_bind_eq_ok.2 ⟨call, _, blind_nextCall.runOn_eq hcall, ?_⟩
  refine Action.runOn_bind_eq_ok.2 ⟨_, _, rfl, ?_⟩
  exact Action.runOn_bind_eq_ok.2 ⟨plain, _, Prod.ext hplain rfl, hencrypt⟩

/-! ## Staging -/

/-- The bytes that show of a member of a hash record. -/
def shownField (scheme : Scheme) (mark : Bytes) (m : String × Json) : String × Bytes :=
  (m.1, if scheme.encrypts m.1 then mark else m.2.toBytes)

/-- The commands that show of a record. -/
def shownCommands (scheme : Scheme) (mark : Bytes) (r : Record) (fullName : String) :
    Transaction :=
  match scheme.layout with
  | .plain => recordCommands scheme r fullName mark
  | .hashTable =>
    .del fullName :: if r = [] then [] else [.hset fullName (r.map (shownField scheme mark))]
  | .set => []

theorem sealField_veiled (hs : s.encryption = some e) {scheme : Scheme} {fullName : String}
    {m : String × Json} {x : String × Bytes}
    (hrun : (sealField scheme fullName m).runOn s = (.ok x, s')) :
    ((shownField scheme mark m).1 = x.1 ∧ Shows e.Returns mark x.2 (shownField scheme mark m).2) ∧
      (sealField scheme fullName m).runOn (s.veiled mark) =
        (.ok (shownField scheme mark m), s'.veiled mark) := by
  obtain ⟨name, j⟩ := m
  unfold sealField at hrun ⊢
  unfold shownField
  dsimp only at hrun ⊢
  cases hencrypts : scheme.encrypts name with
  | true =>
    rw [hencrypts, if_pos rfl] at hrun
    obtain ⟨data, mid, hdata, hrun⟩ := Action.runOn_bind_eq_ok.1 hrun
    cases hrun
    obtain ⟨hreturns, hveiled⟩ :=
      encrypt_veiled hs (Action.runOn_mapError_eq_ok.1 hdata)
    refine ⟨⟨rfl, .inr ⟨hreturns, rfl⟩⟩, ?_⟩
    exact Action.runOn_bind_eq_ok.2 ⟨mark, _, Action.runOn_mapError_eq_ok.2 hveiled, rfl⟩
  | false =>
    rw [hencrypts] at hrun
    cases hrun
    exact ⟨⟨rfl, .inl rfl⟩, rfl⟩

theorem sealFields_veiled (hs : s.encryption = some e) {scheme : Scheme} {fullName : String}
    {r : Record} {fields : List (String × Bytes)}
    (hrun : (r.mapM (sealField scheme fullName)).runOn s = (.ok fields, s')) :
    List.Forall₂ (fun m n => n.1 = m.1 ∧ Shows e.Returns mark m.2 n.2) fields
        (r.map (shownField scheme mark)) ∧
      (r.mapM (sealField scheme fullName)).runOn (s.veiled mark) =
        (.ok (r.map (shownField scheme mark)), s'.veiled mark) := by
  induction r generalizing s fields with
  | nil =>
    cases hrun
    exact ⟨.nil, rfl⟩
  | cons m rest ih =>
    rw [List.mapM_cons] at hrun ⊢
    obtain ⟨x, mid, hx, hrun⟩ := Action.runOn_bind_eq_ok.1 hrun
    obtain ⟨xs, after, hxs, hrun⟩ := Action.runOn_bind_eq_ok.1 hrun
    cases hrun
    have hmid : mid.encryption = some e := by
      have hkept := (keeps_sealField scheme fullName m).of_runOn hx
      exact (congrArg Store.encryption hkept :).trans hs
    obtain ⟨hshows, hveiled⟩ := sealField_veiled hs hx
    obtain ⟨hrest, hrestVeiled⟩ := ih hmid hxs
    refine ⟨.cons hshows hrest, ?_⟩
    refine Action.runOn_bind_eq_ok.2 ⟨_, _, hveiled, ?_⟩
    exact Action.runOn_bind_eq_ok.2 ⟨_, _, hrestVeiled, rfl⟩

/-- What is staged in a veiled store is what shows of what is staged in the store. -/
theorem stage_veiled (hs : s.encryption = some e) {scheme : Scheme} {r : Record}
    {fullName : String} {tx : Transaction}
    (hrun : (stage scheme r fullName).runOn s = (.ok tx, s')) :
    List.Forall₂ (Command.Shows e.Returns mark) tx (shownCommands scheme mark r fullName) ∧
      (stage scheme r fullName).runOn (s.veiled mark) =
        (.ok (shownCommands scheme mark r fullName), s'.veiled mark) := by
  unfold shownCommands
  cases hlayout : scheme.layout with
  | plain =>
    rw [stage_eq_plain hlayout] at hrun ⊢
    obtain ⟨raw, mid, hencode, hrun⟩ := Action.runOn_bind_eq_ok.1 hrun
    cases hrun
    obtain ⟨hreturns, hveiled⟩ :=
      encode_veiled hs (Action.runOn_mapError_eq_ok.1 hencode)
    refine ⟨.cons (.set fullName none (.inr ⟨hreturns, rfl⟩)) ?_, ?_⟩
    · exact List.forall₂_same.2 fun c _ => c.shows_refl
    · exact Action.runOn_bind_eq_ok.2 ⟨mark, _, Action.runOn_mapError_eq_ok.2 hveiled, rfl⟩
  | hashTable =>
    rw [stage_eq_hash hlayout] at hrun ⊢
    obtain ⟨fields, mid, hfields, hrun⟩ := Action.runOn_bind_eq_ok.1 hrun
    cases hrun
    obtain ⟨hshows, hveiled⟩ := sealFields_veiled hs hfields
    have hempty : fields = [] ↔ r = [] := by
      rw [← List.length_eq_zero_iff, hshows.length_eq, List.length_map, List.length_eq_zero_iff]
    refine ⟨.cons (.del fullName) ?_, ?_⟩
    · by_cases hr : r = []
      · rw [if_pos hr, if_pos (hempty.2 hr)]
        exact .nil
      · rw [if_neg hr, if_neg fun h => hr (hempty.1 h)]
        exact .cons (.hset fullName hshows) .nil
    · refine Action.runOn_bind_eq_ok.2 ⟨_, _, hveiled, ?_⟩
      simp only [List.map_eq_nil_iff]
      rfl
  | set =>
    unfold stage at hrun
    rw [hlayout] at hrun
    cases hrun

/-! ## The whole put -/

/-- A put under a given key: the scheme and the claims are checked, and the record is committed. -/
theorem putRecord_given {scheme : Scheme} {key : String} (hkey : key ≠ "") (r : Record) :
    (putRecord scheme key (.object r) : Action (Store Keyspace) Landing) = (do
      checkScheme scheme
      checkClaims scheme r (some key)
      commitRecord scheme r key) := by
  have hknown : knownKey scheme key r = (pure (some key) : Action (Store Keyspace) _) :=
    if_neg hkey
  rw [putRecord_eq]
  simp only [Record.ofJson, Action.ofAnswer_ok, pure_bind, hknown, drawKey]

/-- A record that is committed is also committed in the veiled store, by what shows of its
commands. -/
theorem commitRecord_veiled (hs : s.encryption = some e) {scheme : Scheme} {key : String}
    {r : Record} {landing : Landing}
    (hrun : (commitRecord scheme r key).runOn s = (.ok landing, s')) (mark : Bytes) :
    landing = ⟨key, scheme.fullName key⟩ ∧ ∃ (tx : Transaction) (shown : Store Keyspace),
      List.Forall₂ (Command.Shows e.Returns mark) tx
        (shownCommands scheme mark r (scheme.fullName key)) ∧
      s.backend.commit s.clock.unixMillis tx = .ok s'.backend ∧
      s.backend.commit s.clock.unixMillis (shownCommands scheme mark r (scheme.fullName key)) =
        .ok shown.backend ∧
      (commitRecord scheme r key).runOn (s.veiled mark) = (.ok landing, shown) := by
  obtain ⟨rfl, -, tx, mid, hstage, hcommit⟩ := commitRecord_commits hrun
  obtain ⟨hshows, hstaged⟩ := stage_veiled hs hstage
  have hmid : mid.uncounted = s.uncounted := (keeps_stage scheme r _).of_runOn hstage
  obtain ⟨b, hshown⟩ := Keyspace.commit_of_shows hshows hcommit
  refine ⟨rfl, tx, { mid.veiled mark with backend := b }, hshows, hcommit, hshown, ?_⟩
  rw [← backend_of_uncounted hmid, ← clock_of_uncounted hmid] at hshown
  have hveiled : (mid.veiled mark).backend.commit (mid.veiled mark).clock.unixMillis
      (shownCommands scheme mark r (scheme.fullName key)) = .ok b := hshown
  unfold commitRecord
  refine Action.runOn_bind_eq_ok.2 ⟨_, _, hstaged, ?_⟩
  refine Action.runOn_bind_eq_ok.2 ⟨(), { mid.veiled mark with backend := b }, ?_, rfl⟩
  rw [Action.runOn_mapError_eq_ok, runOn_onBackend, Keyspace.runOn_commit_eq, hveiled]

/-- A put that succeeds also succeeds in the veiled store, and commits there what shows of the
commands that it commits in the store. -/
theorem putRecord_veiled (hs : s.encryption = some e) {scheme : Scheme} {key : String}
    (hkey : key ≠ "") {r : Record} {landing : Landing}
    (hrun : (putRecord scheme key (.object r)).runOn s = (.ok landing, s')) (mark : Bytes) :
    landing = ⟨key, scheme.fullName key⟩ ∧ ∃ (tx : Transaction) (shown : Store Keyspace),
      List.Forall₂ (Command.Shows e.Returns mark) tx
        (shownCommands scheme mark r (scheme.fullName key)) ∧
      s.backend.commit s.clock.unixMillis tx = .ok s'.backend ∧
      s.backend.commit s.clock.unixMillis (shownCommands scheme mark r (scheme.fullName key)) =
        .ok shown.backend ∧
      (putRecord scheme key (.object r)).runOn (s.veiled mark) = (.ok landing, shown) := by
  rw [putRecord_given hkey] at hrun ⊢
  -- The checks neither call the cipher nor change the store, so both runs come to the same commit.
  obtain ⟨_, s₁, hscheme, hclaimed⟩ := Action.runOn_bind_eq_ok.1 hrun
  have hs₁ : s₁ = s := (keeps_checkScheme scheme id).of_runOn hscheme
  rw [hs₁] at hscheme hclaimed
  obtain ⟨_, s₂, hclaims, hcommitted⟩ := Action.runOn_bind_eq_ok.1 hclaimed
  have hs₂ : s₂ = s := (keeps_checkClaims scheme r (some key) id).of_runOn hclaims
  rw [hs₂] at hclaims hcommitted
  obtain ⟨hlanding, tx, shown, hshows, hcommit, hshown, hveiled⟩ :=
    commitRecord_veiled hs hcommitted mark
  refine ⟨hlanding, tx, shown, hshows, hcommit, hshown, ?_⟩
  refine Action.runOn_bind_eq_ok.2 ⟨_, _, (blind_checkScheme scheme).runOn_eq hscheme, ?_⟩
  exact Action.runOn_bind_eq_ok.2
    ⟨_, _, (blind_checkClaims scheme r (some key)).runOn_eq hclaims, hveiled⟩

end Ciphertexts

end Store

end SealedStore
