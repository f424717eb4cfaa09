import SealedStore.Proofs.Keyspace.Frame
import SealedStore.Proofs.Store.ReadBack
import SealedStore.Proofs.Store.ValueWrites

set_option autoImplicit false

/-!
# One value under several namespaces

The copies of a value are checked, sealed and staged one after another, and then committed at once.
So a write under several namespaces succeeds exactly when every copy can be made; then every name
reads as the value and nothing else has changed, and otherwise nothing has changed at all
(`putFanout_allOrNothing`).
-/

namespace SealedStore.Store

/-! ## Numbered calls -/

/-- How many numbered calls it takes to seal a value: one of the codec and, with encryption on, one
of the cipher. -/
def callsPerSeal (s : Store Keyspace) : Nat :=
  match s.encryption with
  | some _ => 2
  | none => 1

/-- What sealing a value answers when it begins with a numbered call. -/
def sealedAt (s : Store Keyspace) (call : Nat) (v : Value) : Answer Bytes :=
  (s.codec.write call s.clock v).bind fun plain =>
    match s.encryption with
    | some e => e.cipher.encrypt (call + 1) e.key plain true
    | none => .ok plain

/-- Sealing that succeeds has taken its number of calls. -/
theorem runOn_encode_eq_ok_iff {s s' : Store Keyspace} {v : Value} {raw : Bytes} :
    (encode v).runOn s = (.ok raw, s') ↔
      s.sealedAt s.calls v = .ok raw ∧ s' = { s with calls := s.calls + s.callsPerSeal } := by
  obtain ⟨backend, encryption, codec, clock, calls, identifiers⟩ := s
  unfold sealedAt callsPerSeal
  cases hwrite : codec.write calls clock v with
  | error e =>
    simp only [encode, nextCall, Action.runOn_bind, Action.runOn_update, Action.runOn_get,
      Action.runOn_ofAnswer, hwrite]
    exact iff_of_false (fun hfails => by cases hfails) fun hfails => by cases hfails.1
  | ok plain =>
    cases encryption with
    | none =>
      rw [runOn_encode_of_unencrypted rfl, hwrite, Prod.mk.injEq, eq_comm (b := s')]
      rfl
    | some e =>
      rw [runOn_encode_of_encrypted rfl hwrite, Prod.mk.injEq, eq_comm (b := s')]
      rfl

/-! ## Which copies can be made -/

/-- The copy under a namespace can be made when sealing begins with a numbered call: its name is not
that of a counter, and neither the codec nor the cipher fails. -/
def CanCopy (s : Store Keyspace) (h : Handle) (key : String) (j : Json) (call : Nat)
    (space : String) : Prop :=
  Namespace.isCounter (h.fullName key (some space)) = false ∧
    ∃ raw, s.sealedAt call (.ofJson j) = .ok raw

section Copies

variable {s s' : Store Keyspace} {h : Handle} {key : String} {j : Json}

/-- A copy is staged if it can be made at the next call, and then a sealing has taken place. -/
theorem runOn_stageCopy_eq_ok_iff {space : String} {c : Command} :
    (stageCopy h key j space).runOn s = (.ok c, s') ↔
      Namespace.isCounter (h.fullName key (some space)) = false ∧
        ∃ raw, s.sealedAt s.calls (.ofJson j) = .ok raw ∧
          s' = { s with calls := s.calls + s.callsPerSeal } ∧
          c = .set (h.fullName key (some space)) raw none := by
  unfold stageCopy
  constructor
  · intro hrun
    obtain ⟨_, s₁, hcheck, hrun⟩ := Action.runOn_bind_eq_ok.1 hrun
    obtain ⟨hwritable, rfl⟩ := Prod.mk.inj hcheck
    obtain ⟨raw, mid, hencode, hrun⟩ := Action.runOn_bind_eq_ok.1 hrun
    obtain ⟨hraw, hmid⟩ := runOn_encode_eq_ok_iff.1 (Action.runOn_mapError_eq_ok.1 hencode)
    cases hrun
    exact ⟨Namespace.checkWritable_eq_ok.1 hwritable, raw, hraw, hmid, rfl⟩
  · rintro ⟨hwritable, raw, hraw, rfl, rfl⟩
    have hcheck := Namespace.checkWritable_eq_ok.2 hwritable
    have hencode := runOn_encode_eq_ok_iff.2 ⟨hraw, rfl⟩
    refine Action.runOn_bind_eq_ok.2 ⟨(), s, Prod.ext hcheck rfl, ?_⟩
    exact Action.runOn_bind_eq_ok.2 ⟨raw, _, Action.runOn_mapError_eq_ok.2 hencode, rfl⟩

/-- All copies are staged if each of them can be made when its turn comes. -/
theorem runOn_stageCopies_eq_ok_iff {spaces : List String} :
    (∃ tx s', (spaces.mapM (stageCopy h key j)).runOn s = (.ok tx, s')) ↔
      ∀ i space, spaces[i]? = some space →
        s.CanCopy h key j (s.calls + i * s.callsPerSeal) space := by
  induction spaces generalizing s with
  | nil => exact iff_of_true ⟨[], s, rfl⟩ nofun
  | cons first rest ih =>
    -- The copies after the first one begin where the first one has ended.
    have hturn : ∀ i, s.calls + (i + 1) * s.callsPerSeal =
        s.calls + s.callsPerSeal + i * s.callsPerSeal := by
      intro i
      rw [Nat.succ_mul, Nat.add_comm (i * _), Nat.add_assoc]
    have hrest := ih (s := { s with calls := s.calls + s.callsPerSeal })
    rw [List.mapM_cons]
    constructor
    · rintro ⟨tx, s', hrun⟩
      obtain ⟨c, mid, hfirst, hrun⟩ := Action.runOn_bind_eq_ok.1 hrun
      obtain ⟨cs, after, hcopies, -⟩ := Action.runOn_bind_eq_ok.1 hrun
      obtain ⟨hwritable, raw, hraw, rfl, -⟩ := runOn_stageCopy_eq_ok_iff.1 hfirst
      intro i space hspace
      cases i with
      | zero =>
        obtain rfl : first = space := Option.some.inj hspace
        rw [Nat.zero_mul]
        exact ⟨hwritable, raw, hraw⟩
      | succ i =>
        rw [hturn]
        exact hrest.1 ⟨cs, after, hcopies⟩ i space hspace
    · intro hcan
      obtain ⟨hwritable, raw, hraw⟩ := hcan 0 first rfl
      rw [Nat.zero_mul] at hraw
      obtain ⟨cs, after, hcopies⟩ := hrest.2 fun i space hspace => by
        have hcopy := hcan (i + 1) space hspace
        rw [hturn] at hcopy
        exact hcopy
      have hfirst := runOn_stageCopy_eq_ok_iff.2 ⟨hwritable, raw, hraw, rfl, rfl⟩
      refine ⟨.set (h.fullName key (some first)) raw none :: cs, after, ?_⟩
      refine Action.runOn_bind_eq_ok.2 ⟨_, _, hfirst, ?_⟩
      exact Action.runOn_bind_eq_ok.2 ⟨cs, after, hcopies, rfl⟩

/-- The commit does not refuse copies. -/
theorem check_copies {spaces : List String} {tx : Transaction}
    (htx : List.Forall₂ (s.StagesCopy h key j) spaces tx) (shapes : String → Option Shape) :
    tx.check shapes = .ok () := by
  induction htx generalizing shapes with
  | nil => rfl
  | cons hc _ ih =>
    obtain ⟨-, raw, -, -, -, -, rfl⟩ := hc
    exact ih _

/-- A write under several namespaces succeeds if and only if each copy can be made. -/
theorem runOn_putFanout_eq_ok_iff {spaces : List String} :
    ((h.putFanout key j spaces).runOn s).1 = .ok () ↔
      ∀ i space, spaces[i]? = some space →
        s.CanCopy h key j (s.calls + i * s.callsPerSeal) space := by
  rw [← runOn_stageCopies_eq_ok_iff, putFanout_eq, Action.runOn_bind]
  rcases hstage : (spaces.mapM (stageCopy h key j)).runOn s with ⟨e | tx, mid⟩
  · refine iff_of_false nofun ?_
    rintro ⟨tx, s', h⟩
    cases h
  · have hcopies := forall₂_of_stageCopies hstage
    refine iff_of_true ?_ ⟨tx, mid, rfl⟩
    simp only [runOn_onBackend, Keyspace.runOn_commit_eq, Keyspace.commit, check_copies hcopies]

/-! ## What the copies leave -/

/-- A name holds bytes for ever that open to the JSON value. -/
def KeepsCopy (s : Store Keyspace) (j : Json) (b : Keyspace) (name : String) : Prop :=
  ∃ raw, b.slots[name]? = some ⟨.string raw, none⟩ ∧ s.openBytes raw = .ok (.ofJson j)

/-- When copies are put in place one after another, a copy that is there stays or is replaced by
another one of the same value. -/
theorem keepsCopy_of_copies {spaces : List String} {tx : Transaction}
    (htx : List.Forall₂ (s.IsCopy h key j) spaces tx) (now : Nat) {b : Keyspace} {name : String}
    (hname : s.KeepsCopy j b name ∨ ∃ space ∈ spaces, name = h.fullName key (some space)) :
    s.KeepsCopy j (tx.foldl (fun b c => b.apply now c) b) name := by
  induction htx generalizing b with
  | nil => exact hname.resolve_right (by simp)
  | @cons first c spaces tx hc _ ih =>
    obtain ⟨raw, rfl, hopen⟩ := hc
    rw [Value.reread_ofJson] at hopen
    refine ih ?_
    have hslot := Keyspace.slots_put b (h.fullName key (some first)) (.ofBytes raw now none) name
    by_cases hfirst : name = h.fullName key (some first)
    · rw [if_pos hfirst] at hslot
      exact .inl ⟨raw, hslot, hopen⟩
    · rw [if_neg hfirst] at hslot
      rcases hname with ⟨old, hold, hopens⟩ | ⟨space, hspace, rfl⟩
      · exact .inl ⟨old, hslot.trans hold, hopens⟩
      · refine .inr ⟨space, (List.mem_cons.1 hspace).resolve_left ?_, rfl⟩
        rintro rfl
        exact hfirst rfl

end Copies

/-- A write of a value under several namespaces is all or nothing, on a store that can open whatever
it seals but whose codec and cipher may fail at any call.  It succeeds if and only if every copy can
be made: its name is not that of a counter, and sealing it does not fail at the calls that come to
it.  Then the key reads as the value in each of the namespaces and does not expire, and no other
slot has changed.  If it fails, nothing has changed but the count of the calls. -/
theorem putFanout_allOrNothing {s s' : Store Keyspace} (hs : s.Faithful) {h : Handle}
    {key : String} {j : Json} {spaces : List String} {answer : Answer Unit}
    (hrun : (h.putFanout key j spaces).runOn s = (answer, s')) :
    (answer = .ok () ↔ ∀ i space, spaces[i]? = some space →
      s.CanCopy h key j (s.calls + i * s.callsPerSeal) space) ∧
    (answer = .ok () →
      (∀ space ∈ spaces, (h.getValue key (some space)).runOn s' = (.ok (some (.ofJson j)), s') ∧
        ∀ now, s'.backend.lifetime now (h.fullName key (some space)) = .persistent) ∧
      ∀ name, (∀ space ∈ spaces, name ≠ h.fullName key (some space)) →
        s'.backend.slots[name]? = s.backend.slots[name]?) ∧
    ∀ e, answer = .error e → s'.uncounted = s.uncounted := by
  refine ⟨?_, ?_, ?_⟩
  · rw [← runOn_putFanout_eq_ok_iff, hrun]
  · rintro rfl
    obtain ⟨tx, htx, hs'⟩ := putFanout_ok hs hrun
    have hbackend : s'.backend = tx.foldl (fun b c => b.apply s.clock.unixMillis c) s.backend :=
      backend_of_uncounted hs'
    have hsettings : s'.settings = s.settings := (settings_of_uncounted hs' :)
    refine ⟨fun space hspace => ?_, fun name hname => ?_⟩
    · obtain ⟨raw, hslot, hopen⟩ := keepsCopy_of_copies htx s.clock.unixMillis
        (b := s.backend) (.inr ⟨space, hspace, rfl⟩)
      rw [← hbackend] at hslot
      have hlive : ∀ now, s'.backend.live? now (h.fullName key (some space)) =
          some ⟨.string raw, none⟩ := by
        intro now
        unfold Keyspace.live?
        rw [hslot]
        rfl
      refine ⟨Handle.runOn_getValue_of_opens (Keyspace.get_eq_some.2 ⟨none, hlive _⟩) ?_, ?_⟩
      · exact (openBytes_of_settings hsettings raw).trans hopen
      · intro now
        unfold Keyspace.lifetime
        rw [hlive]
        rfl
    · rw [hbackend]
      refine Keyspace.slots_foldl_of_ne s.backend _ fun c hc => ?_
      obtain ⟨space, hspace, raw, rfl, -⟩ := (Action.exists_of_forall₂ htx).2 c hc
      exact hname space hspace
  · rintro e rfl
    exact keepsOnFailure_putFanout h key j spaces s e s' hrun

/-- A cipher that fails at the call of a third copy, and a key that holds fields before. -/
theorem putFanout_allOrNothing_flaky :
    let flaky : Cipher := { Cipher.mask with
      encrypt := fun call key data salted =>
        if call = 5 then .error (.encryption "cipher down")
        else Cipher.mask.encrypt call key data salted }
    let s : Store Keyspace :=
      { backend := ({} : Keyspace).put "k" ⟨.hash ∅, none⟩, encryption := some ⟨[1], flaky⟩
        codec := Codec.json.checked, identifiers := fun _ => "" }
    let h : Handle := { space := some "b" }
    s.Faithful ∧
      (∃ s', (h.putFanout "k" (.text "x") ["a", ""]).runOn s = (.ok (), s') ∧
        (h.getValue "k" (some "a")).runOn s' = (.ok (some (.text "x")), s') ∧
        (h.getValue "k" (some "")).runOn s' = (.ok (some (.text "x")), s')) ∧
      ∃ e s', (h.putFanout "k" (.text "x") ["a", "", "a"]).runOn s = (.error e, s') ∧
        s'.backend = s.backend := by
  intro flaky s h
  have hs : s.Faithful := by
    refine ⟨Codec.readsBack_checked _, ?_⟩
    rintro e ⟨⟩ call data hidden hhidden
    simp only [flaky] at hhidden ⊢
    split at hhidden
    · cases hhidden
    · exact Encryption.undoes_mask [1] call data hidden hhidden
  have hwrite : ∀ call, ∃ plain, s.codec.write call s.clock (.text "x") = .ok plain :=
    fun call => Codec.checked_write_text call (by decide) "x"
  have hsealed : ∀ call, call + 1 ≠ 5 → ∃ raw, s.sealedAt call (.ofJson (.text "x")) = .ok raw := by
    intro call hcall
    obtain ⟨plain, hplain⟩ := hwrite call
    refine ⟨Cipher.maskHeader [1] true ++ plain.map (· ^^^ 0x5A), ?_⟩
    exact Answer.bind_eq_ok.2 ⟨plain, hplain, if_neg hcall⟩
  have hdown : ∀ raw, s.sealedAt 4 (.ofJson (.text "x")) ≠ .ok raw := by
    intro raw hraw
    obtain ⟨plain, -, hraw⟩ := Answer.bind_eq_ok.1 hraw
    cases hraw
  refine ⟨hs, ?_, ?_⟩
  · rcases hrun : (h.putFanout "k" (.text "x") ["a", ""]).runOn s with ⟨answer, s'⟩
    obtain ⟨hok, hread, -⟩ := putFanout_allOrNothing hs hrun
    obtain rfl : answer = .ok () := hok.2 fun i space hspace => by
      rcases i with _ | _ | i
      · cases hspace
        exact ⟨by decide, hsealed 0 (by decide)⟩
      · cases hspace
        exact ⟨by decide, hsealed 2 (by decide)⟩
      · cases hspace
    obtain ⟨hvalues, -⟩ := hread rfl
    exact ⟨s', rfl, (hvalues "a" (by decide)).1, (hvalues "" (by decide)).1⟩
  · rcases hrun : (h.putFanout "k" (.text "x") ["a", "", "a"]).runOn s with ⟨answer, s'⟩
    obtain ⟨hok, -, hfails⟩ := putFanout_allOrNothing hs hrun
    cases answer with
    | ok _ => exact absurd (hok.1 rfl 2 "a" rfl).2 fun ⟨raw, hraw⟩ => hdown raw hraw
    | error e => exact ⟨e, s', rfl, backend_of_uncounted (hfails e rfl)⟩

end SealedStore.Store
