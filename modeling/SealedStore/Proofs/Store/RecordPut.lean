import SealedStore.Proofs.Keyspace.Lookups
import SealedStore.Proofs.Store.RecordWrites

set_option autoImplicit false

/-!
# What a put of a record did

A put by a scheme of plain layout that succeeds has passed every check on the store that it found,
and has committed the bytes of the record with one entry for each key of the record.
-/

namespace SealedStore

namespace Scheme

/-- The keys that a record has in the indexes of the scheme, by the names of the indexes. -/
def claims (s : Scheme) (r : Record) : List (String × String) :=
  s.indexes.filterMap fun index => (index.presentKey? r).map fun x => (index.name, x)

theorem mem_claims {s : Scheme} {r : Record} {name x : String} :
    (name, x) ∈ s.claims r ↔
      ∃ index ∈ s.indexes, index.name = name ∧ index.presentKey? r = some x := by
  simp only [claims, List.mem_filterMap, Option.map_eq_some_iff, Prod.mk.injEq]
  constructor
  · rintro ⟨index, hindex, y, hy, hname, rfl⟩
    exact ⟨index, hindex, hname, hy⟩
  · rintro ⟨index, hindex, hname, hx⟩
    exact ⟨index, hindex, x, hx, hname, rfl⟩

theorem entries_eq_claims (s : Scheme) (r : Record) :
    s.entries r = (s.claims r).map fun (name, x) => (s.lookupKey name, x) := by
  unfold entries claims
  rw [List.map_filterMap]
  congr 1
  funext index
  cases index.presentKey? r <;> rfl

end Scheme

namespace Store

variable {s s' : Store Keyspace}

/-! ## Schemes that can be applied -/

theorem runOn_checkScheme_eq_ok {scheme : Scheme} :
    ((checkScheme scheme).runOn s).1 = .ok () ↔
      scheme.family = .memory ∧ scheme.layout ≠ .set ∧
        (scheme.encryptedFields ≠ [] → s.isEncrypted = true) := by
  have hbackend : Backend.family s.backend = .memory := rfl
  unfold checkScheme
  rw [Action.runOn_query, hbackend]
  dsimp only
  split_ifs with hfamily hlayout hfields
  · simp [hfamily]
  · simp [hlayout]
  · simp [hfields]
  · simp only [true_iff]
    refine ⟨not_not.1 hfamily, hlayout, fun hne => ?_⟩
    exact not_not.1 fun hplain => hfields ⟨hne, hplain⟩

/-! ## The claims of a record -/

/-- Every key of the record in an index that is not shared is free, or belongs to the record
itself. -/
def MayClaim (s : Store Keyspace) (scheme : Scheme) (r : Record) (fullName : Option String) :
    Prop :=
  ∀ index ∈ scheme.indexes, index.shared = false → ∀ x, index.presentKey? r = some x →
    s.backend.field s.clock.unixMillis (scheme.lookupKey index.name) x = .ok none ∨
      ∃ name, fullName = some name ∧
        s.backend.field s.clock.unixMillis (scheme.lookupKey index.name) x =
          .ok (some (Utf8.encode name))

theorem runOn_claimIndex_eq_ok {scheme : Scheme} {r : Record} {fullName : Option String}
    {index : Index} :
    ((claimIndex scheme r fullName index).runOn s).1 = .ok () ↔
      ∀ x, index.presentKey? r = some x →
        s.backend.field s.clock.unixMillis (scheme.lookupKey index.name) x = .ok none ∨
          ∃ name, fullName = some name ∧
            s.backend.field s.clock.unixMillis (scheme.lookupKey index.name) x =
              .ok (some (Utf8.encode name)) := by
  unfold claimIndex
  cases hx : index.presentKey? r with
  | none => simp
  | some x =>
    have hfield : (onBackend (Backend.field · (scheme.lookupKey index.name) x) :
        Action (Store Keyspace) _).runOn s =
          (s.backend.field s.clock.unixMillis (scheme.lookupKey index.name) x, s) := rfl
    simp only [Action.runOn_bind, hfield, Option.some.injEq, forall_eq']
    rcases s.backend.field s.clock.unixMillis (scheme.lookupKey index.name) x with e | _ | owner
    · simp
    · simp
    · by_cases ho : fullName.map Utf8.encode = some owner
      · obtain ⟨name, hname, rfl⟩ := Option.map_eq_some_iff.1 ho
        simp [hname]
      · simp only [ne_eq, ho, not_false_eq_true, ↓reduceIte, Action.runOn_throw]
        constructor
        · intro h
          cases h
        · rintro (h | ⟨name, rfl, h⟩)
          · cases h
          · cases h
            exact absurd rfl ho

theorem runOn_checkUnique_eq_ok {scheme : Scheme} {r : Record} {fullName : Option String} :
    ((checkUnique scheme r fullName).runOn s).1 = .ok () ↔ s.MayClaim scheme r fullName := by
  rw [checkUnique_eq,
    Action.runOn_forM_eq_ok fun index _ => keeps_claimIndex scheme r fullName index id]
  simp only [runOn_claimIndex_eq_ok, MayClaim, List.mem_filter, Bool.not_eq_true', and_imp]

theorem runOn_checkClaims_eq_ok {scheme : Scheme} (hplain : scheme.layout = .plain) {r : Record}
    {known : Option String} :
    ((checkClaims scheme r known).runOn s).1 = .ok () ↔
      (∀ key, known = some key → Namespace.isCounter (scheme.fullName key) = false) ∧
        s.MayClaim scheme r (known.map scheme.fullName) := by
  unfold checkClaims
  rw [if_pos hplain, Action.runOn_bind, Action.runOn_ofAnswer]
  cases known with
  | none => simp [runOn_checkUnique_eq_ok]
  | some key =>
    simp only [Option.elim_some, Option.some.injEq, forall_eq', Option.map_some]
    rw [← Namespace.checkWritable_eq_ok, ← runOn_checkUnique_eq_ok]
    cases Namespace.checkWritable (scheme.fullName key) <;> simp

/-! ## The key of a record -/

theorem fieldKey?_ne_empty {scheme : Scheme} {r : Record} {key : String}
    (h : scheme.fieldKey? r = some key) : key ≠ "" := by
  unfold Scheme.fieldKey? at h
  split at h
  · split at h
    · cases h
    · rename_i hne
      cases h
      exact hne
  · cases h
    exact Integer.render_ne_empty _
  · cases h

/-- A key that is known before the commit is the one that the caller gave or one that is not empty,
provided that no random identifier is. -/
theorem knownKey_ok {scheme : Scheme} {key : String} {r : Record} {known : Option String}
    (hrun : (knownKey scheme key r).runOn s = (.ok known, s')) :
    (key ≠ "" → known = some key) ∧ ((∀ n, s.identifiers n ≠ "") → known ≠ some "") := by
  have hdrawn : ∀ t : Store Keyspace, t = s → ∀ found,
      (some <$> drawIdentifier : Action (Store Keyspace) _).runOn t = (.ok found, s') →
      (∀ n, s.identifiers n ≠ "") → found ≠ some "" := by
    rintro t rfl found h hids
    rw [Action.runOn_map] at h
    cases h
    exact fun he => hids t.calls (Option.some.inj he)
  unfold knownKey at hrun
  split at hrun
  · rename_i hkey
    refine ⟨fun h => absurd hkey h, ?_⟩
    unfold deriveKey at hrun
    split at hrun
    · cases hrun
      exact fun _ => nofun
    · exact hdrawn s rfl known hrun
    · split at hrun
      · rename_i found hfound
        cases hrun
        exact fun _ he => fieldKey?_ne_empty hfound (Option.some.inj he)
      · exact hdrawn s rfl known hrun
  · rename_i hkey
    cases hrun
    exact ⟨fun _ => rfl, fun _ he => hkey (Option.some.inj he)⟩

/-- The key of a record is the one that is known, or a number. -/
theorem drawKey_ok {scheme : Scheme} {known : Option String} {key : String}
    (hrun : (drawKey scheme known).runOn s = (.ok key, s')) :
    known = some key ∨ known = none ∧ ∃ i, key = Integer.render i := by
  unfold drawKey at hrun
  split at hrun
  · cases hrun
    exact .inl rfl
  · refine .inr ⟨rfl, ?_⟩
    rw [Action.runOn_map] at hrun
    cases hr : ((onBackend (Backend.incr · (Namespace.sequenceKey scheme.space)) :
        Action (Store Keyspace) Int).runOn s).1 with
    | error e =>
      rw [hr] at hrun
      cases hrun
    | ok i =>
      rw [hr] at hrun
      cases hrun
      exact ⟨i, rfl⟩

/-! ## The commit of a record -/

/-- What is committed for a record: its bytes, and an entry for each of its keys. -/
def recordCommands (scheme : Scheme) (r : Record) (fullName : String) (raw : Bytes) : Transaction :=
  .set fullName raw none :: (scheme.claims r).map (Keyspace.claimCommand scheme.space fullName)

/-- If the store is faithful, the bytes open to the record. -/
def OpensTo (s : Store Keyspace) (raw : Bytes) (r : Record) : Prop :=
  s.Faithful → s.openBytes raw = .ok (.structured (.object r))

theorem OpensTo.of_settings {t : Store Keyspace} {raw : Bytes} {r : Record} (h : s.OpensTo raw r)
    (ht : t.settings = s.settings) : t.OpensTo raw r := by
  intro hf
  rw [openBytes_of_settings ht]
  exact h (hf.of_settings ht.symm)

/-- The bytes are what a store of the same settings has sealed a record as. -/
def SealedFor (s : Store Keyspace) (raw : Bytes) (r : Record) : Prop :=
  ∃ t t' : Store Keyspace, t.settings = s.settings ∧
    (encode (.structured (.object r))).runOn t = (.ok raw, t')

theorem SealedFor.of_settings {t : Store Keyspace} {raw : Bytes} {r : Record}
    (h : s.SealedFor raw r) (ht : t.settings = s.settings) : t.SealedFor raw r := by
  obtain ⟨u, u', hu, hencode⟩ := h
  exact ⟨u, u', hu.trans ht.symm, hencode⟩

theorem SealedFor.opensTo {raw : Bytes} {r : Record} (h : s.SealedFor raw r) : s.OpensTo raw r := by
  obtain ⟨t, t', ht, hencode⟩ := h
  intro hs
  rw [← openBytes_of_settings ht]
  exact openBytes_of_encode (hs.of_settings ht) hencode

/-- What staging a record of plain layout comes to. -/
theorem stage_eq_plain {scheme : Scheme} (hplain : scheme.layout = .plain) (r : Record)
    (fullName : String) :
    (stage scheme r fullName : Action (Store Keyspace) Transaction) = (do
      let raw ← (encode (.structured (.object r))).mapError (.inContext "put" fullName)
      return recordCommands scheme r fullName raw) := by
  unfold stage
  rw [hplain]
  simp only [stagePlain, Scheme.entries_eq_claims, List.map_map]
  rfl

theorem commitRecord_plain {scheme : Scheme} (hplain : scheme.layout = .plain) (r : Record)
    (key : String) :
    (commitRecord scheme r key : Action (Store Keyspace) Landing) = (do
      let raw ← (encode (.structured (.object r))).mapError (.inContext "put" (scheme.fullName key))
      (onBackend (Backend.commit · (recordCommands scheme r (scheme.fullName key) raw))).mapError
        (commitFailure (scheme.fullName key))
      return ⟨key, scheme.fullName key⟩) := by
  unfold commitRecord
  rw [stage_eq_plain hplain]
  simp only [bind_assoc, pure_bind]

/-- A record that was committed: the commands that were staged for it, and the keyspace that took
them. -/
theorem commitRecord_commits {scheme : Scheme} {r : Record} {key : String} {landing : Landing}
    (hrun : (commitRecord scheme r key).runOn s = (.ok landing, s')) :
    landing = ⟨key, scheme.fullName key⟩ ∧
      s'.uncounted = uncounted { s with backend := s'.backend } ∧
      ∃ tx mid, (stage scheme r (scheme.fullName key)).runOn s = (.ok tx, mid) ∧
        s.backend.commit s.clock.unixMillis tx = .ok s'.backend := by
  unfold commitRecord at hrun
  obtain ⟨tx, mid, hstage, hrun⟩ := Action.runOn_bind_eq_ok.1 hrun
  obtain ⟨_, after, hcommit, hrun⟩ := Action.runOn_bind_eq_ok.1 hrun
  cases hrun
  have hmid : mid.uncounted = s.uncounted := (keeps_stage scheme r _).of_runOn hstage
  rw [Action.runOn_mapError_eq_ok, runOn_onBackend, Keyspace.runOn_commit_eq] at hcommit
  cases hc : mid.backend.commit mid.clock.unixMillis tx with
  | error e =>
    rw [hc] at hcommit
    cases hcommit
  | ok b =>
    rw [hc] at hcommit
    cases hcommit
    rw [backend_of_uncounted hmid, clock_of_uncounted hmid] at hc
    exact ⟨rfl, uncounted_withBackend hmid fun _ _ => b, tx, mid, hstage, hc⟩

/-- What is staged for a record of plain layout. -/
theorem stage_plain {scheme : Scheme} (hplain : scheme.layout = .plain) {r : Record}
    {fullName : String} {tx : Transaction}
    (hrun : (stage scheme r fullName).runOn s = (.ok tx, s')) :
    ∃ raw, (encode (.structured (.object r))).runOn s = (.ok raw, s') ∧
      tx = recordCommands scheme r fullName raw := by
  rw [stage_eq_plain hplain] at hrun
  obtain ⟨raw, mid, hencode, hrun⟩ := Action.runOn_bind_eq_ok.1 hrun
  cases hrun
  exact ⟨raw, Action.runOn_mapError_eq_ok.1 hencode, rfl⟩

/-- What staging a record in the layout of a hash comes to. -/
theorem stage_eq_hash {scheme : Scheme} (hlayout : scheme.layout = .hashTable) (r : Record)
    (fullName : String) :
    (stage scheme r fullName : Action (Store Keyspace) Transaction) = (do
      let fields ← r.mapM (sealField scheme fullName)
      return .del fullName :: if fields = [] then [] else [.hset fullName fields]) := by
  unfold stage
  rw [hlayout]
  exact stageHash_eq scheme r fullName

/-- What is staged for a record in the layout of a hash. -/
theorem stage_fields {scheme : Scheme} (hlayout : scheme.layout = .hashTable) {r : Record}
    {fullName : String} {tx : Transaction}
    (hrun : (stage scheme r fullName).runOn s = (.ok tx, s')) :
    ∃ fields, (r.mapM (sealField scheme fullName)).runOn s = (.ok fields, s') ∧
      tx = .del fullName :: if fields = [] then [] else [.hset fullName fields] := by
  rw [stage_eq_hash hlayout] at hrun
  obtain ⟨fields, mid, hfields, hrun⟩ := Action.runOn_bind_eq_ok.1 hrun
  cases hrun
  exact ⟨fields, hfields, rfl⟩

/-- A field of a hash record is the JSON text of the value, or what that was encrypted as. -/
theorem sealField_cases {scheme : Scheme} {fullName : String} {member : String × Json}
    {field : String × Bytes} (hrun : (sealField scheme fullName member).runOn s = (.ok field, s')) :
    field.1 = member.1 ∧
      if scheme.encrypts member.1 then (encrypt member.2.toBytes).runOn s = (.ok field.2, s')
      else field.2 = member.2.toBytes := by
  obtain ⟨name, j⟩ := member
  unfold sealField at hrun
  dsimp only at hrun ⊢
  split at hrun
  · rename_i hencrypts
    obtain ⟨data, mid, hdata, hrun⟩ := Action.runOn_bind_eq_ok.1 hrun
    cases hrun
    rw [if_pos hencrypts]
    exact ⟨rfl, Action.runOn_mapError_eq_ok.1 hdata⟩
  · rename_i hencrypts
    cases hrun
    rw [if_neg hencrypts]
    exact ⟨rfl, rfl⟩

/-- A record that was committed: the bytes that stand for it and the keyspace that took them. -/
theorem commitRecord_ok {scheme : Scheme} (hplain : scheme.layout = .plain) {r : Record}
    {key : String} {landing : Landing}
    (hrun : (commitRecord scheme r key).runOn s = (.ok landing, s')) :
    landing = ⟨key, scheme.fullName key⟩ ∧
      s'.settings = s.settings ∧
      ∃ raw, s.SealedFor raw r ∧
        s.backend.commit s.clock.unixMillis (recordCommands scheme r (scheme.fullName key) raw) =
          .ok s'.backend := by
  obtain ⟨hlanding, hs', tx, mid, hstage, hcommit⟩ := commitRecord_commits hrun
  obtain ⟨raw, hencode, rfl⟩ := stage_plain hplain hstage
  exact ⟨hlanding, (settings_of_uncounted hs' :), raw, ⟨s, mid, rfl, hencode⟩, hcommit⟩

/-- Slots after the commit of a record. -/
theorem slots_of_commit {b b' : Keyspace} {now : Nat} {scheme : Scheme} {r : Record}
    {fullName : String} {raw : Bytes} {o : Owners} (hb : b.Indexed scheme.space o) {key : String}
    (hname : fullName = scheme.fullName key) (hout : Namespace.isLookup key = false)
    (h : b.commit now (recordCommands scheme r fullName raw) = .ok b') :
    b'.Indexed scheme.space (o.claim (scheme.claims r) fullName) ∧
      ∀ k, Namespace.isLookup k = false → b'.slots[Namespace.key scheme.space k]? =
        if k = key then some ⟨.string raw, none⟩ else b.slots[Namespace.key scheme.space k]? := by
  subst hname
  have hrun := Keyspace.commit_ok h
  rw [recordCommands, List.foldl_cons] at hrun
  have hset : b.apply now (.set (scheme.fullName key) raw none) =
      b.put (Namespace.key scheme.space key) ⟨.string raw, none⟩ := rfl
  rw [hset] at hrun
  subst hrun
  refine ⟨(hb.put hout _).claimAll now _ _, fun k hk => ?_⟩
  rw [Keyspace.slots_claimAll_of_ne now _ _ (Namespace.key_ne_lookupKey hk), Keyspace.slots_put]
  by_cases he : k = key
  · rw [if_pos he, if_pos (congrArg _ he)]
  · rw [if_neg he, if_neg fun hn => he (Namespace.key_injective hn)]

/-- The commit of a record is accepted when its name is that of no lookup hash. -/
theorem commit_record_ok {b : Keyspace} {scheme : Scheme} {o : Owners}
    (hb : b.Indexed scheme.space o) {key : String} (hout : Namespace.isLookup key = false)
    (now : Nat) (r : Record) (raw : Bytes) :
    ∃ b', b.commit now (recordCommands scheme r (scheme.fullName key) raw) = .ok b' := by
  have hclaims : Transaction.check
      (fun k => if k = scheme.fullName key then some Shape.string else b.shape? now k)
      ((scheme.claims r).map (Keyspace.claimCommand scheme.space (scheme.fullName key))) =
        .ok () := by
    refine Keyspace.check_claims _ _ fun index => ?_
    have hne : Namespace.lookupKey scheme.space index ≠ scheme.fullName key :=
      (Namespace.key_ne_lookupKey hout index).symm
    rw [if_neg hne]
    exact hb.shape? now index
  have hcheck : (recordCommands scheme r (scheme.fullName key) raw).check (b.shape? now) = .ok () :=
    hclaims
  exact ⟨_, by rw [Keyspace.commit, hcheck]⟩

/-- When the commit would be accepted whatever the bytes, only the encoding decides. -/
theorem runOn_commitRecord {scheme : Scheme} (hplain : scheme.layout = .plain) {r : Record}
    {key : String}
    (hcommit : ∀ raw, ∃ b, s.backend.commit s.clock.unixMillis
      (recordCommands scheme r (scheme.fullName key) raw) = .ok b) :
    ((commitRecord scheme r key).runOn s).1 =
      ((((encode (.structured (.object r))).runOn s).1.mapError
        (.inContext "put" (scheme.fullName key))).map
          fun _ => ⟨key, scheme.fullName key⟩) := by
  rw [commitRecord_plain hplain, Action.runOn_bind, Action.runOn_mapError]
  rcases hencode : (encode (.structured (.object r))).runOn s with ⟨e | raw, mid⟩
  · rfl
  · have hmid : mid.uncounted = s.uncounted := (keeps_encode _).of_runOn hencode
    obtain ⟨b, hb⟩ := hcommit raw
    rw [← backend_of_uncounted hmid, ← clock_of_uncounted hmid] at hb
    simp only [Except.mapError, Action.runOn_bind, Action.runOn_mapError, runOn_onBackend,
      Keyspace.runOn_commit_eq, hb]
    rfl

/-! ## The whole put -/

/-- What a put of a plain record that succeeded tells of the stores before and after it. -/
structure PutPlain (scheme : Scheme) (r : Record) (landing : Landing) (s s' : Store Keyspace) :
    Prop where
  applicable : ((checkScheme scheme).runOn s).1 = .ok ()
  fullName : landing.fullName = scheme.fullName landing.key
  writable : Namespace.isCounter landing.fullName = false
  mayClaim : s.MayClaim scheme r (some landing.fullName)
  settings : s'.settings = s.settings
  committed : ∃ (raw : Bytes) (b : Keyspace), s.OpensTo raw r ∧
    b.drop (Namespace.sequenceKey scheme.space) =
      s.backend.drop (Namespace.sequenceKey scheme.space) ∧
    b.commit s.clock.unixMillis (recordCommands scheme r landing.fullName raw) = .ok s'.backend

theorem MayClaim.of_uncounted {t : Store Keyspace} {scheme : Scheme} {r : Record}
    {fullName : Option String} (ht : t.uncounted = s.uncounted) (h : s.MayClaim scheme r fullName) :
    t.MayClaim scheme r fullName := by
  unfold MayClaim
  rw [backend_of_uncounted ht, clock_of_uncounted ht]
  exact h

theorem MayClaim.some {scheme : Scheme} {r : Record} {known : Option String} {name : String}
    (h : s.MayClaim scheme r known) (hknown : known = none ∨ known = Option.some name) :
    s.MayClaim scheme r (Option.some name) := by
  intro index hindex hshared x hx
  rcases h index hindex hshared x hx with hfree | ⟨owner, howner, hfield⟩
  · exact .inl hfree
  · rcases hknown with rfl | rfl
    · cases howner
    · exact .inr ⟨owner, howner, hfield⟩

/-- A put that succeeded went through all the stages, and nothing but the counter had changed when
its record was committed. -/
theorem putRecord_stages {scheme : Scheme} {key : String} {j : Json} {landing : Landing}
    (hrun : (putRecord scheme key j).runOn s = (.ok landing, s')) :
    ∃ (r : Record) (known : Option String) (drawn : String) (mid t : Store Keyspace),
      j = .object r ∧ ((checkScheme scheme).runOn s).1 = .ok () ∧
      (knownKey scheme key r).runOn s = (.ok known, mid) ∧ mid.uncounted = s.uncounted ∧
      ((checkClaims scheme r known).runOn mid).1 = .ok () ∧
      (drawKey scheme known).runOn mid = (.ok drawn, t) ∧
      t.besides (Namespace.sequenceKey scheme.space) =
        s.besides (Namespace.sequenceKey scheme.space) ∧
      (commitRecord scheme r drawn).runOn t = (.ok landing, s') := by
  rw [putRecord_eq] at hrun
  obtain ⟨_, s₁, hscheme, hrun⟩ := Action.runOn_bind_eq_ok.1 hrun
  obtain ⟨happlicable, rfl⟩ := Prod.mk.inj hscheme
  obtain ⟨r, s₂, hr, hrun⟩ := Action.runOn_bind_eq_ok.1 hrun
  obtain ⟨hrecord, rfl⟩ := Prod.mk.inj hr
  obtain ⟨known, mid, hknown, hrun⟩ := Action.runOn_bind_eq_ok.1 hrun
  obtain ⟨_, checked, hclaims, hrun⟩ := Action.runOn_bind_eq_ok.1 hrun
  obtain ⟨drawn, t, hdraw, hrun⟩ := Action.runOn_bind_eq_ok.1 hrun
  have hmid : mid.uncounted = s.uncounted := (keeps_knownKey scheme key r).of_runOn hknown
  have hchecked : checked = mid := (keeps_checkClaims scheme r known id).of_runOn hclaims
  rw [hchecked] at hdraw
  have ht : t.besides (Namespace.sequenceKey scheme.space) = s.besides _ :=
    ((keeps_drawKey scheme known).of_runOn hdraw).trans (besides_of_uncounted hmid _)
  refine ⟨r, known, drawn, mid, t, ?_, happlicable, hknown, hmid, congrArg Prod.fst hclaims, hdraw,
    ht, hrun⟩
  cases j <;> cases hrecord
  rfl

/-- A record lands under the key that was given, if there was one. -/
theorem key_of_putRecord {scheme : Scheme} {key : String} {j : Json} {landing : Landing}
    (hrun : (putRecord scheme key j).runOn s = (.ok landing, s')) (hkey : key ≠ "") :
    landing.key = key := by
  obtain ⟨r, known, drawn, mid, t, -, -, hknown, -, -, hdraw, -, hcommit⟩ :=
    putRecord_stages hrun
  obtain ⟨rfl, -⟩ := commitRecord_commits hcommit
  have hgiven : known = some key := (knownKey_ok hknown).1 hkey
  subst hgiven
  cases hdraw
  rfl

/-- Records are only put in a keyspace by schemes for one. -/
theorem family_of_putRecord {scheme : Scheme} {key : String} {j : Json} {landing : Landing}
    (hrun : (putRecord scheme key j).runOn s = (.ok landing, s')) : scheme.family = .memory := by
  obtain ⟨-, -, -, -, -, -, happlicable, -⟩ := putRecord_stages hrun
  exact (runOn_checkScheme_eq_ok.1 happlicable).1

/-- The commit that a put of a plain record ended with. -/
theorem putRecord_sealed {scheme : Scheme} (hplain : scheme.layout = .plain) {key : String}
    {r : Record} {landing : Landing}
    (hrun : (putRecord scheme key (.object r)).runOn s = (.ok landing, s')) :
    ∃ (raw : Bytes) (b : Keyspace), s.SealedFor raw r ∧
      b.drop (Namespace.sequenceKey scheme.space) =
        s.backend.drop (Namespace.sequenceKey scheme.space) ∧
      b.commit s.clock.unixMillis (recordCommands scheme r landing.fullName raw) =
        .ok s'.backend := by
  obtain ⟨_, known, drawn, mid, t, hr, -, -, -, -, -, ht, hcommit⟩ := putRecord_stages hrun
  cases hr
  obtain ⟨rfl, -, raw, hsealed, hcommit⟩ := commitRecord_ok hplain hcommit
  rw [clock_of_besides ht] at hcommit
  exact ⟨raw, t.backend, hsealed.of_settings (settings_of_besides ht).symm, drop_of_besides ht,
    hcommit⟩

theorem putRecord_ok {scheme : Scheme} (hplain : scheme.layout = .plain) {key : String} {j : Json}
    {landing : Landing} (hrun : (putRecord scheme key j).runOn s = (.ok landing, s')) :
    ∃ r, j = .object r ∧ PutPlain scheme r landing s s' ∧ (key ≠ "" → landing.key = key) ∧
      ((∀ n, s.identifiers n ≠ "") → landing.key ≠ "") := by
  obtain ⟨r, known, drawn, mid, t, rfl, happlicable, hknown, hmid, hclaims, hdraw, ht, hcommit⟩ :=
    putRecord_stages hrun
  obtain ⟨raw, b, hsealed, hdrop, hcommitted⟩ := putRecord_sealed hplain hrun
  obtain ⟨rfl, hsettings, -⟩ := commitRecord_ok hplain hcommit
  obtain ⟨hwritable, hmay⟩ := (runOn_checkClaims_eq_ok hplain).1 hclaims
  obtain ⟨hgiven, hrandom⟩ := knownKey_ok hknown
  have hkey := drawKey_ok hdraw
  refine ⟨r, rfl, ?_, ?_, ?_⟩
  · exact {
      applicable := happlicable
      fullName := rfl
      writable := by
        rcases hkey with hk | ⟨-, i, rfl⟩
        · exact hwritable drawn hk
        · exact Integer.isCounter_render scheme.space i
      mayClaim := by
        refine (MayClaim.of_uncounted hmid.symm hmay).some ?_
        rcases hkey with hk | ⟨hk, -⟩
        · exact .inr (congrArg (Option.map scheme.fullName) hk)
        · exact .inl (congrArg (Option.map scheme.fullName) hk)
      settings := hsettings.trans (settings_of_besides ht)
      committed := ⟨raw, b, hsealed.opensTo, hdrop, hcommitted⟩ }
  · exact key_of_putRecord hrun
  · intro hids
    rcases hkey with hk | ⟨-, i, rfl⟩
    · rintro rfl
      exact hrandom hids hk
    · exact Integer.render_ne_empty i

/-- A put under a given key that passes every check, and whose commit would be accepted, answers
as the encoding of the record does. -/
theorem runOn_putRecord {scheme : Scheme} (hplain : scheme.layout = .plain) {key : String}
    (hkey : key ≠ "") {r : Record} (happlicable : ((checkScheme scheme).runOn s).1 = .ok ())
    (hwritable : Namespace.isCounter (scheme.fullName key) = false)
    (hmay : s.MayClaim scheme r (some (scheme.fullName key)))
    (hcommit : ∀ raw, ∃ b, s.backend.commit s.clock.unixMillis
      (recordCommands scheme r (scheme.fullName key) raw) = .ok b) :
    ((putRecord scheme key (.object r)).runOn s).1 =
      ((((encode (.structured (.object r))).runOn s).1.mapError
        (.inContext "put" (scheme.fullName key))).map
          fun _ => ⟨key, scheme.fullName key⟩) := by
  have hscheme : (checkScheme scheme).runOn s = (.ok (), s) := Prod.ext happlicable rfl
  have hknown : knownKey scheme key r = (pure (some key) : Action (Store Keyspace) _) :=
    if_neg hkey
  have hclaims : (checkClaims scheme r (some key)).runOn s = (.ok (), s) := by
    refine Prod.ext ((runOn_checkClaims_eq_ok hplain).2 ⟨?_, hmay⟩)
      (keeps_checkClaims scheme r (some key) id s)
    rintro k ⟨⟩
    exact hwritable
  rw [putRecord_eq, Action.runOn_bind, hscheme]
  simp only [Record.ofJson, Action.ofAnswer_ok, pure_bind, hknown]
  rw [Action.runOn_bind, hclaims]
  exact runOn_commitRecord hplain hcommit

end Store

end SealedStore
