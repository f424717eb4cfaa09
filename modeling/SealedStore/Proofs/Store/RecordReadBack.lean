import SealedStore.Proofs.Envelope.RoundTrip
import SealedStore.Proofs.Store.RecordFrame
import SealedStore.Proofs.Store.Scan

set_option autoImplicit false

/-!
# A record reads back

A record that was put, and landed, is read back by its scheme: a plain record from one envelope, a
hash record field by field, where some fields may be encrypted by themselves.  Only a hash record
without fields leaves nothing behind (`getRecord_of_putRecord`).
-/

namespace SealedStore

/-! ## Members of a record -/

/-- JSON text that is not nested too deep reads as what it was written from. -/
theorem Json.read?_toBytes {j : Json} (h : j.Integral) (hc : j.Canonical)
    (hdepth : j.depth ≤ maxDepth) : read? j.toBytes = some j := by
  unfold read? readWithin? toBytes
  rw [Tree.read?_render h, Option.bind_some, Tree.toJson?_toTree maxDepth j h hc, if_pos hdepth]

theorem Json.members_plain {r : Record} {limit : Nat} (h : IntegralMembers r)
    (hc : CanonicalMembers r) (hdepth : depthMembers r ≤ limit) :
    ∀ m ∈ r, m.2.Integral ∧ m.2.Canonical ∧ m.2.depth ≤ limit := by
  induction r with
  | nil => exact fun m hm => absurd hm List.not_mem_nil
  | cons first rest ih =>
    obtain ⟨name, j⟩ := first
    rw [depthMembers, depthMember] at hdepth
    intro m hm
    rcases List.mem_cons.1 hm with rfl | hm
    · exact ⟨h.1, hc.1, (le_max_left _ _).trans hdepth⟩
    · exact ih h.2 hc.2 ((le_max_right _ _).trans hdepth) m hm

/-- Fields that are in order come out of a hash as they went into it. -/
theorem Keyspace.toList_of_sorted {fields : List (String × Bytes)}
    (h : fields.Pairwise fun a b => a.1 < b.1) :
    (Std.ExtTreeMap.insertMany (∅ : Fields) fields).toList = fields := by
  have hdistinct {l : List (String × Bytes)} (hl : l.Pairwise fun a b => a.1 < b.1) :
      l.Pairwise fun a b => a.1 ≠ b.1 := by
    refine hl.imp fun {a b} hlt he => ?_
    rw [he] at hlt
    exact String.lt_irrefl _ hlt
  have hnodup {l : List (String × Bytes)} (hl : l.Pairwise fun a b => a.1 < b.1) : l.Nodup :=
    (hdistinct hl).imp fun hne he => hne (congrArg Prod.fst he)
  have hcompare : (Std.ExtTreeMap.insertMany (∅ : Fields) fields).toList.Pairwise
      fun a b => compare a.1 b.1 = .lt := Std.ExtTreeMap.ordered_keys_toList
  have hordered : (Std.ExtTreeMap.insertMany (∅ : Fields) fields).toList.Pairwise
      fun a b => a.1 < b.1 := hcompare.imp fun hlt => compareOfLessAndEq_eq_lt.1 hlt
  have hmem : ∀ field, field ∈ (Std.ExtTreeMap.insertMany (∅ : Fields) fields).toList ↔
      field ∈ fields := by
    rintro ⟨name, v⟩
    rw [Std.ExtTreeMap.mem_toList_iff_getElem?_eq_some, ← Std.ExtTreeMap.ofList_eq_insertMany_empty]
    exact getElem?_ofList_eq_some (hdistinct h)
  refine List.Perm.eq_of_pairwise ?_ hordered h
    ((List.perm_ext_iff_of_nodup (hnodup hordered) (hnodup h)).2 hmem)
  exact fun a b _ _ hab hba => absurd hab (String.lt_asymm hba)

/-- Fields that stand for the members of a record one by one have the names of the record. -/
theorem names_eq_of_forall₂ {r : Record} {fields : List (String × Bytes)}
    (h : List.Forall₂ (fun member field => field.1 = member.1) r fields) :
    r.map Prod.fst = fields.map Prod.fst := by
  have heq : List.Forall₂ (· = ·) (r.map Prod.fst) (fields.map Prod.fst) := by
    rw [List.forall₂_map_left_iff, List.forall₂_map_right_iff]
    exact h.imp fun _ _ hname => hname.symm
  rwa [List.forall₂_eq_eq_eq] at heq

namespace Store

variable {s s' t : Store Keyspace} {scheme : Scheme} {fullName : String} {r : Record}

/-! ## Fields of a hash record -/

/-- A field of a hash stands for a member of a record: it has its name, and its bytes open to the
JSON text of the value. -/
def FieldOpens (s : Store Keyspace) (scheme : Scheme) (member : String × Json)
    (field : String × Bytes) : Prop :=
  field.1 = member.1 ∧
    if scheme.encrypts member.1 then s.decryptBytes field.2 = .ok member.2.toBytes
    else field.2 = member.2.toBytes

theorem FieldOpens.of_settings {member : String × Json} {field : String × Bytes}
    (h : s.FieldOpens scheme member field) (ht : t.settings = s.settings) :
    t.FieldOpens scheme member field := by
  have hdecrypt : t.decryptBytes field.2 = s.decryptBytes field.2 :=
    (congrArg (fun u : Store Keyspace => u.decryptBytes field.2) ht :)
  unfold FieldOpens
  rw [hdecrypt]
  exact h

theorem sealField_ok {member : String × Json} {field : String × Bytes}
    (hcipher : ∀ e, s.encryption = some e → e.Undoes)
    (hrun : (sealField scheme fullName member).runOn s = (.ok field, s')) :
    s.FieldOpens scheme member field := by
  obtain ⟨hname, hdata⟩ := sealField_cases hrun
  refine ⟨hname, ?_⟩
  split
  · rename_i hencrypts
    rw [if_pos hencrypts] at hdata
    exact decryptBytes_of_encrypt hcipher hdata
  · rename_i hencrypts
    rwa [if_neg hencrypts] at hdata

/-- What is staged for a record in the layout of a hash opens to the record. -/
theorem stage_hash {tx : Transaction} (hlayout : scheme.layout = .hashTable)
    (hcipher : ∀ e, s.encryption = some e → e.Undoes)
    (hrun : (stage scheme r fullName).runOn s = (.ok tx, s')) :
    ∃ fields, List.Forall₂ (s.FieldOpens scheme) r fields ∧
      tx = .del fullName :: if fields = [] then [] else [.hset fullName fields] := by
  obtain ⟨fields, hfields, rfl⟩ := stage_fields hlayout hrun
  refine ⟨fields, Action.forall₂_of_mapM (keeps_sealField scheme fullName) ?_ hfields, rfl⟩
  intro member u u' field hu hseal
  have hsettings : u.settings = s.settings := settings_of_uncounted hu
  exact (sealField_ok (undoes_of_settings hsettings hcipher) hseal).of_settings hsettings.symm

/-- Reads a field of a hash record. -/
def openField (scheme : Scheme) (fullName : String) :
    String × Bytes → Action (Store Keyspace) (String × Json)
  | (name, data) => do
    let plain ← if scheme.encrypts name then
        (decrypt data).mapError (.inContext "get" fullName)
      else pure data
    match Json.read? plain with
    | some j => return (name, j)
    | none =>
      let e := StoreError.serialization (.words s!"field '{name}': " :: Detail.malformed)
      throw (e.inContext "get" fullName)

theorem readHash_eq (scheme : Scheme) (fullName : String) :
    (readHash scheme fullName : Action (Store Keyspace) (Option Value)) = (do
      let fields ← onBackend (Backend.fields · fullName)
      if fields.isEmpty then return none
      let members ← fields.toList.mapM (openField scheme fullName)
      return some (.structured (.object members))) := rfl

theorem runOn_openField {member : String × Json} {field : String × Bytes}
    (h : s.FieldOpens scheme member field)
    (hread : Json.read? member.2.toBytes = some member.2) :
    (openField scheme fullName field).runOn s = (.ok member, s) := by
  obtain ⟨name, j⟩ := member
  obtain ⟨name', data⟩ := field
  obtain ⟨rfl, hopen⟩ := h
  unfold openField
  dsimp only
  split at hopen
  · rename_i hencrypts
    rw [if_pos hencrypts]
    refine Action.runOn_bind_eq_ok.2 ⟨j.toBytes, s, ?_, ?_⟩
    · rw [Action.runOn_mapError_eq_ok, runOn_decrypt, hopen]
    · rw [hread]
      rfl
  · rename_i hencrypts
    obtain rfl : data = j.toBytes := hopen
    rw [if_neg hencrypts, pure_bind, hread]
    rfl

/-- Fields that stand for the members of a record in order read as the record. -/
theorem runOn_readHash {fields : List (String × Bytes)}
    (hfields : List.Forall₂ (s.FieldOpens scheme) r fields)
    (hr : ∀ m ∈ r, Json.read? m.2.toBytes = some m.2) (hsorted : r.Sorted) (hne : r ≠ [])
    (hslot : s.backend.slots[fullName]? =
      some ⟨.hash (Std.ExtTreeMap.insertMany ∅ fields), none⟩) :
    (readHash scheme fullName).runOn s = (.ok (some (.structured (.object r))), s) := by
  have hnames : r.map Prod.fst = fields.map Prod.fst :=
    names_eq_of_forall₂ (hfields.imp fun _ _ hopens => hopens.1)
  have hordered : fields.Pairwise fun a b => a.1 < b.1 := by
    have hr : (r.map Prod.fst).Pairwise (· < ·) := List.pairwise_map.2 hsorted
    rw [hnames] at hr
    exact List.pairwise_map.1 hr
  have hnonempty : fields ≠ [] := by
    rintro rfl
    exact hne (List.map_eq_nil_iff.1 hnames)
  have hget : (onBackend (Backend.fields · fullName) : Action (Store Keyspace) _).runOn s =
      (.ok (Std.ExtTreeMap.insertMany ∅ fields), s) := by
    have hfound : s.backend.fields s.clock.unixMillis fullName =
        .ok (Std.ExtTreeMap.insertMany ∅ fields) := by
      unfold Keyspace.fields Keyspace.live?
      rw [hslot]
      rfl
    exact congrArg (fun a => (a, s)) hfound
  have hopens : List.Forall₂ (fun field m => (openField scheme fullName field).runOn s = (.ok m, s))
      fields r := by
    refine List.Forall₂.flip ?_
    refine List.Forall₂.imp ?_ ((List.forall₂_and_left _ _).2 ⟨hr, hfields⟩)
    exact fun m field h => runOn_openField h.2 h.1
  have hsome : (Std.ExtTreeMap.insertMany (∅ : Fields) fields).isEmpty = false := by
    rw [Std.ExtTreeMap.isEmpty_insertMany_list]
    simp [hnonempty]
  rw [readHash_eq]
  refine Action.runOn_bind_eq_ok.2 ⟨_, s, hget, ?_⟩
  simp only [hsome, Bool.false_eq_true, ↓reduceIte, Keyspace.toList_of_sorted hordered]
  exact Action.runOn_bind_eq_ok.2 ⟨r, s, Action.runOn_mapM_eq_ok hopens, rfl⟩

/-- Where nothing is, no record is read. -/
theorem runOn_readHash_of_missing (scheme : Scheme) (hslot : s.backend.slots[fullName]? = none) :
    (readHash scheme fullName).runOn s = (.ok none, s) := by
  have hfound : s.backend.fields s.clock.unixMillis fullName = .ok ∅ := by
    unfold Keyspace.fields Keyspace.live?
    rw [hslot]
    rfl
  have hget : (onBackend (Backend.fields · fullName) : Action (Store Keyspace) _).runOn s =
      (.ok ∅, s) := congrArg (fun a => (a, s)) hfound
  rw [readHash_eq]
  exact Action.runOn_bind_eq_ok.2 ⟨∅, s, hget, rfl⟩

/-! ## Records -/

/-- The bytes that a record was sealed as, in JSON text, open to the record. -/
theorem openBytes_of_record {raw : Bytes} (hcodec : s.codec = .json)
    (hcipher : ∀ e, s.encryption = some e → e.Undoes) (hclock : s.clock.Datable)
    (hintegral : (Json.object r).Integral) (hcanonical : (Json.object r).Canonical)
    (hdepth : (Json.object r).depth ≤ 126)
    (hencode : (encode (.structured (.object r))).runOn s = (.ok raw, s')) :
    s.openBytes raw = .ok (.structured (.object r)) := by
  obtain ⟨call, plain, hwrite, hopen⟩ := openBytes_encoded hcipher hencode
  rw [hcodec] at hwrite hopen
  have hread := Codec.json_read_of_write (v := .structured (.object r)) hclock hintegral hcanonical
    hwrite
  rw [hopen]
  exact hread.trans (if_pos hdepth)

/-- The envelope of a record, in JSON text, reads as the record. -/
theorem runOn_read_of_record {raw : Bytes} (hcodec : t.codec = .json)
    (hcipher : ∀ e, t.encryption = some e → e.Undoes) (hclock : t.clock.Datable)
    (hintegral : (Json.object r).Integral) (hcanonical : (Json.object r).Canonical)
    (hdepth : (Json.object r).depth ≤ 126)
    (hencode : (encode (.structured (.object r))).runOn t = (.ok raw, s'))
    (hsettings : s.settings = t.settings)
    (hslot : s.backend.slots[fullName]? = some ⟨.string raw, none⟩) :
    (read fullName).runOn s = (.ok (some (.structured (.object r))), s) := by
  have hopen : s.openBytes raw = .ok (.structured (.object r)) := by
    rw [openBytes_of_settings hsettings]
    exact openBytes_of_record hcodec hcipher hclock hintegral hcanonical hdepth hencode
  have hlive : s.backend.live? s.clock.unixMillis fullName = some ⟨.string raw, none⟩ := by
    unfold Keyspace.live?
    rw [hslot]
    rfl
  exact runOn_read_eq_some.2 ⟨rfl, raw, Keyspace.get_eq_some.2 ⟨none, hlive⟩, hopen⟩

/-- The value that is read for a record, before it is read as a type. -/
def readRecord (scheme : Scheme) (fullName : String) : Action (Store Keyspace) (Option Value) :=
  match scheme.layout with
  | .plain => read fullName
  | .hashTable => readHash scheme fullName
  | .set => throw Scheme.setUnsupported

theorem getRecord_eq (scheme : Scheme) (key : String) (schema : Schema) :
    (getRecord scheme key schema : Action (Store Keyspace) (Option Json)) = (do
      let v ← readRecord scheme (scheme.fullName key)
      readAs schema (scheme.fullName key) v) := by
  unfold getRecord readRecord
  cases scheme.layout <;> rfl

/-- A record that lands is there, as an envelope or as a hash; a hash record without fields leaves
nothing. -/
theorem Lands.stored {key : String} {landing : Landing} (h : Lands scheme key r landing s s')
    (hcipher : ∀ e, s.encryption = some e → e.Undoes) :
    (scheme.layout = .plain ∧ ∃ raw t t',
      t.settings = s.settings ∧ t.clock = s.clock ∧
      (encode (.structured (.object r))).runOn t = (.ok raw, t') ∧
      s'.backend.slots[landing.fullName]? = some ⟨.string raw, none⟩) ∨
    (scheme.layout = .hashTable ∧ ∃ fields,
      List.Forall₂ (s.FieldOpens scheme) r fields ∧
      s'.backend.slots[landing.fullName]? =
        if fields = [] then none
        else some ⟨.hash (Std.ExtTreeMap.insertMany ∅ fields), none⟩) := by
  obtain ⟨t, mid, tx, ht, hclock, hstage, hcommit⟩ := h.committed
  cases hlayout : scheme.layout with
  | plain =>
    obtain ⟨raw, hencode, rfl⟩ := stage_plain hlayout hstage
    refine .inl ⟨rfl, raw, t, mid, ht, hclock, hencode, ?_⟩
    refine Keyspace.slots_of_commit_set ?_ hcommit
    intro c hc
    obtain ⟨claim, -, rfl⟩ := List.mem_map.1 hc
    exact ⟨_, _, rfl⟩
  | hashTable =>
    obtain ⟨fields, hopens, rfl⟩ := stage_hash hlayout (undoes_of_settings ht hcipher) hstage
    refine .inr ⟨rfl, fields, hopens.imp fun _ _ hopen => hopen.of_settings ht.symm, ?_⟩
    exact Keyspace.slots_of_commit_fields hcommit
  | set =>
    unfold stage at hstage
    simp only [hlayout] at hstage
    cases hstage

end Store

open Store in
/-- On a store that writes JSON text, encrypted or not, whatever it holds: a record without
floating-point numbers that is nested at most 126 deep, was put and has landed, is read back by its
scheme under the key that the put answered, in plain layout and in that of a hash.  Only a hash
record without fields is not: it was acknowledged, and nothing is there. -/
theorem getRecord_of_putRecord {s s' : Store Keyspace} (hcodec : s.codec = .json)
    (hcipher : ∀ e, s.encryption = some e → e.Undoes) (hclock : s.clock.Datable) {scheme : Scheme}
    {key : String} {r : Record} (hintegral : (Json.object r).Integral)
    (hcanonical : (Json.object r).Canonical) (hdepth : (Json.object r).depth ≤ 126)
    {landing : Landing}
    (hrun : (putRecord scheme key (.object r)).runOn s = (.ok landing, s')) :
    (getRecord scheme landing.key .any).runOn s' =
      (.ok (if scheme.layout = .hashTable ∧ r = [] then none else some (.object r)), s') := by
  obtain ⟨_, hr, hlands⟩ := putRecord_lands hrun
  cases hr
  have hname : scheme.fullName landing.key = landing.fullName := hlands.fullName.symm
  have hsettings : s'.settings = s.settings := (settings_of_uncounted hlands.unchanged :)
  -- Read as JSON, what the layout reads is the answer.
  suffices hread : (readRecord scheme landing.fullName).runOn s' =
      (.ok (if scheme.layout = .hashTable ∧ r = [] then none
        else some (.structured (.object r))), s') by
    rw [getRecord_eq, hname]
    refine Action.runOn_bind_eq_ok.2 ⟨_, s', hread, ?_⟩
    split
    · rfl
    · simp only [readAs, Value.read_any, Action.runOn_ofAnswer]
      rfl
  unfold readRecord
  rcases hlands.stored hcipher with
    ⟨hlayout, raw, t, t', ht, htime, hencode, hslot⟩ | ⟨hlayout, fields, hfields, hslot⟩
  · have hcodec' : t.codec = .json := (congrArg Store.codec ht :).trans hcodec
    have hcipher' := undoes_of_settings ht hcipher
    have hclock' : t.clock.Datable := by
      rw [htime]
      exact hclock
    simp only [hlayout, reduceCtorEq, false_and, ↓reduceIte]
    exact runOn_read_of_record hcodec' hcipher' hclock' hintegral hcanonical hdepth hencode
      (hsettings.trans ht.symm) hslot
  · simp only [hlayout, true_and]
    by_cases hnone : r = []
    · subst hnone
      obtain rfl : fields = [] := List.forall₂_nil_left_iff.1 hfields
      rw [if_pos rfl]
      exact runOn_readHash_of_missing scheme (hslot.trans (if_pos rfl))
    · have hfields' : fields ≠ [] := by
        rintro rfl
        exact hnone (List.forall₂_nil_right_iff.1 hfields)
      rw [if_neg hnone]
      refine runOn_readHash (hfields.imp fun _ _ hopen => hopen.of_settings hsettings) ?_
        hcanonical.1 hnone (hslot.trans (if_neg hfields'))
      intro m hm
      have hmembers : Json.depthMembers r ≤ Json.maxDepth :=
        (Nat.le_succ _).trans (hdepth.trans (by decide))
      obtain ⟨hi, hc, hd⟩ := Json.members_plain hintegral hcanonical.2 hmembers m hm
      exact Json.read?_toBytes hi hc hd

/-- Profiles as hashes, keyed by name, with a field that is encrypted by itself. -/
def sealedProfiles : Scheme where
  space := "profiles"
  family := .memory
  keySource := .field
  keyField := some "name"
  layout := .hashTable
  encryptedFields := ["mail"]
  space_ne := by decide
  fields_ne := by simp

/-- A profile under a name that is found in it. -/
theorem getRecord_of_putRecord_sealed :
    let r : Record := [("mail", .text "a@b"), ("name", .text "Ada")]
    let s : Store Keyspace :=
      { backend := {}, encryption := some ⟨[1], .mask⟩, identifiers := fun _ => "" }
    let s' := ((Store.putRecord sealedProfiles "" (.object r)).runOn s).2
    s.codec = .json ∧ (∀ e, s.encryption = some e → e.Undoes) ∧ s.clock.Datable ∧
      (Json.object r).Integral ∧ (Json.object r).Canonical ∧ (Json.object r).depth = 1 ∧
      ((Store.putRecord sealedProfiles "" (.object r)).runOn s).1 = .ok ⟨"Ada", "profiles:Ada"⟩ ∧
      (Store.getRecord sealedProfiles "Ada" .any).runOn s' = (.ok (some (.object r)), s') := by
  intro r s s'
  have hcipher : ∀ e, s.encryption = some e → e.Undoes := by
    rintro e ⟨⟩
    exact Encryption.undoes_mask [1]
  have hclock : s.clock.Datable := by decide
  have hintegral : (Json.object r).Integral := ⟨trivial, trivial, trivial⟩
  have hcanonical : (Json.object r).Canonical :=
    ⟨List.pairwise_pair.2 (by decide), trivial, trivial, trivial⟩
  have hlands : ((Store.putRecord sealedProfiles "" (.object r)).runOn s).1 =
      .ok ⟨"Ada", "profiles:Ada"⟩ := by decide +kernel
  exact ⟨rfl, hcipher, hclock, hintegral, hcanonical, rfl, hlands,
    getRecord_of_putRecord rfl hcipher hclock hintegral hcanonical (by decide)
      (Prod.ext hlands rfl)⟩

/-- A hash record without fields lands, and is not there. -/
theorem getRecord_without_fields :
    let s : Store Keyspace := { backend := {}, identifiers := fun _ => "" }
    let scheme : Scheme := { sealedProfiles with encryptedFields := [] }
    let put := (Store.putRecord scheme "p" (.object [])).runOn s
    put.1 = .ok ⟨"p", "profiles:p"⟩ ∧ ((Store.getRecord scheme "p" .any).runOn put.2).1 = .ok none ∧
      put.2.backend.contains 0 "profiles:p" = false := by
  intro s scheme put
  decide +kernel

end SealedStore
