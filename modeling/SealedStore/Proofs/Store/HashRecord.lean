import SealedStore.Proofs.Store.RecordReadBack

set_option autoImplicit false

/-!
# A hash record replaces what was there

A put in the layout of a hash removes whatever lay under the name of the record and writes the
fields of the record, all in one commit.  Main statement: whatever the store held, the hash has the
fields of the record and no others, no deadline is left, and nothing else has changed but the
counter that was asked for the key (`putRecord_replaces`).
-/

namespace SealedStore

namespace Store

/-! ## The fields of a record -/

/-- Bytes stand for a member of a hash record: they are its JSON text or, where the scheme encrypts
it, what the cipher of the store returned for that text. -/
def Seals (s : Store Keyspace) (scheme : Scheme) (member : String × Json) (data : Bytes) : Prop :=
  if scheme.encrypts member.1 then
    ∃ e, s.encryption = some e ∧
      ∃ call, e.cipher.encrypt call e.key member.2.toBytes true = .ok data
  else data = member.2.toBytes

/-- What a put of a hash record leaves behind: the record under its name, and all else as it was. -/
structure Replaces (scheme : Scheme) (key : String) (r : Record) (landing : Landing)
    (s s' : Store Keyspace) : Prop where
  /-- The record lies under a key of its namespace, which is the given one if there was one. -/
  landed : landing.fullName = scheme.fullName landing.key ∧ (key ≠ "" → landing.key = key)
  /-- At all times the hash reads as the members of the record, and no others. -/
  fields : ∃ fields : Fields, (∀ now, s'.backend.fields now landing.fullName = .ok fields) ∧
    (∀ name, name ∈ fields ↔ name ∈ r.map Prod.fst) ∧
    ∀ name data, fields[name]? = some data → ∃ j, (name, j) ∈ r ∧ s.Seals scheme (name, j) data
  /-- The hash does not expire.  A record without members leaves nothing. -/
  lifetime : ∀ now, s'.backend.lifetime now landing.fullName =
    if r = [] then .missing else .persistent
  /-- No lookup hash is written, whatever indexes the scheme has. -/
  lookups : ∀ index, scheme.lookupKey index ≠ landing.fullName →
    s'.backend.slots[scheme.lookupKey index]? = s.backend.slots[scheme.lookupKey index]?
  /-- Nothing else changes but the counter, if it was asked for the key. -/
  others : ∀ name, name ≠ landing.fullName →
    (key = "" ∧ scheme.keySource = .sequence → name ≠ Namespace.sequenceKey scheme.space) →
      s'.backend.slots[name]? = s.backend.slots[name]?

section Fields

variable {s s' t : Store Keyspace} {scheme : Scheme} {fullName : String} {r : Record}

theorem Seals.of_settings {member : String × Json} {data : Bytes}
    (h : t.Seals scheme member data) (ht : t.settings = s.settings) :
    s.Seals scheme member data := by
  have hencryption : t.encryption = s.encryption := (congrArg Store.encryption ht :)
  unfold Seals at h ⊢
  rw [hencryption] at h
  exact h

/-- A scheme that encrypts fields is only applied in a store that encrypts. -/
theorem sealField_seals {member : String × Json} {field : String × Bytes}
    (hcipher : scheme.encryptedFields ≠ [] → s.isEncrypted = true)
    (hrun : (sealField scheme fullName member).runOn s = (.ok field, s')) :
    field.1 = member.1 ∧ s.Seals scheme member field.2 := by
  obtain ⟨hname, hdata⟩ := sealField_cases hrun
  refine ⟨hname, ?_⟩
  unfold Seals
  split
  · rename_i hencrypts
    rw [if_pos hencrypts] at hdata
    have hsome : scheme.encryptedFields ≠ [] :=
      List.ne_nil_of_mem (List.contains_iff_mem.1 hencrypts)
    obtain ⟨e, he⟩ := Option.isSome_iff_exists.1 (hcipher hsome)
    exact ⟨e, he, encrypt_ok he hdata⟩
  · rename_i hencrypts
    rwa [if_neg hencrypts] at hdata

theorem sealFields_seal {fields : List (String × Bytes)}
    (hcipher : scheme.encryptedFields ≠ [] → s.isEncrypted = true)
    (hrun : (r.mapM (sealField scheme fullName)).runOn s = (.ok fields, s')) :
    List.Forall₂ (fun member field => field.1 = member.1 ∧ s.Seals scheme member field.2) r
      fields := by
  refine Action.forall₂_of_mapM (keeps_sealField scheme fullName) ?_ hrun
  intro member u u' field hu hseal
  have hsettings : u.settings = s.settings := settings_of_uncounted hu
  have hu : u.isEncrypted = s.isEncrypted := (congrArg isEncrypted hsettings :)
  obtain ⟨hname, hdata⟩ := sealField_seals (hu ▸ hcipher) hseal
  exact ⟨hname, hdata.of_settings hsettings⟩

/-- A hash that was begun with fields that stand for the members of a record has the names of the
record, and each of its fields stands for a member. -/
theorem members_of_forall₂ {fields : List (String × Bytes)}
    (hfields : List.Forall₂ (fun member field => field.1 = member.1 ∧ s.Seals scheme member field.2)
      r fields) :
    (∀ name, name ∈ (Std.ExtTreeMap.insertMany ∅ fields : Fields) ↔ name ∈ r.map Prod.fst) ∧
      ∀ name data, (Std.ExtTreeMap.insertMany ∅ fields : Fields)[name]? = some data →
        ∃ j, (name, j) ∈ r ∧ s.Seals scheme (name, j) data := by
  constructor
  · intro name
    have hnames : r.map Prod.fst = fields.map Prod.fst :=
      names_eq_of_forall₂ (hfields.imp fun _ _ hseals => hseals.1)
    rw [Std.ExtTreeMap.mem_insertMany_list, ← hnames, List.contains_iff_mem]
    simp
  · intro name data hdata
    rcases Keyspace.mem_of_insertMany hdata with hmem | hold
    · obtain ⟨⟨x, j⟩, hmember, hname, hseals⟩ := (Action.exists_of_forall₂ hfields).2 _ hmem
      obtain rfl : name = x := hname
      exact ⟨j, hmember, hseals⟩
    · cases hold

end Fields

/-! ## The put -/

section Put

variable {s s' : Store Keyspace} {scheme : Scheme} {key : String} {r : Record} {landing : Landing}

/-- A put touches the name of its record, the lookup entries that it writes and, for a key that is
left to it, the counter. -/
theorem Lands.slots_of_ne (h : Lands scheme key r landing s s') {name : String}
    (hname : name ≠ landing.fullName) (hentries : ∀ e ∈ scheme.written r, name ≠ e.1)
    (hcounter : key = "" ∧ scheme.keySource = .sequence →
      name ≠ Namespace.sequenceKey scheme.space) :
    s'.backend.slots[name]? = s.backend.slots[name]? := by
  obtain ⟨t, mid, tx, -, -, hstage, hcommit⟩ := h.committed
  have hkeys : ∀ c ∈ tx, name ≠ c.key := by
    intro c hc
    rcases command_of_stage hstage hc with hkey | ⟨e, he, rfl⟩
    · exact hkey ▸ hname
    · exact hentries e he
  rw [← Keyspace.commit_ok hcommit, Keyspace.slots_foldl_of_ne _ _ hkeys]
  have hdrawn := h.drawn
  split at hdrawn
  · rename_i hopen
    exact slots_counted_of_ne (hcounter hopen)
  · unfold counted
    rw [hdrawn]

theorem Lands.replaces (h : Lands scheme key r landing s s') (hlayout : scheme.layout = .hashTable)
    (hcipher : scheme.encryptedFields ≠ [] → s.isEncrypted = true)
    (hkey : key ≠ "" → landing.key = key) : Replaces scheme key r landing s s' := by
  obtain ⟨t, mid, tx, ht, -, hstage, hcommit⟩ := h.committed
  obtain ⟨fields, hsealed, rfl⟩ := stage_fields hlayout hstage
  have hencrypted : t.isEncrypted = s.isEncrypted := (congrArg isEncrypted ht :)
  have hfields := (sealFields_seal (hencrypted ▸ hcipher) hsealed).imp
    fun _ _ hseals => And.imp_right (Seals.of_settings · ht) hseals
  have hempty : fields = [] ↔ r = [] := by
    rw [← List.length_eq_zero_iff, ← hfields.length_eq, List.length_eq_zero_iff]
  -- In this layout no entries are written, so the name and the counter are all that can change.
  have hothers : ∀ name, name ≠ landing.fullName →
      (key = "" ∧ scheme.keySource = .sequence → name ≠ Namespace.sequenceKey scheme.space) →
        s'.backend.slots[name]? = s.backend.slots[name]? := by
    intro name hname hcounter
    refine h.slots_of_ne hname ?_ hcounter
    simp [Scheme.written, hlayout]
  exact {
    landed := ⟨h.fullName, hkey⟩
    fields := ⟨_, Keyspace.fields_of_commit_fields hcommit, members_of_forall₂ hfields⟩
    lifetime := fun now => by
      rw [Keyspace.lifetime_of_commit_fields hcommit now]
      simp only [hempty]
    lookups := fun index hname => hothers _ hname fun _ =>
      (Namespace.sequenceKey_ne_lookupKey scheme.space index).symm
    others := hothers }

end Put

end Store

open Store in
/-- Whatever a store holds, under the name of the record and elsewhere, a put in the layout of a
hash that succeeds leaves the hash of the record there: its names, for each the JSON text of the
value or a ciphertext of that text, no older field and no deadline.  All else is as it was, lookup
hashes included, but for the counter if the key was left to it. -/
theorem putRecord_replaces {h : Handle} {scheme : Scheme} (hlayout : scheme.layout = .hashTable)
    {key : String} {j : Json} {space : Option String} {s s' : Store Keyspace} {landing : Landing}
    (hrun : (h.putRecord key j (some scheme) space).runOn s = (.ok landing, s')) :
    ∃ r, j = .object r ∧ Replaces scheme key r landing s s' := by
  replace hrun : (putRecord scheme key j).runOn s = (.ok landing, s') := hrun
  obtain ⟨r, rfl, hlands⟩ := putRecord_lands hrun
  obtain ⟨-, -, -, -, -, -, happlicable, -⟩ := putRecord_stages hrun
  obtain ⟨-, -, hcipher⟩ := runOn_checkScheme_eq_ok.1 happlicable
  exact ⟨r, rfl, hlands.replaces hlayout hcipher (key_of_putRecord hrun)⟩

/-- A profile, one field of it encrypted, replaces an older one that was about to expire. -/
theorem putRecord_replaces_expiring :
    let r : Record := [("mail", .text "a@b"), ("name", .text "Ada")]
    let older : Slot := ⟨.hash (.ofList [("phone", ([49] : Bytes))]), some 5⟩
    let s : Store Keyspace :=
      { backend := ({} : Keyspace).put "profiles:Ada" older
        encryption := some ⟨[1], .mask⟩
        identifiers := fun _ => "" }
    let put := (({} : Handle).putRecord "" (.object r) (some sealedProfiles) none).runOn s
    sealedProfiles.layout = .hashTable ∧
      s.backend.lifetime s.clock.unixMillis "profiles:Ada" = .seconds 1 ∧
      put.1 = .ok ⟨"Ada", "profiles:Ada"⟩ ∧
      Store.Replaces sealedProfiles "" r ⟨"Ada", "profiles:Ada"⟩ s put.2 := by
  intro r older s put
  have hput : put.1 = .ok ⟨"Ada", "profiles:Ada"⟩ := by decide +kernel
  obtain ⟨_, hr, hreplaces⟩ :=
    putRecord_replaces (rfl : sealedProfiles.layout = .hashTable) (Prod.ext hput rfl : put = _)
  cases hr
  exact ⟨rfl, by decide +kernel, hput, hreplaces⟩

end SealedStore
