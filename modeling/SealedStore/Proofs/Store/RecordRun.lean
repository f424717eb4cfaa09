import SealedStore.Proofs.Store.RecordPut

set_option autoImplicit false

/-!
# Runs of puts and deletions of records

A run puts records of plain layout in one namespace and deletes some, and its history tells which
puts succeeded and what was deleted.  The history determines the records that are live and the owner
of every index key, and the keyspace of the store agrees with it (`tracks_of_run`).
-/

namespace SealedStore

/-! ## Histories -/

/-- What happened to the records of a namespace. -/
inductive RecordEvent
  /-- A record was put by a scheme, and landed. -/
  | put (scheme : Scheme) (r : Record) (landing : Landing)
  /-- Keys were deleted. -/
  | delete (keys : List String)

/-- The events of a run, the newest first. -/
abbrev History := List RecordEvent

namespace History

/-- The record that is live under a key: the one put last, unless it was deleted since. -/
def live? : History → String → Option Record
  | [], _ => none
  | .put _ r landing :: past, key => if key = landing.key then some r else live? past key
  | .delete keys :: past, key => if key ∈ keys then none else live? past key

/-- The owner of each key of each index: the record that was put last with that key. -/
def owners : History → Owners
  | [] => fun _ _ => none
  | .put scheme r landing :: past => (owners past).claim (scheme.claims r) landing.fullName
  | .delete _ :: past => owners past

/-- A record that is live was put. -/
theorem exists_put_of_live? {past : History} {key : String} {r : Record}
    (h : live? past key = some r) :
    ∃ scheme landing, .put scheme r landing ∈ past ∧ landing.key = key := by
  induction past with
  | nil => cases h
  | cons event past ih =>
    cases event with
    | put scheme r' landing =>
      simp only [live?] at h
      split at h
      · rename_i hkey
        cases h
        exact ⟨scheme, landing, List.mem_cons_self, hkey.symm⟩
      · obtain ⟨scheme', landing', hmem, hkey⟩ := ih h
        exact ⟨scheme', landing', List.mem_cons_of_mem _ hmem, hkey⟩
    | delete keys =>
      simp only [live?] at h
      split at h
      · cases h
      · obtain ⟨scheme', landing', hmem, hkey⟩ := ih h
        exact ⟨scheme', landing', List.mem_cons_of_mem _ hmem, hkey⟩

end History

/-! ## Runs -/

/-- The stores that are reached from one without keys, by puts of records in a namespace with
schemes that are allowed, and by deletions of records; with the history that leads there.  No key
that is put or deleted is one of those that lookup hashes have. -/
inductive RecordRun (space : String) (allowed : Scheme → Prop) : Store Keyspace → History → Prop
  | start {s : Store Keyspace} : s.backend = {} → RecordRun space allowed s []
  | put {s s' : Store Keyspace} {past : History} {scheme : Scheme} {key : String} {r : Record}
      {landing : Landing} :
      RecordRun space allowed s past → allowed scheme →
      (Store.putRecord scheme key (.object r)).runOn s = (.ok landing, s') →
      Namespace.isLookup landing.key = false →
      RecordRun space allowed s' (.put scheme r landing :: past)
  | reject {s s' : Store Keyspace} {past : History} {scheme : Scheme} {key : String} {j : Json}
      {e : StoreError} :
      RecordRun space allowed s past → allowed scheme →
      (Store.putRecord scheme key j).runOn s = (.error e, s') →
      RecordRun space allowed s' past
  | delete {s s' : Store Keyspace} {past : History} {h : Handle} {name key : String}
      {given : Option String} {found : Bool} :
      RecordRun space allowed s past →
      (h.delete name given).runOn s = (.ok found, s') →
      h.fullName name given = Namespace.key space key → Namespace.isLookup key = false →
      RecordRun space allowed s' (.delete [key] :: past)
  | deleteMany {s s' : Store Keyspace} {past : History} {h : Handle} {names keys : List String}
      {given : Option String} {n : Nat} :
      RecordRun space allowed s past →
      (h.deleteMany names given).runOn s = (.ok n, s') →
      names.map (h.fullName · given) = keys.map (Namespace.key space) →
      (∀ key ∈ keys, Namespace.isLookup key = false) →
      RecordRun space allowed s' (.delete keys :: past)
  | clock {s : Store Keyspace} {past : History} (t : Instant) :
      RecordRun space allowed s past → RecordRun space allowed { s with clock := t } past

/-- Schemes of plain layout in a namespace. -/
def Scheme.PlainIn (space : String) (scheme : Scheme) : Prop :=
  scheme.space = space ∧ scheme.layout = .plain

namespace Store

/-! ## Stores that agree with a history -/

/-- What holds of a put that succeeded, also later. -/
structure Placed (allowed : Scheme → Prop) (s : Store Keyspace) (scheme : Scheme)
    (landing : Landing) : Prop where
  allowed : allowed scheme
  applicable : ((checkScheme scheme).runOn s).1 = .ok ()
  fullName : landing.fullName = scheme.fullName landing.key
  writable : Namespace.isCounter landing.fullName = false
  outside : Namespace.isLookup landing.key = false
  nonempty : (∀ n, s.identifiers n ≠ "") → landing.key ≠ ""

theorem Placed.of_settings {allowed : Scheme → Prop} {s t : Store Keyspace} {scheme : Scheme}
    {landing : Landing} (h : Placed allowed s scheme landing) (ht : t.settings = s.settings) :
    Placed allowed t scheme landing := by
  have hencryption : t.encryption = s.encryption := (congrArg Store.encryption ht :)
  have hidentifiers : t.identifiers = s.identifiers := (congrArg Store.identifiers ht :)
  have hchecks : ((checkScheme scheme).runOn t).1 = ((checkScheme scheme).runOn s).1 := by
    simp only [checkScheme, isEncrypted, Action.runOn_query, hencryption]
    rfl
  exact {
    allowed := h.allowed
    applicable := hchecks.trans h.applicable
    fullName := h.fullName
    writable := h.writable
    outside := h.outside
    nonempty := by
      rw [hidentifiers]
      exact h.nonempty }

/-- The keyspace of a store agrees with a history: the lookup hashes hold the owners, the bytes of
every live record are in place, and nothing else is there but the counter. -/
structure Tracks (space : String) (allowed : Scheme → Prop) (s : Store Keyspace) (past : History) :
    Prop where
  indexed : s.backend.Indexed space past.owners
  placed : ∀ scheme r landing, .put scheme r landing ∈ past → Placed allowed s scheme landing
  absent : ∀ key, Namespace.isLookup key = false → key ≠ "sequence" → past.live? key = none →
    s.backend.slots[Namespace.key space key]? = none
  stored : ∀ key r, past.live? key = some r → ∃ raw,
    s.backend.slots[Namespace.key space key]? = some ⟨.string raw, none⟩ ∧ s.OpensTo raw r

section Tracks

variable {space : String} {allowed : Scheme → Prop} {s s' : Store Keyspace} {past : History}

/-- The key of a live record is that of neither a lookup hash nor the counter. -/
theorem Tracks.key_of_live? (h : Tracks space allowed s past)
    (hallowed : ∀ scheme, allowed scheme → scheme.PlainIn space) {key : String} {r : Record}
    (hlive : past.live? key = some r) :
    Namespace.isLookup key = false ∧ Namespace.isCounter (Namespace.key space key) = false ∧
      key ≠ "sequence" := by
  obtain ⟨scheme, landing, hmem, rfl⟩ := History.exists_put_of_live? hlive
  have hplaced := h.placed scheme r landing hmem
  obtain ⟨rfl, -⟩ := hallowed scheme hplaced.allowed
  have hwritable := hplaced.writable
  rw [hplaced.fullName] at hwritable
  exact ⟨hplaced.outside, hwritable, Namespace.ne_sequence_of_writable scheme.space_ne hwritable⟩

theorem tracks_start (hs : s.backend = {}) : Tracks space allowed s [] where
  indexed := by
    rw [hs]
    exact Keyspace.indexed_empty space
  placed _ _ _ hmem := absurd hmem List.not_mem_nil
  absent key _ _ _ := by
    rw [hs]
    rfl
  stored _ _ hlive := nomatch hlive

/-- Changes of the counter do not count. -/
theorem Tracks.of_besides (h : Tracks space allowed s past)
    (hallowed : ∀ scheme, allowed scheme → scheme.PlainIn space)
    (hs : s'.besides (Namespace.sequenceKey space) = s.besides (Namespace.sequenceKey space)) :
    Tracks space allowed s' past := by
  have hsettings := settings_of_besides hs
  have hslots : ∀ key, key ≠ "sequence" → s'.backend.slots[Namespace.key space key]? =
      s.backend.slots[Namespace.key space key]? := by
    intro key hkey
    exact slots_of_besides hs fun he => hkey (Namespace.key_injective he)
  refine ⟨?_, ?_, ?_, ?_⟩
  · refine h.indexed.congr fun index => ?_
    exact slots_of_besides hs (Namespace.sequenceKey_ne_lookupKey space index).symm
  · intro scheme r landing hmem
    exact (h.placed scheme r landing hmem).of_settings hsettings
  · intro key hout hkey hlive
    rw [hslots key hkey]
    exact h.absent key hout hkey hlive
  · intro key r hlive
    obtain ⟨-, -, hkey⟩ := h.key_of_live? hallowed hlive
    obtain ⟨raw, hslot, hopen⟩ := h.stored key r hlive
    exact ⟨raw, (hslots key hkey).trans hslot, hopen.of_settings hsettings⟩

theorem Tracks.later (h : Tracks space allowed s past) (t : Instant) :
    Tracks space allowed { s with clock := t } past where
  indexed := h.indexed
  placed scheme r landing hmem := (h.placed scheme r landing hmem).of_settings rfl
  absent := h.absent
  stored key r hlive := by
    obtain ⟨raw, hslot, hopen⟩ := h.stored key r hlive
    exact ⟨raw, hslot, hopen.of_settings rfl⟩

/-- Deleting keys of records. -/
theorem Tracks.delete (h : Tracks space allowed s past) {keys : List String}
    (hkeys : ∀ key ∈ keys, Namespace.isLookup key = false) (now : Nat) :
    Tracks space allowed
      { s with backend := (s.backend.delete now (keys.map (Namespace.key space))).2 }
      (.delete keys :: past) := by
  have hmem : ∀ key, Namespace.key space key ∈ keys.map (Namespace.key space) ↔ key ∈ keys := by
    intro key
    constructor
    · intro hk
      obtain ⟨k, hk, he⟩ := List.mem_map.1 hk
      rw [← Namespace.key_injective he]
      exact hk
    · exact List.mem_map_of_mem
  refine ⟨h.indexed.delete hkeys now, ?_, ?_, ?_⟩
  · intro scheme r landing hput
    obtain hput | hput := List.mem_cons.1 hput
    · cases hput
    · exact (h.placed scheme r landing hput).of_settings rfl
  · intro key hout hkey hlive
    rw [Keyspace.slots_delete]
    by_cases hk : key ∈ keys
    · rw [if_pos ((hmem key).2 hk)]
    · simp only [History.live?, if_neg hk] at hlive
      rw [if_neg fun he => hk ((hmem key).1 he)]
      exact h.absent key hout hkey hlive
  · intro key r hlive
    simp only [History.live?] at hlive
    split at hlive
    · cases hlive
    · rename_i hk
      obtain ⟨raw, hslot, hopen⟩ := h.stored key r hlive
      refine ⟨raw, ?_, hopen.of_settings rfl⟩
      rw [Keyspace.slots_delete, if_neg fun he => hk ((hmem key).1 he)]
      exact hslot

theorem Tracks.put (h : Tracks space allowed s past)
    (hallowed : ∀ scheme, allowed scheme → scheme.PlainIn space) {scheme : Scheme} {r : Record}
    {landing : Landing} (hscheme : allowed scheme) (hout : Namespace.isLookup landing.key = false)
    (hnonempty : (∀ n, s.identifiers n ≠ "") → landing.key ≠ "")
    (hput : PutPlain scheme r landing s s') :
    Tracks space allowed s' (.put scheme r landing :: past) := by
  obtain ⟨rfl, -⟩ := hallowed scheme hscheme
  obtain ⟨raw, b, hopen, hdrop, hcommit⟩ := hput.committed
  have hsettings := hput.settings
  have hslots : ∀ name, name ≠ Namespace.sequenceKey scheme.space →
      b.slots[name]? = s.backend.slots[name]? := fun _ => Keyspace.slots_of_drop_eq hdrop
  have hindexed : b.Indexed scheme.space past.owners :=
    h.indexed.congr fun index => hslots _ (Namespace.sequenceKey_ne_lookupKey _ index).symm
  obtain ⟨hindexed', hslots'⟩ := slots_of_commit hindexed hput.fullName hout hcommit
  refine ⟨hindexed', ?_, ?_, ?_⟩
  · intro scheme' r' landing' hmem
    obtain hmem | hmem := List.mem_cons.1 hmem
    · cases hmem
      refine Placed.of_settings ?_ hsettings
      exact ⟨hscheme, hput.applicable, hput.fullName, hput.writable, hout, hnonempty⟩
    · exact (h.placed scheme' r' landing' hmem).of_settings hsettings
  · intro key hk hne hlive
    simp only [History.live?] at hlive
    split at hlive
    · cases hlive
    · rename_i hkey
      rw [hslots' key hk, if_neg hkey, hslots _ fun he => hne (Namespace.key_injective he)]
      exact h.absent key hk hne hlive
  · intro key r' hlive
    simp only [History.live?] at hlive
    split at hlive
    · rename_i hkey
      cases hlive
      subst hkey
      exact ⟨raw, (hslots' _ hout).trans (if_pos rfl), hopen.of_settings hsettings⟩
    · rename_i hkey
      obtain ⟨hk, -, hne⟩ := h.key_of_live? hallowed hlive
      obtain ⟨raw', hslot, hopen'⟩ := h.stored key r' hlive
      refine ⟨raw', ?_, hopen'.of_settings hsettings⟩
      rw [hslots' key hk, if_neg hkey, hslots _ fun he => hne (Namespace.key_injective he)]
      exact hslot

end Tracks

/-- Every store that a run reaches agrees with the history of the run. -/
theorem tracks_of_run {space : String} {allowed : Scheme → Prop}
    (hallowed : ∀ scheme, allowed scheme → scheme.PlainIn space) {s : Store Keyspace}
    {past : History} (h : RecordRun space allowed s past) : Tracks space allowed s past := by
  induction h with
  | start hs => exact tracks_start hs
  | put hrun hscheme hput hout ih =>
    obtain ⟨_, hr, hdone, -, hnonempty⟩ := putRecord_ok (hallowed _ hscheme).2 hput
    cases hr
    exact ih.put hallowed hscheme hout hnonempty hdone
  | @reject s s' past scheme key j e hrun hscheme hput ih =>
    have hkeeps := keepsOnFailure_putRecord scheme key j s e s' hput
    rw [(hallowed scheme hscheme).1] at hkeeps
    exact ih.of_besides hallowed hkeeps
  | @delete s s' past h name key given found hrun hdelete hname hout ih =>
    cases hdelete
    rw [hname]
    have hkeys : ∀ k ∈ [key], Namespace.isLookup k = false := by simpa using hout
    exact ih.delete hkeys s.clock.unixMillis
  | @deleteMany s s' past h names keys given n hrun hdelete hname hout ih =>
    cases hdelete
    rw [hname]
    exact ih.delete hout s.clock.unixMillis
  | clock t hrun ih => exact ih.later t

end Store

end SealedStore
