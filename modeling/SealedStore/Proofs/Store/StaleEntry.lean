import SealedStore.Proofs.Store.NewestPut

set_option autoImplicit false

/-!
# Reading through an index

Nothing takes an entry out of a lookup hash when a record is written over or deleted.  So an index
leads to the record that is live under the key of the newest put with the index key, and that record
has the index key as long as its own key was not put again (`getByIndex_of_run`).
-/

namespace SealedStore

/-! ## Keys that are put again -/

/-- The event is a put under that key. -/
def RecordEvent.Writes (key : String) : RecordEvent → Prop
  | .put _ _ landing => landing.key = key
  | .delete _ => False

namespace History

/-- What is live was written by the last event, or was live before it. -/
theorem live?_of_cons {event : RecordEvent} {past : History} {key : String} {r : Record}
    (h : live? (event :: past) key = some r) :
    (∃ scheme landing, event = .put scheme r landing ∧ landing.key = key) ∨
      ¬ event.Writes key ∧ live? past key = some r := by
  cases event with
  | put scheme r' landing =>
    simp only [live?] at h
    split at h
    · rename_i hkey
      cases h
      exact .inl ⟨scheme, landing, rfl, hkey.symm⟩
    · rename_i hkey
      exact .inr ⟨fun hw => hkey hw.symm, h⟩
  | delete keys =>
    simp only [live?] at h
    split at h
    · cases h
    · exact .inr ⟨id, h⟩

/-- What is live was written by the later events, or was live before them. -/
theorem live?_of_append {later past : History} {key : String} {r : Record}
    (h : live? (later ++ past) key = some r) :
    (∃ scheme landing, .put scheme r landing ∈ later ∧ landing.key = key) ∨
      (∀ event ∈ later, ¬ event.Writes key) ∧ live? past key = some r := by
  induction later with
  | nil => exact .inr ⟨fun event hevent => absurd hevent List.not_mem_nil, h⟩
  | cons event later ih =>
    rcases live?_of_cons h with ⟨scheme, landing, rfl, hkey⟩ | ⟨hnot, h⟩
    · exact .inl ⟨scheme, landing, List.mem_cons_self, hkey⟩
    · rcases ih h with ⟨scheme, landing, hmem, hkey⟩ | ⟨hlater, hlive⟩
      · exact .inl ⟨scheme, landing, List.mem_cons_of_mem _ hmem, hkey⟩
      · refine .inr ⟨fun e he => ?_, hlive⟩
        rcases List.mem_cons.1 he with rfl | he
        · exact hnot
        · exact hlater e he

end History

/-! ## Runs with one scheme -/

/-- The stores that are reached from one without keys by puts with one scheme and by deletions of
records; with the history that leads there.  Any key may be put and deleted, those of lookup hashes
too. -/
inductive SchemeRun (scheme : Scheme) : Store Keyspace → History → Prop
  | start {s : Store Keyspace} : s.backend = {} → SchemeRun scheme s []
  | put {s s' : Store Keyspace} {past : History} {key : String} {r : Record} {landing : Landing} :
      SchemeRun scheme s past →
      (Store.putRecord scheme key (.object r)).runOn s = (.ok landing, s') →
      SchemeRun scheme s' (.put scheme r landing :: past)
  | reject {s s' : Store Keyspace} {past : History} {key : String} {j : Json} {e : StoreError} :
      SchemeRun scheme s past → (Store.putRecord scheme key j).runOn s = (.error e, s') →
      SchemeRun scheme s' past
  | delete {s s' : Store Keyspace} {past : History} {h : Handle} {name key : String}
      {given : Option String} {found : Bool} :
      SchemeRun scheme s past → (h.delete name given).runOn s = (.ok found, s') →
      h.fullName name given = scheme.fullName key →
      SchemeRun scheme s' (.delete [key] :: past)
  | deleteMany {s s' : Store Keyspace} {past : History} {h : Handle} {names keys : List String}
      {given : Option String} {n : Nat} :
      SchemeRun scheme s past → (h.deleteMany names given).runOn s = (.ok n, s') →
      names.map (h.fullName · given) = keys.map scheme.fullName →
      SchemeRun scheme s' (.delete keys :: past)
  | clock {s : Store Keyspace} {past : History} (t : Instant) :
      SchemeRun scheme s past → SchemeRun scheme { s with clock := t } past

namespace Store

/-- The keyspace of a store has nothing that the history does not account for: entries are those of
owners, and bytes are those of live records, but for the counter. -/
structure Accounted (scheme : Scheme) (s : Store Keyspace) (past : History) : Prop where
  entries : s.backend.IndexedAtMost scheme.space past.owners
  bodies : ∀ key raw deadline, key ≠ "sequence" →
    s.backend.slots[scheme.fullName key]? = some ⟨.string raw, deadline⟩ →
      ∃ r, past.live? key = some r ∧ s.SealedFor raw r
  landed : ∀ sch r landing, .put sch r landing ∈ past → sch = scheme ∧
    landing.fullName = scheme.fullName landing.key ∧ landing.key ≠ "sequence"

section Accounted

variable {scheme : Scheme} {s s' : Store Keyspace} {past : History}

theorem accounted_start (hs : s.backend = {}) : Accounted scheme s [] where
  entries := by
    rw [hs]
    exact Keyspace.indexedAtMost_empty scheme.space _
  bodies key raw deadline _ hslot := by
    rw [hs] at hslot
    cases hslot
  landed _ _ _ hmem := absurd hmem List.not_mem_nil

/-- Nothing is there but what was there before. -/
theorem Accounted.mono (h : Accounted scheme s past) (hsettings : s'.settings = s.settings)
    (hslots : ∀ (name : String) slot, s'.backend.slots[name]? = some slot →
      name = Namespace.sequenceKey scheme.space ∨ s.backend.slots[name]? = some slot) :
    Accounted scheme s' past := by
  refine ⟨?_, ?_, h.landed⟩
  · intro index fields deadline hslot
    rcases hslots _ _ hslot with hname | hslot
    · exact absurd hname.symm (Namespace.sequenceKey_ne_lookupKey _ index)
    · exact h.entries index fields deadline hslot
  · intro key raw deadline hkey hslot
    rcases hslots _ _ hslot with hname | hslot
    · exact absurd (Namespace.key_injective hname) hkey
    · obtain ⟨r, hlive, hsealed⟩ := h.bodies key raw deadline hkey hslot
      exact ⟨r, hlive, hsealed.of_settings hsettings⟩

theorem Accounted.delete (h : Accounted scheme s past) (keys : List String) (now : Nat) :
    Accounted scheme { s with backend := (s.backend.delete now (keys.map scheme.fullName)).2 }
      (.delete keys :: past) := by
  have hslots : ∀ (name : String) slot,
      (s.backend.delete now (keys.map scheme.fullName)).2.slots[name]? = some slot →
        name ∉ keys.map scheme.fullName ∧ s.backend.slots[name]? = some slot := by
    intro name slot hslot
    rw [Keyspace.slots_delete] at hslot
    split at hslot
    · cases hslot
    · rename_i hname
      exact ⟨hname, hslot⟩
  refine ⟨?_, ?_, ?_⟩
  · exact h.entries.mono fun name fields deadline hslot => (hslots _ _ hslot).2
  · intro key raw deadline hkey hslot
    obtain ⟨hname, hslot⟩ := hslots _ _ hslot
    obtain ⟨r, hlive, hsealed⟩ := h.bodies key raw deadline hkey hslot
    refine ⟨r, ?_, hsealed.of_settings rfl⟩
    have hnot : key ∉ keys := fun hmem => hname (List.mem_map_of_mem hmem)
    simp only [History.live?, if_neg hnot, hlive]
  · intro sch r landing hmem
    rcases List.mem_cons.1 hmem with he | hmem
    · cases he
    · exact h.landed sch r landing hmem

theorem Accounted.put (h : Accounted scheme s past) {r : Record} {landing : Landing}
    (hput : PutPlain scheme r landing s s') {raw : Bytes} {b : Keyspace}
    (hsealed : s.SealedFor raw r)
    (hdrop : b.drop (Namespace.sequenceKey scheme.space) =
      s.backend.drop (Namespace.sequenceKey scheme.space))
    (hcommit : b.commit s.clock.unixMillis (recordCommands scheme r landing.fullName raw) =
      .ok s'.backend) : Accounted scheme s' (.put scheme r landing :: past) := by
  have hb : Accounted scheme { s with backend := b } past := by
    refine h.mono rfl fun name slot hslot => ?_
    by_cases hname : name = Namespace.sequenceKey scheme.space
    · exact .inl hname
    · exact .inr ((Keyspace.slots_of_drop_eq hdrop hname).symm.trans hslot)
  have hset : b.apply s.clock.unixMillis (.set landing.fullName raw none) =
      b.put landing.fullName ⟨.string raw, none⟩ := rfl
  have hrun := Keyspace.commit_ok hcommit
  rw [recordCommands, List.foldl_cons, hset] at hrun
  refine ⟨?_, ?_, ?_⟩
  · rw [← hrun]
    refine Keyspace.IndexedAtMost.claimAll (hb.entries.mono ?_) _ _ _
    intro name fields deadline hslot
    rw [Keyspace.slots_put] at hslot
    split at hslot
    · cases hslot
    · exact hslot
  · intro key raw' deadline hkey hslot
    rw [← hrun] at hslot
    have hbefore := Keyspace.string_of_claimAll hslot
    rw [Keyspace.slots_put, hput.fullName] at hbefore
    simp only [History.live?]
    split at hbefore
    · rename_i hname
      cases hbefore
      rw [if_pos (Namespace.key_injective hname)]
      exact ⟨r, rfl, hsealed.of_settings hput.settings⟩
    · rename_i hname
      rw [if_neg fun he => hname (congrArg scheme.fullName he)]
      obtain ⟨r', hlive, hsealed'⟩ := hb.bodies key raw' deadline hkey hbefore
      exact ⟨r', hlive, hsealed'.of_settings hput.settings⟩
  · intro sch r' landing' hmem
    rcases List.mem_cons.1 hmem with he | hmem
    · cases he
      have hwritable := hput.writable
      rw [hput.fullName] at hwritable
      exact ⟨rfl, hput.fullName, Namespace.ne_sequence_of_writable scheme.space_ne hwritable⟩
    · exact h.landed sch r' landing' hmem

end Accounted

/-- Every store that a run with one scheme reaches is accounted for by its history. -/
theorem accounted_of_run {scheme : Scheme} (hplain : scheme.layout = .plain) {s : Store Keyspace}
    {past : History} (h : SchemeRun scheme s past) : Accounted scheme s past := by
  induction h with
  | start hs => exact accounted_start hs
  | put hrun hput ih =>
    obtain ⟨_, hr, hdone, -⟩ := putRecord_ok hplain hput
    cases hr
    obtain ⟨raw, b, hsealed, hdrop, hcommit⟩ := putRecord_sealed hplain hput
    exact ih.put hdone hsealed hdrop hcommit
  | @reject s s' past key j e hrun hput ih =>
    have hkeeps := keepsOnFailure_putRecord scheme key j s e s' hput
    refine ih.mono (settings_of_besides hkeeps) fun name slot hslot => ?_
    by_cases hname : name = Namespace.sequenceKey scheme.space
    · exact .inl hname
    · exact .inr ((slots_of_besides hkeeps hname).symm.trans hslot)
  | @delete s s' past h name key given found hrun hdelete hname ih =>
    cases hdelete
    rw [hname]
    exact ih.delete [key] s.clock.unixMillis
  | @deleteMany s s' past h names keys given n hrun hdelete hnames ih =>
    cases hdelete
    rw [hnames]
    exact ih.delete keys s.clock.unixMillis
  | clock t hrun ih => exact ih.mono rfl fun name slot hslot => .inr hslot

/-! ## What an index answers -/

/-- A name from which a value of some type was read has bytes that open to it. -/
theorem read_readAs_eq_some {fullName : String} {schema : Schema} {j : Json} {s s' : Store Keyspace}
    (h : (read fullName >>= readAs schema fullName).runOn s = (.ok (some j), s')) :
    ∃ raw v, s.backend.get s.clock.unixMillis fullName = .ok (some raw) ∧
      s.openBytes raw = .ok v ∧ v.read schema = .ok j := by
  obtain ⟨found, mid, hread, h⟩ := Action.runOn_bind_eq_ok.1 h
  have htyped := (Prod.mk.inj h).1
  cases found with
  | none => cases htyped
  | some v =>
    obtain ⟨rfl, raw, hget, hopen⟩ := runOn_read_eq_some.1 hread
    obtain ⟨j', htyped, hj⟩ := Answer.map_eq_ok.1 htyped
    cases hj
    exact ⟨raw, v, hget, hopen, Answer.mapError_eq_ok.1 htyped⟩

/-- A record that was read through an index lies, as bytes, where the index says. -/
theorem getByIndex_eq_some {scheme : Scheme} (hplain : scheme.layout = .plain) {name : String}
    (hname : (scheme.index? name).isSome) {x : String} {schema : Schema} {j : Json}
    {s s' : Store Keyspace} (h : (getByIndex scheme name x schema).runOn s = (.ok (some j), s')) :
    ∃ entry owner raw v,
      s.backend.field s.clock.unixMillis (scheme.lookupKey name) x = .ok (some entry) ∧
      Utf8.decode entry = .ok owner ∧
      s.backend.get s.clock.unixMillis owner = .ok (some raw) ∧ s.openBytes raw = .ok v ∧
      v.read schema = .ok j := by
  unfold getByIndex at h
  obtain ⟨found, mid, hresolve, h⟩ := Action.runOn_bind_eq_ok.1 h
  rw [runOn_resolveIndex hplain hname] at hresolve
  obtain ⟨hanswer, rfl⟩ := Prod.mk.inj hresolve
  obtain ⟨entry, hfield, howner⟩ := Answer.bind_eq_ok.1 hanswer
  cases found with
  | none => cases h
  | some owner =>
    obtain ⟨raw, v, hget, hopen, hread⟩ := read_readAs_eq_some h
    cases entry with
    | none => cases howner
    | some entry =>
      refine ⟨entry, owner, raw, v, hfield, ?_, hget, hopen, hread⟩
      simp only [readOwner] at howner
      cases hdecode : Utf8.decode entry with
      | error fault =>
        rw [hdecode] at howner
        cases howner
      | ok name' =>
        rw [hdecode] at howner
        cases howner
        rfl

end Store

/-- In every run of puts by one scheme whose indexes have distinct names, and of deletions, a record
that is read through an index is the one that is live under the key of the newest put with the index
key.  It is read from the bytes that the store has sealed it as, so a faithful store reads it as it
was put.  The record has the index key exactly if its own key was not put again since. -/
theorem getByIndex_of_run {scheme : Scheme} (hplain : scheme.layout = .plain)
    (hnames : (scheme.indexes.map Index.name).Nodup) {s : Store Keyspace} {past : History}
    (h : SchemeRun scheme s past) {index : Index} (hindex : index ∈ scheme.indexes) {x : String}
    {schema : Schema} {j : Json} {s' : Store Keyspace}
    (hget : (Store.getByIndex scheme index.name x schema).runOn s = (.ok (some j), s')) :
    ∃ later r₀ landing r raw, ∃ v : Value, past.NewestPut index.name x later r₀ landing ∧
      past.live? landing.key = some r ∧
      s.backend.get s.clock.unixMillis landing.fullName = .ok (some raw) ∧ s.SealedFor raw r ∧
      (s.Faithful → v = .structured (.object r)) ∧ v.read schema = .ok j ∧
      (index.presentKey? r = some x ↔ ∀ event ∈ later, ¬ event.Writes landing.key) := by
  have haccounted := Store.accounted_of_run hplain h
  have hknown : (scheme.index? index.name).isSome := List.find?_isSome.2 ⟨index, hindex, by simp⟩
  obtain ⟨entry, owner, raw, v, hfield, hdecode, hbytes, hopen, hread⟩ :=
    Store.getByIndex_eq_some hplain hknown hget
  -- The entry is that of the newest put.
  obtain ⟨found, howner, hentry⟩ :=
    Option.map_eq_some_iff.1 (haccounted.entries.owner hfield)
  rw [← hentry, Utf8.decode_encode] at hdecode
  obtain rfl : found = owner := Except.ok.inj hdecode
  obtain ⟨later, r₀, landing, hnewest, rfl⟩ := History.owners_eq_some_iff.1 howner
  obtain ⟨sch, earlier, rfl, hkey, hlater⟩ := hnewest
  obtain ⟨rfl, hname, hcounter⟩ := haccounted.landed sch r₀ landing (by simp)
  -- The bytes under its key are those of the live record.
  obtain ⟨deadline, hslot⟩ := Keyspace.get_eq_some.1 hbytes
  rw [hname] at hslot
  obtain ⟨r, hlive, hsealed⟩ := haccounted.bodies landing.key raw deadline hcounter
    (Option.eq_some_of_filter_eq_some hslot)
  refine ⟨later, r₀, landing, r, raw, v, ⟨sch, earlier, rfl, hkey, hlater⟩, hlive, hbytes,
    hsealed, ?_, hread, ?_⟩
  · intro hs
    exact Except.ok.inj (hopen.symm.trans (hsealed.opensTo hs))
  · rcases History.live?_of_append hlive with ⟨sch', landing', hmem, hsame⟩ | ⟨hnone, hfirst⟩
    · obtain ⟨rfl, -, -⟩ := haccounted.landed sch' r landing' (List.mem_append_left _ hmem)
      constructor
      · intro hx
        exact absurd ⟨index, hindex, rfl, hx⟩ (hlater _ hmem)
      · intro hnone
        exact absurd hsame (hnone _ hmem)
    · have hr : r₀ = r := by simpa [History.live?] using hfirst
      obtain ⟨other, hother, hsame, hx⟩ := hkey
      obtain rfl : other = index := List.inj_on_of_nodup_map hnames hother hindex hsame
      rw [← hr]
      exact ⟨fun _ => hnone, fun _ => hx⟩

/-- The user of `mailUser` with another address. -/
def movedUser : Record := [("mail", .text "c@d")]

/-- A store with a user whose address has changed. -/
def movedUsers : Store Keyspace :=
  let put r := (Store.putRecord (numberedUsers false) "u1" (.object r) : Action (Store Keyspace) _)
  ((put movedUser).runOn ((put mailUser).runOn noUsers).2).2

theorem schemeRun_movedUsers : SchemeRun (numberedUsers false) movedUsers
    [.put (numberedUsers false) movedUser ⟨"u1", "users:u1"⟩,
      .put (numberedUsers false) mailUser ⟨"u1", "users:u1"⟩] := by
  let put r := (Store.putRecord (numberedUsers false) "u1" (.object r) : Action (Store Keyspace) _)
  have hlands : (put mailUser).runOn noUsers =
      (.ok ⟨"u1", "users:u1"⟩, ((put mailUser).runOn noUsers).2) := by rfl
  have hrewrites : (put movedUser).runOn ((put mailUser).runOn noUsers).2 =
      (.ok ⟨"u1", "users:u1"⟩, movedUsers) := by rfl
  exact .put (.put (.start rfl) hlands) hrewrites

theorem getByIndex_movedUsers :
    ((Store.getByIndex (numberedUsers false) "mail" "a@b" .any).runOn movedUsers).1 =
      .ok (some (.object movedUser)) := by decide +kernel

/-- The old address leads to a record with another address, since its key was put again. -/
theorem getByIndex_of_run_rewritten :
    let past : History := [.put (numberedUsers false) movedUser ⟨"u1", "users:u1"⟩,
      .put (numberedUsers false) mailUser ⟨"u1", "users:u1"⟩]
    let index : Index := ⟨"mail", ["mail"], false⟩
    (numberedUsers false).layout = .plain ∧
      ((numberedUsers false).indexes.map Index.name).Nodup ∧
      SchemeRun (numberedUsers false) movedUsers past ∧ index ∈ (numberedUsers false).indexes ∧
      ∃ later r₀ landing r, past.NewestPut "mail" "a@b" later r₀ landing ∧
        past.live? landing.key = some r ∧
        (index.presentKey? r = some "a@b" ↔ ∀ event ∈ later, ¬ event.Writes landing.key) := by
  intro past index
  have hplain : (numberedUsers false).layout = .plain := rfl
  have hnames : ((numberedUsers false).indexes.map Index.name).Nodup := List.nodup_singleton _
  have hindex : index ∈ (numberedUsers false).indexes := List.mem_singleton_self index
  obtain ⟨later, r₀, landing, r, -, -, hnewest, hlive, -, -, -, -, hkey⟩ :=
    getByIndex_of_run hplain hnames schemeRun_movedUsers hindex
      (Prod.ext getByIndex_movedUsers rfl)
  exact ⟨hplain, hnames, schemeRun_movedUsers, hindex, later, r₀, landing, r, hnewest, hlive, hkey⟩

/-- A record that is read through an index need not have the index key. -/
theorem getByIndex_other_key :
    ¬ ∀ (scheme : Scheme) (s : Store Keyspace) (past : History) (index : Index) (x : String)
        (r : Record), scheme.layout = .plain → (scheme.indexes.map Index.name).Nodup →
      SchemeRun scheme s past → index ∈ scheme.indexes →
      ((Store.getByIndex scheme index.name x .any).runOn s).1 = .ok (some (.object r)) →
      index.presentKey? r = some x := by
  intro h
  have hkey := h (numberedUsers false) movedUsers _ ⟨"mail", ["mail"], false⟩ "a@b" movedUser rfl
    (List.nodup_singleton _) schemeRun_movedUsers (List.mem_singleton_self _) getByIndex_movedUsers
  have hmoved : Index.presentKey? ⟨"mail", ["mail"], false⟩ movedUser = some "c@d" := by decide
  rw [hmoved] at hkey
  exact absurd hkey (by decide)

end SealedStore
