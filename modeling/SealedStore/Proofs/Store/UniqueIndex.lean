import SealedStore.Proofs.Store.RecordRun

set_option autoImplicit false

/-!
# Indexes that are not shared stay unique

The check of a put reads lookup hashes, not records, and entries of records that were deleted or
changed stay behind.  What makes it enough: every key of a live record in an index that is not
shared is owned by that record (`owned_of_run`).
-/

namespace SealedStore

namespace History

/-- The keys of every live record in the indexes that are not shared are owned by the record. -/
def Owned (scheme : Scheme) (past : History) : Prop :=
  ∀ key r, past.live? key = some r → ∀ index ∈ scheme.indexes, index.shared = false →
    ∀ x, index.presentKey? r = some x → past.owners index.name x = some (scheme.fullName key)

variable {scheme : Scheme} {past : History}

theorem Owned.delete (h : Owned scheme past) (keys : List String) :
    Owned scheme (.delete keys :: past) := by
  intro key r hlive
  simp only [live?] at hlive
  split at hlive
  · cases hlive
  · exact h key r hlive

/-- A put takes keys over from nobody: those that it claims were free, or its own. -/
theorem Owned.put (h : Owned scheme past) (hnames : (scheme.indexes.map Index.name).Nodup)
    {r : Record} {landing : Landing} (hname : landing.fullName = scheme.fullName landing.key)
    (hfree : ∀ index ∈ scheme.indexes, index.shared = false → ∀ x, index.presentKey? r = some x →
      past.owners index.name x = none ∨ past.owners index.name x = some landing.fullName) :
    Owned scheme (.put scheme r landing :: past) := by
  intro key r' hlive index hindex hshared x hx
  simp only [live?] at hlive
  simp only [owners, Owners.claim]
  split at hlive
  · rename_i hkey
    cases hlive
    rw [if_pos (Scheme.mem_claims.2 ⟨index, hindex, rfl, hx⟩), hname, hkey]
  · rename_i hkey
    have howner := h key r' hlive index hindex hshared x hx
    rw [if_neg]
    · exact howner
    · intro hclaimed
      obtain ⟨other, hother, hsame, hx'⟩ := Scheme.mem_claims.1 hclaimed
      -- Names are distinct, so the put has claimed the key in the very same index.
      obtain rfl : other = index := List.inj_on_of_nodup_map hnames hother hindex hsame
      rcases hfree other hother hshared x hx' with hnone | hself
      · rw [hnone] at howner
        cases howner
      · rw [hself, hname] at howner
        exact hkey (Namespace.key_injective (Option.some.inj howner)).symm

end History

namespace Store

variable {space : String} {allowed : Scheme → Prop} {s : Store Keyspace} {past : History}

/-- What the check of a put finds out about the owners. -/
theorem owners_of_mayClaim (h : Tracks space allowed s past) {scheme : Scheme}
    (hspace : scheme.space = space) {r : Record} {fullName : String}
    (hmay : s.MayClaim scheme r (some fullName)) {index : Index} (hindex : index ∈ scheme.indexes)
    (hshared : index.shared = false) {x : String} (hx : index.presentKey? r = some x) :
    past.owners index.name x = none ∨ past.owners index.name x = some fullName := by
  subst hspace
  have hfield := h.indexed.field s.clock.unixMillis index.name x
  rcases hmay index hindex hshared x hx with hfree | ⟨name, hname, howner⟩
  · have hnone := Except.ok.inj (hfield.symm.trans hfree)
    exact .inl (Option.map_eq_none_iff.1 hnone)
  · have hsome := Except.ok.inj (hfield.symm.trans howner)
    obtain ⟨found, hfound, hbytes⟩ := Option.map_eq_some_iff.1 hsome
    rw [hfound, Utf8.encode_injective hbytes, hname]
    exact .inr rfl

/-- In every run the keys of live records are owned by them. -/
theorem owned_of_run {scheme : Scheme} (hplain : scheme.layout = .plain)
    (hnames : (scheme.indexes.map Index.name).Nodup) {s : Store Keyspace} {past : History}
    (h : RecordRun scheme.space (· = scheme) s past) : past.Owned scheme := by
  have hallowed : ∀ sch, sch = scheme → sch.PlainIn scheme.space := by
    rintro _ rfl
    exact ⟨rfl, hplain⟩
  induction h with
  | start hs => exact fun key r hlive => nomatch hlive
  | put hrun hscheme hput hout ih =>
    subst hscheme
    obtain ⟨_, hr, hdone, -, -⟩ := putRecord_ok hplain hput
    cases hr
    refine ih.put hnames hdone.fullName fun index hindex hshared x hx => ?_
    exact owners_of_mayClaim (tracks_of_run hallowed hrun) rfl hdone.mayClaim hindex hshared hx
  | reject hrun hscheme hput ih => exact ih
  | delete hrun hdelete hname hout ih => exact ih.delete _
  | deleteMany hrun hdelete hname hout ih => exact ih.delete _
  | clock t hrun ih => exact ih

/-- A live record may be put again under its own key. -/
theorem runOn_putRecord_again {scheme : Scheme} (hplain : scheme.layout = .plain)
    (h : Tracks scheme.space (· = scheme) s past) (howned : past.Owned scheme)
    (hids : ∀ n, s.identifiers n ≠ "") {key : String} {r : Record}
    (hlive : past.live? key = some r) :
    ((putRecord scheme key (.object r)).runOn s).1 =
      ((((encode (.structured (.object r))).runOn s).1.mapError
        (.inContext "put" (scheme.fullName key))).map
          fun _ => ⟨key, scheme.fullName key⟩) := by
  obtain ⟨sch, landing, hmem, rfl⟩ := History.exists_put_of_live? hlive
  obtain ⟨rfl, happlicable, hname, hwritable, hout, hnonempty⟩ := h.placed sch r landing hmem
  rw [hname] at hwritable
  refine runOn_putRecord hplain (hnonempty hids) happlicable hwritable ?_ ?_
  · intro index hindex hshared x hx
    refine .inr ⟨_, rfl, ?_⟩
    have howner := howned landing.key r hlive index hindex hshared x hx
    have hfield := h.indexed.field s.clock.unixMillis index.name x
    rw [howner] at hfield
    exact hfield
  · exact commit_record_ok h.indexed hout _ r

/-- A key holds bytes when its record is live, and nothing when it is not. -/
theorem live?_of_tracks (h : Tracks space allowed s past) {key : String}
    (hout : Namespace.isLookup key = false) (hkey : key ≠ "sequence") (now : Nat) :
    (past.live? key = none ∧ s.backend.live? now (Namespace.key space key) = none) ∨
      ∃ r raw, past.live? key = some r ∧
        s.backend.live? now (Namespace.key space key) = some ⟨.string raw, none⟩ ∧
        s.OpensTo raw r := by
  unfold Keyspace.live?
  cases hlive : past.live? key with
  | none =>
    rw [h.absent key hout hkey hlive]
    exact .inl ⟨rfl, rfl⟩
  | some r =>
    obtain ⟨raw, hslot, hopen⟩ := h.stored key r hlive
    rw [hslot]
    exact .inr ⟨r, raw, rfl, rfl, hopen⟩

/-- The record under a key, as a faithful store reads it. -/
theorem runOn_getRecord_of_tracks {scheme : Scheme} (hplain : scheme.layout = .plain)
    (h : Tracks scheme.space allowed s past) (hs : s.Faithful) {key : String}
    (hout : Namespace.isLookup key = false) (hkey : key ≠ "sequence") :
    (getRecord scheme key .any).runOn s = (.ok ((past.live? key).map Json.object), s) := by
  have hread : (read (scheme.fullName key)).runOn s =
      (.ok ((past.live? key).map fun r => .structured (.object r)), s) := by
    rw [runOn_read]
    unfold Keyspace.get
    rw [show scheme.fullName key = Namespace.key scheme.space key from rfl]
    rcases live?_of_tracks h hout hkey s.clock.unixMillis with
      ⟨hlive, hslot⟩ | ⟨r, raw, hlive, hslot, hopen⟩
    · rw [hlive, hslot]
      rfl
    · rw [hlive, hslot]
      simp only [Option.map_some, Except.bind, hopen hs]
      rfl
  unfold getRecord
  rw [hplain, Action.runOn_bind, hread]
  cases past.live? key with
  | none => rfl
  | some r =>
    simp only [Option.map_some, readAs, Value.read_any, Action.runOn_ofAnswer]
    rfl

end Store

/-- In every run of puts by one scheme, and of deletions, indexes that are not shared stay unique.
Two records that are live have no key in common in such an index, and a record that is live may be
put again under its own key: nothing but its encoding can fail.  Live are the records that the store
has under their keys, and a faithful store reads them. -/
theorem unique_of_run {scheme : Scheme} (hplain : scheme.layout = .plain)
    (hnames : (scheme.indexes.map Index.name).Nodup) {s : Store Keyspace} {past : History}
    (h : RecordRun scheme.space (· = scheme) s past) :
    (∀ key₁ key₂ r₁ r₂, past.live? key₁ = some r₁ → past.live? key₂ = some r₂ →
      ∀ index ∈ scheme.indexes, index.shared = false → ∀ x, index.presentKey? r₁ = some x →
        index.presentKey? r₂ = some x → key₁ = key₂) ∧
    ((∀ n, s.identifiers n ≠ "") → ∀ key r, past.live? key = some r →
      ((Store.putRecord scheme key (.object r)).runOn s).1 =
        ((((Store.encode (.structured (.object r))).runOn s).1.mapError
          (.inContext "put" (scheme.fullName key))).map fun _ => ⟨key, scheme.fullName key⟩)) ∧
    (∀ key, Namespace.isLookup key = false → key ≠ "sequence" →
      (∀ now, s.backend.contains now (scheme.fullName key) = (past.live? key).isSome) ∧
      (s.Faithful → (Store.getRecord scheme key .any).runOn s =
        (.ok ((past.live? key).map Json.object), s))) := by
  have hallowed : ∀ sch, sch = scheme → sch.PlainIn scheme.space := by
    rintro _ rfl
    exact ⟨rfl, hplain⟩
  have htracks := Store.tracks_of_run hallowed h
  have howned := Store.owned_of_run hplain hnames h
  refine ⟨?_, ?_, ?_⟩
  · intro key₁ key₂ r₁ r₂ hlive₁ hlive₂ index hindex hshared x hx₁ hx₂
    have howner₁ := howned key₁ r₁ hlive₁ index hindex hshared x hx₁
    have howner₂ := howned key₂ r₂ hlive₂ index hindex hshared x hx₂
    rw [howner₁] at howner₂
    exact Namespace.key_injective (Option.some.inj howner₂)
  · intro hids key r hlive
    exact Store.runOn_putRecord_again hplain htracks howned hids hlive
  · intro key hout hkey
    refine ⟨fun now => ?_, fun hs => ?_⟩
    · unfold Keyspace.contains
      rw [show scheme.fullName key = Namespace.key scheme.space key from rfl]
      rcases Store.live?_of_tracks htracks hout hkey now with
        ⟨hlive, hslot⟩ | ⟨r, raw, hlive, hslot, -⟩
      · rw [hlive, hslot]
        rfl
      · rw [hlive, hslot]
        rfl
    · exact Store.runOn_getRecord_of_tracks hplain htracks hs hout hkey

/-- A user with a mail address. -/
def mailUser : Record := [("mail", .text "a@b")]

/-- A store without users. -/
def noUsers : Store Keyspace := { backend := {}, identifiers := fun _ => "id" }

/-- A second user with the same address is refused, and the first one may be put again. -/
theorem unique_of_run_refused :
    let put key := Store.putRecord (numberedUsers false) key (.object mailUser)
    let s₁ := ((put "").runOn noUsers).2
    let s₂ := ((put "").runOn s₁).2
    (numberedUsers false).layout = .plain ∧
      ((numberedUsers false).indexes.map Index.name).Nodup ∧
      RecordRun "users" (· = numberedUsers false) s₂
        [.put (numberedUsers false) mailUser ⟨"1", "users:1"⟩] ∧
      s₂.backend.contains 0 "users:1" = true ∧ s₂.backend.contains 0 "users:2" = false ∧
      ((put "1").runOn s₂).1 = .ok ⟨"1", "users:1"⟩ := by
  intro put s₁ s₂
  have hplain : (numberedUsers false).layout = .plain := rfl
  have hnames : ((numberedUsers false).indexes.map Index.name).Nodup := by decide
  have hstart : RecordRun "users" (· = numberedUsers false) noUsers [] := .start rfl
  have hlands : (put "").runOn noUsers = (.ok ⟨"1", "users:1"⟩, s₁) := by rfl
  have hfirst : RecordRun "users" (· = numberedUsers false) s₁
      [.put (numberedUsers false) mailUser ⟨"1", "users:1"⟩] :=
    .put hstart rfl hlands (by decide)
  have hfails : ∃ e, ((put "").runOn s₁).1 = .error e := ⟨_, rfl⟩
  obtain ⟨e, he⟩ := hfails
  have hrun : RecordRun "users" (· = numberedUsers false) s₂
      [.put (numberedUsers false) mailUser ⟨"1", "users:1"⟩] :=
    .reject hfirst rfl (Prod.ext he rfl)
  have hids : ∀ n, s₂.identifiers n ≠ "" := by
    intro n
    change "id" ≠ ""
    decide
  obtain ⟨-, hagain, hlive⟩ := unique_of_run hplain hnames hrun
  refine ⟨hplain, hnames, hrun, ?_, ?_, ?_⟩
  · exact (hlive "1" (by decide) (by decide)).1 0
  · exact (hlive "2" (by decide) (by decide)).1 0
  · exact (hagain hids "1" mailUser rfl).trans rfl

end SealedStore
