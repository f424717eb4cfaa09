import SealedStore.Proofs.Store.StoreCalls
import SealedStore.Proofs.Store.UniqueIndex

set_option autoImplicit false

/-!
# Lookup entries outlive the writes of others

Lookup hashes lie among the records and no name check protects them.  So an entry outlives every
write but that of a record which claims its key, and that of a value or a record whose own full name
is the name of the hash (`entry_of_perform`).
-/

namespace SealedStore

open Store in
/-- Whatever a store holds, a call that succeeds leaves every lookup entry in place with its owner,
provided that it neither puts its value or record under the name of the lookup hash nor removes that
name, and that it is no put of a plain record that claims the same key in the hash. -/
theorem entry_of_perform {h : Handle} {c : StoreCall} {s s' : Store Keyspace}
    {landing : Option Landing} (hrun : (c.perform h).runOn s = (.ok landing, s'))
    {space index x : String} {owner : Bytes}
    (hentry : s.backend.field s.clock.unixMillis (Namespace.lookupKey space index) x =
      .ok (some owner))
    (hplaces : Namespace.lookupKey space index ∉ c.places h landing)
    (hremoves : Namespace.lookupKey space index ∉ c.removes h)
    (hentries : (Namespace.lookupKey space index, x) ∉ c.entries) :
    s'.backend.field s'.clock.unixMillis (Namespace.lookupKey space index) x =
      .ok (some owner) := by
  obtain ⟨hclock, -, -, tx, htx, hbackend⟩ := perform_ok hrun
  have hspares : ∀ d ∈ tx, Keyspace.Spares (Namespace.lookupKey space index) x d := by
    intro d hd
    rcases htx d hd with hplace | hremove | ⟨e, he, v, rfl⟩
    · exact .inl fun hname => hplaces (hname ▸ hplace)
    · exact .inl fun hname => hremoves (hname ▸ hremove)
    · -- Another key is claimed, in this hash or in another one.
      by_cases hname : Namespace.lookupKey space index = e.1
      · refine .inr ⟨e.2, v, by rw [hname], ?_⟩
        rintro rfl
        exact hentries (hname ▸ he)
      · exact .inl hname
  rw [hclock, hbackend]
  exact Keyspace.field_foldl_of_spares hspares (field_callCounted c hentry)

/-- A second user whose address goes into the same hash. -/
theorem entry_of_perform_second :
    let call : StoreCall :=
      .putRecord "" (.object [("mail", .text "c@d")]) (some (numberedUsers false)) none
    let s := ((Store.putRecord (numberedUsers false) "" (.object mailUser)).runOn noUsers).2
    let s' := ((call.perform {}).runOn s).2
    s.backend.field 0 "users:lookup:mail" "a@b" = .ok (some (Utf8.encode "users:1")) ∧
      ((call.perform {}).runOn s).1 = .ok (some ⟨"2", "users:2"⟩) ∧
      s'.backend.field 0 "users:lookup:mail" "a@b" = .ok (some (Utf8.encode "users:1")) := by
  intro call s s'
  have hentry : s.backend.field s.clock.unixMillis (Namespace.lookupKey "users" "mail") "a@b" =
      .ok (some (Utf8.encode "users:1")) := rfl
  have hrun : (call.perform {}).runOn s = (.ok (some ⟨"2", "users:2"⟩), s') := rfl
  have hkept := entry_of_perform hrun hentry (by decide) (by decide) (by decide)
  exact ⟨hentry, congrArg Prod.fst hrun, hkept⟩

/-- A value and a hash record whose full names are that of the lookup hash: either takes all entries
of the index away. -/
theorem entry_overwritten :
    let call : StoreCall := .value (.put "lookup:mail" (.text "x") (some "users"))
    let call' : StoreCall := .putRecord "lookup:mail" (.object [])
      (some { numberedUsers false with layout := .hashTable }) none
    let s := ((Store.putRecord (numberedUsers false) "" (.object mailUser)).runOn noUsers).2
    s.backend.field 0 "users:lookup:mail" "a@b" = .ok (some (Utf8.encode "users:1")) ∧
      ((call.perform {}).runOn s).1 = .ok none ∧
      ((call.perform {}).runOn s).2.backend.field 0 "users:lookup:mail" "a@b" =
        .error (.wrongType "users:lookup:mail") ∧
      ((call'.perform {}).runOn s).1 = .ok (some ⟨"lookup:mail", "users:lookup:mail"⟩) ∧
      ((call'.perform {}).runOn s).2.backend.field 0 "users:lookup:mail" "a@b" = .ok none := by
  intro call call' s
  exact ⟨rfl, rfl, rfl, rfl, rfl⟩

end SealedStore
