import SealedStore.Proofs.Scheme.IndexKey
import SealedStore.Proofs.Store.Veil

set_option autoImplicit false

/-!
# What shows of encrypted fields

A put of a record keeps its encrypted fields to itself if nothing that shows in the keyspace, apart
from ciphertexts, depends on them.  Hash records keep them.  A plain record is encrypted as a whole,
but the key that it has in an index shows in the lookup hash, so it keeps its encrypted fields
exactly if no index is over one of them (`keepsSecrets_iff`).
-/

namespace SealedStore

namespace Scheme

/-- Two records have the same fields and agree on each field that is not encrypted. -/
def Alike (scheme : Scheme) (r₁ r₂ : Record) : Prop :=
  List.Forall₂ (fun m n => n.1 = m.1 ∧ (scheme.encrypts m.1 = false → n.2 = m.2)) r₁ r₂

/-- What shows of a record does not depend on its encrypted fields: when two records are alike and
each can be put under a key, then each can be put with every byte string that the cipher returns
replaced by one mark, and the two puts lead to the same keyspace. -/
def KeepsSecrets (scheme : Scheme) : Prop :=
  ∀ (s s₁ s₂ : Store Keyspace) (key : String) (r₁ r₂ : Record) (landing₁ landing₂ : Landing)
    (mark : Bytes),
    s.isEncrypted = true → key ≠ "" → scheme.Alike r₁ r₂ →
    (Store.putRecord scheme key (.object r₁)).runOn s = (.ok landing₁, s₁) →
    (Store.putRecord scheme key (.object r₂)).runOn s = (.ok landing₂, s₂) →
      ∃ shown₁ shown₂ : Store Keyspace,
        (Store.putRecord scheme key (.object r₁)).runOn (s.veiled mark) = (.ok landing₁, shown₁) ∧
        (Store.putRecord scheme key (.object r₂)).runOn (s.veiled mark) = (.ok landing₂, shown₂) ∧
        shown₁.backend = shown₂.backend

/-- No index of the scheme is over an encrypted field. -/
def IndexesInClear (scheme : Scheme) : Prop :=
  ∀ index ∈ scheme.indexes, ∀ name ∈ index.fields, scheme.encrypts name = false

/-! ## Records that are alike -/

section Alike

variable {scheme : Scheme} {r₁ r₂ : Record}

/-- Records that are alike have the same value in a field that is not encrypted. -/
theorem Alike.find?_eq (h : scheme.Alike r₁ r₂) {name : String}
    (hname : scheme.encrypts name = false) : r₂.find? name = r₁.find? name := by
  unfold Record.find?
  induction h with
  | nil => rfl
  | @cons m n r₁ r₂ hmn htail ih =>
    obtain ⟨x, v⟩ := m
    obtain ⟨y, w⟩ := n
    obtain ⟨hfield, hvalue⟩ := hmn
    obtain rfl : y = x := hfield
    rw [List.lookup_cons, List.lookup_cons, ih]
    cases hx : name == y with
    | false => rfl
    | true =>
      have hclear : scheme.encrypts y = false := beq_iff_eq.1 hx ▸ hname
      exact congrArg some (hvalue hclear)

theorem Alike.claims_eq (h : scheme.Alike r₁ r₂) (hclear : scheme.IndexesInClear) :
    scheme.claims r₂ = scheme.claims r₁ := by
  unfold claims
  refine List.filterMap_congr fun index hindex => ?_
  have hparts : index.parts r₂ = index.parts r₁ := by
    unfold Index.parts
    refine List.map_congr_left fun name hname => ?_
    rw [h.find?_eq (hclear index hindex name hname)]
  unfold Index.presentKey? Index.keyOf
  rw [hparts]

theorem Alike.shownFields_eq (h : scheme.Alike r₁ r₂) (mark : Bytes) :
    r₂.map (Store.shownField scheme mark) = r₁.map (Store.shownField scheme mark) := by
  induction h with
  | nil => rfl
  | @cons m n r₁ r₂ hmn htail ih =>
    obtain ⟨hfield, hvalue⟩ := hmn
    rw [List.map_cons, List.map_cons, ih]
    unfold Store.shownField
    rw [hfield]
    cases hencrypts : scheme.encrypts m.1 with
    | true => rfl
    | false => rw [hvalue hencrypts]

/-- The same shows of records that are alike, unless an index shows an encrypted field. -/
theorem Alike.shownCommands_eq (h : scheme.Alike r₁ r₂)
    (hclear : scheme.layout = .plain → scheme.IndexesInClear) (mark : Bytes) (fullName : String) :
    Store.shownCommands scheme mark r₂ fullName = Store.shownCommands scheme mark r₁ fullName := by
  unfold Store.shownCommands
  cases hlayout : scheme.layout with
  | plain => simp only [Store.recordCommands, h.claims_eq (hclear hlayout)]
  | hashTable =>
    have hempty : r₂ = [] ↔ r₁ = [] := by
      rw [← List.length_eq_zero_iff, ← h.length_eq, List.length_eq_zero_iff]
    simp only [h.shownFields_eq mark, hempty]
  | set => rfl

end Alike

/-- A scheme whose indexes are over fields in clear, or of which no record of plain layout is ever
put in a keyspace, keeps its encrypted fields to itself. -/
theorem keepsSecrets_of_clear {scheme : Scheme}
    (hclear : scheme.family = .memory → scheme.layout = .plain → scheme.IndexesInClear) :
    scheme.KeepsSecrets := by
  intro s s₁ s₂ key r₁ r₂ landing₁ landing₂ mark hs hkey halike hrun₁ hrun₂
  obtain ⟨e, he⟩ := Option.isSome_iff_exists.1 hs
  have hfamily : scheme.family = .memory := Store.family_of_putRecord hrun₁
  obtain ⟨-, -, shown₁, -, -, hshown₁, hveiled₁⟩ := Store.putRecord_veiled he hkey hrun₁ mark
  obtain ⟨-, -, shown₂, -, -, hshown₂, hveiled₂⟩ := Store.putRecord_veiled he hkey hrun₂ mark
  rw [halike.shownCommands_eq (hclear hfamily) mark, hshown₁] at hshown₂
  exact ⟨shown₁, shown₂, hveiled₁, hveiled₂, Except.ok.inj hshown₂⟩

end Scheme

/-! ## An index over an encrypted field -/

namespace Index

/-- The key of a record with one text field has the letters of the text if the index is over the
field, and no others. -/
theorem mem_keyOf_text {c : Char} (hc : c ≠ separator) (index : Index) (name text : String) :
    c ∈ (index.keyOf [(name, .text text)]).toList ↔ name ∈ index.fields ∧ c ∈ text.toList := by
  unfold keyOf parts
  rw [mem_keyOfParts hc]
  simp only [List.mem_map, exists_exists_and_eq_and]
  constructor
  · rintro ⟨field, hfield, hmem⟩
    by_cases hname : field = name
    · subst hname
      exact ⟨hfield, by simpa [Record.find?, textOf] using hmem⟩
    · have hother : Record.find? [(name, .text text)] field = none := by
        unfold Record.find?
        rw [List.lookup_cons, beq_eq_false_iff_ne.2 hname]
        rfl
      simp [hother] at hmem
  · rintro ⟨hname, hmem⟩
    refine ⟨name, hname, ?_⟩
    simpa [Record.find?, textOf] using hmem

end Index

namespace Scheme

/-- A scheme with an index over an encrypted field. -/
structure Exposes (scheme : Scheme) (index : Index) (name : String) : Prop where
  family : scheme.family = .memory
  layout : scheme.layout = .plain
  mem : index ∈ scheme.indexes
  field : name ∈ index.fields
  encrypted : scheme.encrypts name = true

section Exposes

variable {scheme : Scheme} {index : Index} {name : String}

/-- The letter of a text field is in the key that the record has in the index. -/
theorem Exposes.claims (h : scheme.Exposes index name) {c : Char} (hc : c ≠ Index.separator) :
    ∃ x, (index.name, x) ∈ scheme.claims [(name, .text c.toString)] ∧ c ∈ x.toList := by
  have hmem : c ∈ (index.keyOf [(name, .text c.toString)]).toList :=
    (Index.mem_keyOf_text hc index name c.toString).2 ⟨h.field, by simp⟩
  obtain ⟨part, hpart, hletter⟩ := (Index.mem_keyOfParts hc _).1 hmem
  have hkey : index.presentKey? [(name, .text c.toString)] =
      some (index.keyOf [(name, .text c.toString)]) :=
    Index.presentKey?_eq_some.2 ⟨rfl, part, hpart, c, hletter, hc⟩
  exact ⟨_, mem_claims.2 ⟨index, h.mem, rfl, hkey⟩, hmem⟩

/-- No other letter is in any key of the record. -/
theorem not_mem_claims {c d : Char} (hc : c ≠ Index.separator) (hne : c ≠ d) {i x : String}
    (hx : c ∈ x.toList) : (i, x) ∉ scheme.claims [(name, .text d.toString)] := by
  intro hmem
  obtain ⟨other, -, -, hkey⟩ := mem_claims.1 hmem
  have hkeyOf : other.keyOf [(name, .text d.toString)] = x := (Index.presentKey?_eq_some.1 hkey).1
  rw [← hkeyOf, Index.mem_keyOf_text hc] at hx
  exact hne (by simpa using hx.2)

end Exposes

/-! ## Puts that differ in what shows -/

section Puts

open Store

/-- An empty store whose cipher is the masking one. -/
def maskedStore : Store Keyspace :=
  { backend := {}, encryption := some ⟨[], .mask⟩, identifiers := fun _ => "" }

/-- A record of one field can be put in the empty store. -/
theorem exists_putRecord {scheme : Scheme} (hfamily : scheme.family = .memory)
    (hplain : scheme.layout = .plain) (r : Record) :
    ∃ s', (putRecord scheme "x" (.object r)).runOn maskedStore =
      (.ok ⟨"x", scheme.fullName "x"⟩, s') := by
  have happlicable : ((checkScheme scheme).runOn maskedStore).1 = .ok () :=
    runOn_checkScheme_eq_ok.2 ⟨hfamily, by simp [hplain], fun _ => rfl⟩
  have hwritable : Namespace.isCounter (scheme.fullName "x") = false := by
    refine Namespace.isCounter_eq_false ?_
    simp [Scheme.fullName, Namespace.key]
  have hmay : maskedStore.MayClaim scheme r (some (scheme.fullName "x")) := by
    intro index hindex hshared x hx
    exact .inl rfl
  have hcommit := fun raw => commit_record_ok (Keyspace.indexed_empty scheme.space)
    (by decide : Namespace.isLookup "x" = false) (maskedStore.clock.unixMillis) r raw
  have hput := runOn_putRecord hplain (by decide) happlicable hwritable hmay hcommit
  refine ⟨((putRecord scheme "x" (.object r)).runOn maskedStore).2, Prod.ext ?_ rfl⟩
  rw [hput]
  rfl

/-- What a key of an index is mapped to after a put in the veiled empty store. -/
theorem field_veiled {scheme : Scheme} (hplain : scheme.layout = .plain) {r : Record}
    {landing : Landing} {s' shown : Store Keyspace}
    (hrun : (putRecord scheme "x" (.object r)).runOn maskedStore = (.ok landing, s')) {mark : Bytes}
    (hveiled : (putRecord scheme "x" (.object r)).runOn (maskedStore.veiled mark) =
      (.ok landing, shown))
    (index x : String) :
    shown.backend.field 0 (scheme.lookupKey index) x =
      .ok (if (index, x) ∈ scheme.claims r then some (Utf8.encode (scheme.fullName "x"))
        else none) := by
  obtain ⟨-, -, shown', -, -, hshown, hsame⟩ := putRecord_veiled rfl (by decide) hrun mark
  obtain rfl : shown' = shown := (Prod.mk.inj (hsame.symm.trans hveiled)).2
  unfold shownCommands at hshown
  rw [hplain] at hshown
  obtain ⟨hindexed, -⟩ := slots_of_commit (Keyspace.indexed_empty scheme.space) rfl
    (by decide : Namespace.isLookup "x" = false) hshown
  refine (hindexed.field 0 index x).trans ?_
  unfold Owners.claim
  split <;> rfl

/-- A scheme with an index over an encrypted field does not keep it to itself. -/
theorem not_keepsSecrets {scheme : Scheme} {index : Index} {name : String}
    (h : scheme.Exposes index name) : ¬ scheme.KeepsSecrets := by
  intro hkeeps
  -- Two texts of one letter each: only the first record has a key with the first letter.
  obtain ⟨s₁, hrun₁⟩ := exists_putRecord h.family h.layout [(name, .text 'a'.toString)]
  obtain ⟨s₂, hrun₂⟩ := exists_putRecord h.family h.layout [(name, .text 'b'.toString)]
  have halike : scheme.Alike [(name, .text 'a'.toString)] [(name, .text 'b'.toString)] := by
    refine .cons ⟨rfl, fun hclear => ?_⟩ .nil
    rw [h.encrypted] at hclear
    cases hclear
  obtain ⟨shown₁, shown₂, hveiled₁, hveiled₂, hsame⟩ :=
    hkeeps maskedStore s₁ s₂ "x" _ _ _ _ [] rfl (by decide) halike hrun₁ hrun₂
  obtain ⟨x, hx, hletter⟩ := h.claims (by decide : 'a' ≠ Index.separator)
  have hnot : (index.name, x) ∉ scheme.claims [(name, .text 'b'.toString)] :=
    not_mem_claims (by decide : 'a' ≠ Index.separator) (by decide) hletter
  have hfield₁ := field_veiled h.layout hrun₁ hveiled₁ index.name x
  have hfield₂ := field_veiled h.layout hrun₂ hveiled₂ index.name x
  rw [hsame, hfield₂, if_pos hx, if_neg hnot] at hfield₁
  cases hfield₁

end Puts

end Scheme

open Scheme in
/-- Exactly the schemes without an index over an encrypted field keep their encrypted fields to
themselves; schemes for another family of backends and those of another layout have no say in the
lookup hashes of a keyspace. -/
theorem keepsSecrets_iff (scheme : Scheme) :
    scheme.KeepsSecrets ↔
      (scheme.family = .memory → scheme.layout = .plain → scheme.IndexesInClear) := by
  constructor
  · intro hkeeps hfamily hlayout index hindex name hname
    cases hencrypts : scheme.encrypts name with
    | false => rfl
    | true =>
      exact absurd hkeeps (not_keepsSecrets ⟨hfamily, hlayout, hindex, hname, hencrypts⟩)
  · exact keepsSecrets_of_clear

/-- Members who are found by their mail address, which is encrypted. -/
def secretMembers : Scheme where
  space := "members"
  family := .memory
  indexes := [⟨"mail", ["mail"], false⟩]
  encryptedFields := ["mail"]
  space_ne := by decide
  fields_ne := List.forall_mem_singleton.2 (List.cons_ne_nil _ _)

open Scheme in
/-- The address of a member is a key of the lookup hash: records that differ in the address alone
lead to keyspaces that differ in clear. -/
theorem secretMembers_exposed :
    (∃ s₁ s₂, (Store.putRecord secretMembers "m1" (.object [("mail", .text "a@b")])).runOn
          maskedStore = (.ok ⟨"m1", "members:m1"⟩, s₁) ∧
        (Store.putRecord secretMembers "m1" (.object [("mail", .text "c@d")])).runOn
          maskedStore = (.ok ⟨"m1", "members:m1"⟩, s₂) ∧
        s₁.backend.field 0 "members:lookup:mail" "a@b" = .ok (some (Utf8.encode "members:m1")) ∧
        s₂.backend.field 0 "members:lookup:mail" "a@b" = .ok none) ∧
      ¬ secretMembers.KeepsSecrets := by
  refine ⟨⟨_, _, rfl, rfl, ?_, ?_⟩, ?_⟩
  · rfl
  · rfl
  · exact not_keepsSecrets ⟨rfl, rfl, List.mem_singleton.2 rfl, List.mem_singleton.2 rfl, rfl⟩

end SealedStore
