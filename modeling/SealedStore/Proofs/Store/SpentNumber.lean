import SealedStore.Proofs.Store.RecordFrame

set_option autoImplicit false

/-!
# Numbers that are spent on records that fail

A put that leaves its key to the counter draws a number once all checks are passed, and before the
record is encoded and committed.  A number that was drawn is not given back.  Main statement: a put
that fails has spent a number exactly if its checks were passed and the counter had a next number;
otherwise the counter is as it was (`counter_of_failed`).
-/

namespace SealedStore

namespace Store

variable {s s' : Store Keyspace} {scheme : Scheme} {j : Json}

/-! ## Puts that come to draw -/

/-- A put that leaves its key to the counter passes all checks: the scheme can be applied, there is
a record, and each of its keys in an index that is not shared is free. -/
structure Admits (s : Store Keyspace) (scheme : Scheme) (j : Json) : Prop where
  family : scheme.family = .memory
  layout : scheme.layout ≠ .set
  cipher : scheme.encryptedFields ≠ [] → s.isEncrypted = true
  record : ∃ r, j = .object r ∧ (scheme.layout = .plain → s.MayClaim scheme r none)

/-- A put that leaves its key to the counter comes to draw the number after one that the counter
holds: it passes all checks, and 64 bits hold the number. -/
structure Draws (s : Store Keyspace) (scheme : Scheme) (j : Json) (i : Int)
    (deadline : Option Nat) : Prop where
  admits : s.Admits scheme j
  holds : s.backend.counter s.clock.unixMillis (Namespace.sequenceKey scheme.space) =
    .ok (i, deadline)
  next : i < Integer.greatest64

theorem runOn_checkClaims_open {r : Record} :
    ((checkClaims scheme r none).runOn s).1 = .ok () ↔
      (scheme.layout = .plain → s.MayClaim scheme r none) := by
  by_cases hplain : scheme.layout = .plain
  · rw [runOn_checkClaims_eq_ok hplain]
    simp [hplain]
  · unfold checkClaims
    simp [hplain]

/-- What comes before the draw, for a key that is left to the counter. -/
theorem prepare_open (hsource : scheme.keySource = .sequence) (j : Json) :
    (prepare scheme "" j : Action (Store Keyspace) (Record × Option String)) = (do
      checkScheme scheme
      let r ← .ofAnswer (Record.ofJson j)
      checkClaims scheme r none
      return (r, none)) := by
  unfold prepare knownKey deriveKey
  simp only [↓reduceIte, hsource, pure_bind]

/-- The checks leave the key open, and the store as it was. -/
theorem runOn_prepare_open (hsource : scheme.keySource = .sequence) {r : Record}
    {known : Option String} {mid : Store Keyspace} :
    (prepare scheme "" j).runOn s = (.ok (r, known), mid) ↔
      s.Admits scheme j ∧ j = .object r ∧ known = none ∧ mid = s := by
  rw [prepare_open hsource]
  constructor
  · intro hrun
    obtain ⟨_, s₁, hscheme, hrun⟩ := Action.runOn_bind_eq_ok.1 hrun
    obtain ⟨happlicable, rfl⟩ := Prod.mk.inj hscheme
    obtain ⟨r', s₂, hr, hrun⟩ := Action.runOn_bind_eq_ok.1 hrun
    obtain ⟨hrecord, rfl⟩ := Prod.mk.inj hr
    obtain ⟨_, s₃, hclaims, hrun⟩ := Action.runOn_bind_eq_ok.1 hrun
    cases hrun
    have hkept : mid = s := (keeps_checkClaims scheme r none id).of_runOn hclaims
    have hj : j = .object r := by
      cases j <;> cases hrecord
      rfl
    obtain ⟨hfamily, hlayout, hcipher⟩ := runOn_checkScheme_eq_ok.1 happlicable
    have hfree := runOn_checkClaims_open.1 (congrArg Prod.fst hclaims)
    exact ⟨⟨hfamily, hlayout, hcipher, r, hj, hfree⟩, hj, rfl, hkept⟩
  · rintro ⟨⟨hfamily, hlayout, hcipher, r', hj, hfree⟩, rfl, rfl, rfl⟩
    cases hj
    have happlicable := runOn_checkScheme_eq_ok.2 ⟨hfamily, hlayout, hcipher⟩
    have hkept := keeps_checkClaims scheme r none id mid
    refine Action.runOn_bind_eq_ok.2 ⟨(), mid, Prod.ext happlicable rfl, ?_⟩
    refine Action.runOn_bind_eq_ok.2 ⟨r, mid, rfl, ?_⟩
    exact Action.runOn_bind_eq_ok.2
      ⟨(), mid, Prod.ext (runOn_checkClaims_open.2 hfree) hkept, rfl⟩

/-- The keyspace that is found at the commit, for a key that is left to the counter. -/
theorem counted_open (hsource : scheme.keySource = .sequence) :
    (s.Admits scheme j → s.counted scheme "" j =
      s.backend.counted s.clock.unixMillis (Namespace.sequenceKey scheme.space)) ∧
    (¬ s.Admits scheme j → s.counted scheme "" j = s.backend) := by
  unfold counted drawn?
  constructor
  · intro hadmits
    obtain ⟨r, hj, -⟩ := hadmits.record
    rw [(runOn_prepare_open hsource).2 ⟨hadmits, hj, rfl, rfl⟩]
  · intro hrefused
    split
    · rfl
    · rename_i hdrawn
      split at hdrawn
      · rename_i hrun
        exact absurd ((runOn_prepare_open hsource).1 hrun).1 hrefused
      · cases hdrawn

end Store

open Store in
/-- A put that leaves its key to the counter and fails, for whatever reason, leaves the counter as
it was exactly if it did not come to draw: a check failed, or the counter had no next number.  A put
that came to draw, and failed while its record was encoded, encrypted or committed, has spent the
number: the counter holds it, with the deadline that it had. -/
theorem counter_of_failed {h : Handle} {scheme : Scheme} (hsource : scheme.keySource = .sequence)
    {j : Json} {space : Option String} {s s' : Store Keyspace} {e : StoreError}
    (hrun : (h.putRecord "" j (some scheme) space).runOn s = (.error e, s')) :
    let counter := Namespace.sequenceKey scheme.space
    (s'.backend.slots[counter]? = s.backend.slots[counter]? ↔
      ∀ i deadline, ¬ s.Draws scheme j i deadline) ∧
    ∀ i deadline, s.Draws scheme j i deadline → s'.backend.slots[counter]? =
      some ⟨.string (Utf8.encode (Integer.render (i + 1))), deadline⟩ := by
  intro counter
  replace hrun : (putRecord scheme "" j).runOn s = (.error e, s') := hrun
  have hbackend : s'.backend = s.counted scheme "" j :=
    (backend_of_uncounted (putRecord_fails hrun) :)
  obtain ⟨hasked, hkept⟩ := counted_open (s := s) (j := j) hsource
  have hspent : ∀ i deadline, s.Draws scheme j i deadline → s'.backend.slots[counter]? =
      some ⟨.string (Utf8.encode (Integer.render (i + 1))), deadline⟩ := by
    intro i deadline hdraws
    rw [hbackend, hasked hdraws.admits]
    exact Keyspace.slots_counted_of_counter hdraws.holds hdraws.next
  refine ⟨⟨fun hsame i deadline hdraws => ?_, fun hnone => ?_⟩, hspent⟩
  · refine Keyspace.slots_ne_next hdraws.holds hdraws.next ?_
    exact hsame.symm.trans (hspent i deadline hdraws)
  · by_cases hadmits : s.Admits scheme j
    · -- The counter was asked, but it holds no number or the last one.
      have hstuck : s.backend.counted s.clock.unixMillis counter = s.backend :=
        Keyspace.counted_of_stuck fun i deadline hholds hnext =>
          hnone i deadline ⟨hadmits, hholds, hnext⟩
      rw [hbackend, hasked hadmits, hstuck]
    · rw [hbackend, hkept hadmits]

/-- Plain bytes in the place of the entries show only at the commit.  The number after 41 is spent,
and the counter still expires when it would have. -/
theorem counter_of_failed_shadowed :
    let s : Store Keyspace :=
      { backend := (({} : Keyspace).put "users:lookup:mail" ⟨.string [7], none⟩).put
          "users:sequence" ⟨.string [52, 49], some 5⟩
        identifiers := fun _ => "" }
    let j : Json := .object [("mail", .text "a@b")]
    let put := (({} : Handle).putRecord "" j (some (numberedUsers true)) none).runOn s
    (numberedUsers true).keySource = .sequence ∧ (∃ e, put.1 = .error e) ∧
      s.Draws (numberedUsers true) j 41 (some 5) ∧
      put.2.backend.slots["users:sequence"]? = some ⟨.string [52, 50], some 5⟩ := by
  intro s j put
  have hfails : ∃ e, put.1 = .error e := ⟨_, rfl⟩
  obtain ⟨e, he⟩ := hfails
  have hdraws : s.Draws (numberedUsers true) j 41 (some 5) := by
    refine ⟨⟨rfl, by decide, fun _ => ?_, _, rfl, fun _ index hindex hshared => ?_⟩, rfl, by decide⟩
    · contradiction
    · rw [List.mem_singleton.1 hindex] at hshared
      cases hshared
  exact ⟨rfl, ⟨e, he⟩, hdraws,
    (counter_of_failed rfl (Prod.ext he rfl : put = (.error e, put.2))).2 41 (some 5) hdraws⟩

/-- A put that fails, as the first one that asks the counter, leaves the counter behind. -/
theorem counter_left_by_failed :
    let s : Store Keyspace :=
      { backend := ({} : Keyspace).put "users:lookup:mail" ⟨.string [7], none⟩
        identifiers := fun _ => "" }
    let put := (({} : Handle).putRecord "" (.object [("mail", .text "a@b")])
      (some (numberedUsers true)) none).runOn s
    (∃ e, put.1 = .error e) ∧ s.backend.slots["users:sequence"]? = none ∧
      put.2.backend.slots["users:sequence"]? = some ⟨.string [49], none⟩ := by
  intro s put
  exact ⟨⟨_, rfl⟩, rfl, rfl⟩

end SealedStore
