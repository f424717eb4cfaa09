import Mathlib.Logic.Function.Basic
import SealedStore.Proofs.Keyspace.Frame
import SealedStore.Proofs.Names

set_option autoImplicit false

/-!
# Lookup hashes

The lookup hashes of a namespace hold owners: for each index and each of its keys, the name of the
record that owns it.  A key that is claimed for a record is added to its hash, and nothing that is
written under another name shows in the hashes.
-/

namespace SealedStore

/-- The owner of each key of each index, by the names of the indexes. -/
abbrev Owners := String → String → Option String

namespace Owners

/-- The keys are claimed for one record; other keys stay with their owners. -/
def claim (o : Owners) (claims : List (String × String)) (fullName : String) : Owners :=
  fun index x => if (index, x) ∈ claims then some fullName else o index x

theorem claim_nil (o : Owners) (fullName : String) : o.claim [] fullName = o := by
  funext index x
  simp [claim]

theorem claim_cons (o : Owners) (c : String × String) (rest : List (String × String))
    (fullName : String) :
    o.claim (c :: rest) fullName = (o.claim [c] fullName).claim rest fullName := by
  funext index x
  by_cases hr : (index, x) ∈ rest <;> simp [claim, hr]

end Owners

/-- A slot is the lookup hash of an index whose keys have these owners.  A hash without fields is
not there. -/
inductive IsLookup (owner? : String → Option String) : Option Slot → Prop
  | missing : (∀ x, owner? x = none) → IsLookup owner? none
  | hash (fields : Fields) : (∀ x : String, fields[x]? = (owner? x).map Utf8.encode) →
      IsLookup owner? (some ⟨.hash fields, none⟩)

namespace Keyspace

/-- The lookup hashes of a namespace hold these owners, without a deadline. -/
def Indexed (b : Keyspace) (space : String) (o : Owners) : Prop :=
  ∀ index, IsLookup (o index) b.slots[Namespace.lookupKey space index]?

section Indexed

variable {b : Keyspace} {space : String} {o : Owners}

theorem indexed_empty (space : String) : ({} : Keyspace).Indexed space fun _ _ => none :=
  fun _ => .missing fun _ => rfl

theorem Indexed.congr {t : Keyspace} (h : b.Indexed space o)
    (ht : ∀ index, t.slots[Namespace.lookupKey space index]? =
      b.slots[Namespace.lookupKey space index]?) : t.Indexed space o := by
  intro index
  rw [ht index]
  exact h index

/-- Looking up a key answers its owner. -/
theorem Indexed.field (h : b.Indexed space o) (now : Nat) (index x : String) :
    b.field now (Namespace.lookupKey space index) x = .ok ((o index x).map Utf8.encode) := by
  have hslot := h index
  unfold Keyspace.field Keyspace.fields Keyspace.live?
  generalize b.slots[Namespace.lookupKey space index]? = slot at hslot
  cases hslot with
  | missing hnone =>
    rw [hnone x]
    rfl
  | hash fields hfields => exact congrArg Except.ok (hfields x)

/-- The shape under a lookup hash is that of a hash, unless nothing is there. -/
theorem Indexed.shape? (h : b.Indexed space o) (now : Nat) (index : String) :
    b.shape? now (Namespace.lookupKey space index) = none ∨
      b.shape? now (Namespace.lookupKey space index) = some .hash := by
  have hslot := h index
  unfold Keyspace.shape? Keyspace.live?
  generalize b.slots[Namespace.lookupKey space index]? = slot at hslot
  cases hslot with
  | missing hnone => exact .inl rfl
  | hash fields hfields => exact .inr rfl

/-! ## Writes outside the hashes -/

theorem Indexed.put (h : b.Indexed space o) {k : String} (hk : Namespace.isLookup k = false)
    (slot : Slot) : (b.put (Namespace.key space k) slot).Indexed space o := by
  refine h.congr fun index => ?_
  rw [slots_put, if_neg (Namespace.key_ne_lookupKey hk index).symm]

theorem Indexed.delete (h : b.Indexed space o) {keys : List String}
    (hkeys : ∀ k ∈ keys, Namespace.isLookup k = false) (now : Nat) :
    (b.delete now (keys.map (Namespace.key space))).2.Indexed space o := by
  refine h.congr fun index => ?_
  rw [slots_delete, if_neg]
  intro hmem
  obtain ⟨k, hk, he⟩ := List.mem_map.1 hmem
  exact Namespace.key_ne_lookupKey (hkeys k hk) index he

/-! ## Claiming keys -/

/-- The command that claims a key of an index for a record. -/
def claimCommand (space fullName : String) : String × String → Command
  | (index, x) => .hset (Namespace.lookupKey space index) [(x, Utf8.encode fullName)]

/-- A field that is added to a lookup hash is in it, besides what was there. -/
theorem Indexed.apply_hset (h : b.Indexed space o) (now : Nat) (index x : String) (v : Bytes) :
    ∃ fields : Fields, b.apply now (.hset (Namespace.lookupKey space index) [(x, v)]) =
        b.put (Namespace.lookupKey space index) ⟨.hash fields, none⟩ ∧
      ∀ y : String, fields[y]? = if y = x then some v else (o index y).map Utf8.encode := by
  have hslot := h index
  simp only [apply, live?]
  generalize b.slots[Namespace.lookupKey space index]? = slot at hslot
  cases hslot with
  | missing hnone =>
    refine ⟨_, rfl, fun y => ?_⟩
    rw [insert_field, hnone y]
    rfl
  | hash old hold =>
    refine ⟨_, rfl, fun y => ?_⟩
    rw [insert_field, hold y]

/-- Claiming a key makes the record its owner. -/
theorem Indexed.claim (h : b.Indexed space o) (now : Nat) (fullName index x : String) :
    (b.apply now (claimCommand space fullName (index, x))).Indexed space
      (o.claim [(index, x)] fullName) := by
  obtain ⟨fields, happly, hfields⟩ := h.apply_hset now index x (Utf8.encode fullName)
  unfold claimCommand
  rw [happly]
  intro other
  rw [slots_put]
  by_cases he : other = index
  · subst he
    rw [if_pos rfl]
    refine .hash fields fun y => ?_
    rw [hfields y]
    by_cases hy : y = x <;> simp [Owners.claim, hy]
  · have hne : Namespace.lookupKey space other ≠ Namespace.lookupKey space index :=
      fun hl => he (Namespace.lookupKey_injective hl)
    rw [if_neg hne]
    have howners : o.claim [(index, x)] fullName other = o other := by
      funext y
      simp [Owners.claim, he]
    rw [howners]
    exact h other

/-- Claiming keys in a row. -/
theorem Indexed.claimAll (h : b.Indexed space o) (now : Nat) (fullName : String)
    (claims : List (String × String)) :
    ((claims.map (claimCommand space fullName)).foldl (fun b c => b.apply now c) b).Indexed space
      (o.claim claims fullName) := by
  induction claims generalizing b o with
  | nil =>
    rw [Owners.claim_nil]
    exact h
  | cons c rest ih =>
    rw [Owners.claim_cons]
    exact ih (h.claim now fullName c.1 c.2)

/-- Claims show under no other name. -/
theorem slots_claimAll_of_ne (now : Nat) (fullName : String) (claims : List (String × String))
    {name : String} (hname : ∀ index, name ≠ Namespace.lookupKey space index) (b : Keyspace) :
    ((claims.map (claimCommand space fullName)).foldl (fun b c => b.apply now c) b).slots[name]? =
      b.slots[name]? := by
  refine slots_foldl_of_ne b now fun c hc => ?_
  obtain ⟨claim, -, rfl⟩ := List.mem_map.1 hc
  exact hname claim.1

/-- Claims are accepted wherever the shapes are those of lookup hashes. -/
theorem check_claims (fullName : String) (claims : List (String × String))
    {shapes : String → Option Shape}
    (hshapes : ∀ index, shapes (Namespace.lookupKey space index) = none ∨
      shapes (Namespace.lookupKey space index) = some .hash) :
    Transaction.check shapes (claims.map (claimCommand space fullName)) = .ok () := by
  induction claims generalizing shapes with
  | nil => rfl
  | cons c rest ih =>
    have hafter : (claimCommand space fullName c).shapeAfter
        (shapes (claimCommand space fullName c).key) = .ok (some .hash) := by
      unfold claimCommand
      rcases hshapes c.1 with h | h <;> simp only [Command.key, h] <;> rfl
    simp only [List.map_cons, Transaction.check, hafter]
    refine ih fun index => ?_
    split
    · exact .inr rfl
    · exact hshapes index

end Indexed

/-! ## Hashes that are there in part -/

/-- Every entry that the lookup hashes of a namespace have is that of an owner.  Hashes, and entries
of owners, may be missing. -/
def IndexedAtMost (b : Keyspace) (space : String) (o : Owners) : Prop :=
  ∀ index fields deadline,
    b.slots[Namespace.lookupKey space index]? = some ⟨.hash fields, deadline⟩ →
      ∀ (x : String) v, fields[x]? = some v → (o index x).map Utf8.encode = some v

section IndexedAtMost

variable {b : Keyspace} {space : String} {o : Owners}

theorem indexedAtMost_empty (space : String) (o : Owners) :
    ({} : Keyspace).IndexedAtMost space o := by
  intro index fields deadline h
  cases h

/-- Nothing but hashes that were there before. -/
theorem IndexedAtMost.mono {t : Keyspace} (h : b.IndexedAtMost space o)
    (ht : ∀ (name : String) fields deadline, t.slots[name]? = some ⟨.hash fields, deadline⟩ →
      b.slots[name]? = some ⟨.hash fields, deadline⟩) : t.IndexedAtMost space o :=
  fun index fields deadline hslot => h index fields deadline (ht _ _ _ hslot)

/-- An entry that can be read is that of an owner. -/
theorem IndexedAtMost.owner (h : b.IndexedAtMost space o) {now : Nat} {index x : String} {v : Bytes}
    (hfield : b.field now (Namespace.lookupKey space index) x = .ok (some v)) :
    (o index x).map Utf8.encode = some v := by
  obtain ⟨fields, deadline, hlive, hx⟩ := field_eq_some.1 hfield
  exact h index fields deadline (Option.eq_some_of_filter_eq_some hlive) x v hx

/-- Fields are added to a hash that was there, or begin one, or run into plain bytes. -/
theorem apply_hset_cases (b : Keyspace) (now : Nat) (key : String)
    (added : List (String × Bytes)) :
    (∃ (old : Fields) (deadline : Option Nat),
      (old = ∅ ∨ b.slots[key]? = some ⟨.hash old, deadline⟩) ∧
        b.apply now (.hset key added) = b.put key ⟨.hash (old.insertMany added), deadline⟩) ∨
    ∃ value deadline, b.slots[key]? = some ⟨.string value, deadline⟩ ∧
      b.apply now (.hset key added) = b := by
  simp only [apply]
  split
  · exact .inl ⟨∅, none, .inl rfl, rfl⟩
  · rename_i old deadline hlive
    exact .inl ⟨old, deadline, .inr (Option.eq_some_of_filter_eq_some hlive), rfl⟩
  · rename_i value deadline hlive
    exact .inr ⟨value, deadline, Option.eq_some_of_filter_eq_some hlive, rfl⟩

/-- Fields never turn into plain bytes. -/
theorem string_of_apply_hset {now : Nat} {key name : String} {added : List (String × Bytes)}
    {value : Bytes} {deadline : Option Nat}
    (h : (b.apply now (.hset key added)).slots[name]? = some ⟨.string value, deadline⟩) :
    b.slots[name]? = some ⟨.string value, deadline⟩ := by
  rcases apply_hset_cases b now key added with ⟨old, d, -, happly⟩ | ⟨-, -, -, happly⟩
  · rw [happly, slots_put] at h
    split at h
    · cases h
    · exact h
  · rw [happly] at h
    exact h

theorem IndexedAtMost.claim (h : b.IndexedAtMost space o) (now : Nat) (fullName index x : String) :
    (b.apply now (claimCommand space fullName (index, x))).IndexedAtMost space
      (o.claim [(index, x)] fullName) := by
  intro other fields deadline hslot y v hy
  unfold claimCommand at hslot
  by_cases he : other = index
  · subst he
    rcases apply_hset_cases b now _ [(x, Utf8.encode fullName)] with
      ⟨old, d, hold, happly⟩ | ⟨value, d, hstring, happly⟩
    · rw [happly, slots_put, if_pos rfl] at hslot
      cases hslot
      rw [insert_field] at hy
      by_cases hyx : y = x
      · subst hyx
        rw [if_pos rfl] at hy
        simp [Owners.claim, Option.some.inj hy]
      · rw [if_neg hyx] at hy
        rcases hold with rfl | hold
        · cases hy
        · simp only [Owners.claim, List.mem_singleton, Prod.mk.injEq, hyx, and_false, ↓reduceIte]
          exact h other old _ hold y v hy
    · rw [happly, hstring] at hslot
      cases hslot
  · have hne : Namespace.lookupKey space other ≠ Namespace.lookupKey space index :=
      fun hl => he (Namespace.lookupKey_injective hl)
    rw [slots_apply_hset_of_ne b now _ hne] at hslot
    simp only [Owners.claim, List.mem_singleton, Prod.mk.injEq, he, false_and, ↓reduceIte]
    exact h other fields deadline hslot y v hy

/-- Claiming keys in a row, on whatever is there. -/
theorem IndexedAtMost.claimAll (h : b.IndexedAtMost space o) (now : Nat) (fullName : String)
    (claims : List (String × String)) :
    ((claims.map (claimCommand space fullName)).foldl (fun b c => b.apply now c) b).IndexedAtMost
      space (o.claim claims fullName) := by
  induction claims generalizing b o with
  | nil =>
    rw [Owners.claim_nil]
    exact h
  | cons c rest ih =>
    rw [Owners.claim_cons]
    exact ih (h.claim now fullName c.1 c.2)

/-- Claims make no plain bytes. -/
theorem string_of_claimAll {now : Nat} {fullName name : String} {claims : List (String × String)}
    {value : Bytes} {deadline : Option Nat}
    (h : ((claims.map (claimCommand space fullName)).foldl
      (fun b c => b.apply now c) b).slots[name]? = some ⟨.string value, deadline⟩) :
    b.slots[name]? = some ⟨.string value, deadline⟩ := by
  induction claims generalizing b with
  | nil => exact h
  | cons c rest ih => exact string_of_apply_hset (ih h)

end IndexedAtMost

end Keyspace

end SealedStore
