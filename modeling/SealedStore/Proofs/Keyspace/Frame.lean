import SealedStore.Proofs.Keyspace.Commit
import SealedStore.Proofs.Keyspace.Slots

set_option autoImplicit false

/-!
# What commands leave alone

A command touches the slot of its own key and no other, and fields that are added to a hash leave
its other fields in place.  So commands in a row show only under the names that they write.
-/

namespace SealedStore.Keyspace

section Frame

variable {b b' : Keyspace} {now : Nat} {tx : Transaction} {name : String}

/-! ## Slots -/

theorem slots_apply_hset_of_ne (b : Keyspace) (now : Nat) {key name : String}
    (fields : List (String × Bytes)) (hname : name ≠ key) :
    (b.apply now (.hset key fields)).slots[name]? = b.slots[name]? := by
  simp only [apply]
  split
  · rw [slots_put, if_neg hname]
  · rw [slots_put, if_neg hname]
  · rfl

theorem slots_apply_of_ne (b : Keyspace) (now : Nat) {c : Command} (h : name ≠ c.key) :
    (b.apply now c).slots[name]? = b.slots[name]? := by
  cases c with
  | set key value ttl => exact (slots_put b key _ name).trans (if_neg h)
  | hset key fields => exact slots_apply_hset_of_ne b now fields h
  | del key => exact (slots_drop b key name).trans (if_neg h)

theorem slots_foldl_of_ne (b : Keyspace) (now : Nat) (h : ∀ c ∈ tx, name ≠ c.key) :
    (tx.foldl (fun b c => b.apply now c) b).slots[name]? = b.slots[name]? := by
  induction tx generalizing b with
  | nil => rfl
  | cons c rest ih =>
    rw [List.foldl_cons, ih _ fun d hd => h d (List.mem_cons_of_mem c hd)]
    exact slots_apply_of_ne b now (h c List.mem_cons_self)

/-- Fields for a key that holds bytes are refused.  So in a transaction that is accepted no fields
are added under a name that bytes were put under before. -/
theorem ne_key_of_check {shapes : String → Option Shape} (hshape : shapes name = some .string)
    (hfields : ∀ c ∈ tx, ∃ key fields, c = .hset key fields) (hcheck : tx.check shapes = .ok ()) :
    ∀ c ∈ tx, name ≠ c.key := by
  induction tx generalizing shapes with
  | nil => exact fun c hc => absurd hc List.not_mem_nil
  | cons c rest ih =>
    obtain ⟨key, fields, rfl⟩ := hfields c List.mem_cons_self
    have hne : name ≠ key := by
      rintro rfl
      simp only [Transaction.check, Command.key, hshape, Command.shapeAfter] at hcheck
      cases hcheck
    simp only [Transaction.check] at hcheck
    split at hcheck
    · cases hcheck
    · intro d hd
      rcases List.mem_cons.1 hd with rfl | hd
      · exact hne
      · refine ih ?_ (fun c hc => hfields c (List.mem_cons_of_mem _ hc)) hcheck d hd
        exact (if_neg hne).trans hshape

/-- Bytes that are put in place before fields are added are there after the commit. -/
theorem slots_of_commit_set {raw : Bytes}
    (hfields : ∀ c ∈ tx, ∃ key fields, c = .hset key fields)
    (hcommit : b.commit now (.set name raw none :: tx) = .ok b') :
    b'.slots[name]? = some ⟨.string raw, none⟩ := by
  have hcheck : tx.check (fun k => if k = name then some .string else b.shape? now k) = .ok () := by
    unfold commit at hcommit
    split at hcommit
    · cases hcommit
    · assumption
  rw [← commit_ok hcommit, List.foldl_cons,
    slots_foldl_of_ne _ _ (ne_key_of_check (if_pos rfl) hfields hcheck)]
  exact (slots_put b name _ name).trans (if_pos rfl)

/-- Fields that replace what lay under a name are there after the commit, if there are any. -/
theorem slots_of_commit_fields {fields : List (String × Bytes)}
    (hcommit : b.commit now (.del name :: if fields = [] then [] else [.hset name fields]) =
      .ok b') :
    b'.slots[name]? =
      if fields = [] then none else some ⟨.hash (Std.ExtTreeMap.insertMany ∅ fields), none⟩ := by
  have hdel : b.apply now (.del name) = b.drop name := rfl
  rw [← commit_ok hcommit, List.foldl_cons, hdel]
  split_ifs with hnone
  · exact (slots_drop b name name).trans (if_pos rfl)
  · rw [List.foldl_cons, List.foldl_nil]
    simp only [apply, live?_drop_self]
    exact (slots_put _ name _ name).trans (if_pos rfl)

/-- Fields that replaced what lay under a name are read, and no others. -/
theorem fields_of_commit_fields {fields : List (String × Bytes)}
    (hcommit : b.commit now (.del name :: if fields = [] then [] else [.hset name fields]) =
      .ok b') (later : Nat) :
    b'.fields later name = .ok (Std.ExtTreeMap.insertMany ∅ fields) := by
  unfold Keyspace.fields live?
  rw [slots_of_commit_fields hcommit]
  split_ifs with hnone
  · rw [hnone]
    rfl
  · rfl

/-- Fields that replaced what lay under a name do not expire. -/
theorem lifetime_of_commit_fields {fields : List (String × Bytes)}
    (hcommit : b.commit now (.del name :: if fields = [] then [] else [.hset name fields]) =
      .ok b') (later : Nat) :
    b'.lifetime later name = if fields = [] then .missing else .persistent := by
  unfold lifetime live?
  rw [slots_of_commit_fields hcommit]
  split_ifs <;> rfl

/-! ## Fields -/

section Field

variable {x : String} {v : Bytes}

theorem insert_field (fields : Fields) (x : String) (v : Bytes) (y : String) :
    (Std.ExtTreeMap.insertMany fields [(x, v)])[y]? = if y = x then some v else fields[y]? := by
  rw [Std.ExtTreeMap.insertMany_list_singleton, Std.ExtTreeMap.getElem?_insert]
  by_cases h : y = x
  · subst h
    simp
  · simp [h, Ne.symm h]

/-- A field of a hash that fields were added to is one of them, or it was there before. -/
theorem mem_of_insertMany {fields : Fields} {added : List (String × Bytes)}
    (h : (Std.ExtTreeMap.insertMany fields added)[x]? = some v) :
    (x, v) ∈ added ∨ fields[x]? = some v := by
  induction added generalizing fields with
  | nil => exact .inr h
  | cons first rest ih =>
    obtain ⟨y, w⟩ := first
    rw [Std.ExtTreeMap.insertMany_cons] at h
    rcases ih h with hrest | hfield
    · exact .inl (List.mem_cons_of_mem _ hrest)
    · rw [← Std.ExtTreeMap.insertMany_list_singleton, insert_field] at hfield
      split at hfield
      · rename_i hname
        cases hfield
        exact .inl (hname ▸ List.mem_cons_self)
      · exact .inr hfield

theorem field_of_slots (h : b'.slots[name]? = b.slots[name]?) :
    b'.field now name x = b.field now name x := by
  unfold field fields
  rw [live?_of_slots h]

/-- Another field is added to a live hash. -/
theorem field_apply_hset {y : String} {w : Bytes} (hne : x ≠ y)
    (h : b.field now name x = .ok (some v)) :
    (b.apply now (.hset name [(y, w)])).field now name x = .ok (some v) := by
  obtain ⟨fields, deadline, hlive, hx⟩ := field_eq_some.1 h
  have happly : b.apply now (.hset name [(y, w)]) =
      b.put name ⟨.hash (fields.insertMany [(y, w)]), deadline⟩ := by
    simp only [apply, hlive]
  have hlives : Slot.isExpired ⟨.hash fields, deadline⟩ now = false := isExpired_of_live? hlive
  refine field_eq_some.2 ⟨fields.insertMany [(y, w)], deadline, ?_, ?_⟩
  · -- The deadline, which decides whether the hash is live, stays.
    rw [happly, live?_put_self]
    exact if_neg (Bool.not_eq_true _ ▸ hlives)
  · rw [insert_field, if_neg hne]
    exact hx

/-- A command spares a field of a hash: it writes under another name, or adds another field. -/
def Spares (name x : String) (c : Command) : Prop :=
  name ≠ c.key ∨ ∃ y w, c = .hset name [(y, w)] ∧ x ≠ y

theorem field_foldl_of_spares (hspares : ∀ c ∈ tx, Spares name x c)
    (h : b.field now name x = .ok (some v)) :
    (tx.foldl (fun b c => b.apply now c) b).field now name x = .ok (some v) := by
  induction tx generalizing b with
  | nil => exact h
  | cons c rest ih =>
    rw [List.foldl_cons]
    refine ih (fun d hd => hspares d (List.mem_cons_of_mem c hd)) ?_
    rcases hspares c List.mem_cons_self with hname | ⟨y, w, rfl, hne⟩
    · rw [field_of_slots (slots_apply_of_ne b now hname)]
      exact h
    · exact field_apply_hset hne h

end Field

end Frame

end SealedStore.Keyspace
