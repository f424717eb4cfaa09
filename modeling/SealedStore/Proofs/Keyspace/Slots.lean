import Mathlib.Data.Finset.Card
import SealedStore.Keyspace.Basic

set_option autoImplicit false

/-!
# Slots after a write

What lies under a name after slots were put, dropped and deleted, past their deadline or not.  A
deletion counts each live key once, however often it is named (`delete_fst`).
-/

namespace SealedStore.Keyspace

theorem ext_slots {s t : Keyspace} (h : ∀ name : String, s.slots[name]? = t.slots[name]?) :
    s = t := by
  cases s
  cases t
  congr 1
  exact Std.ExtTreeMap.ext_getElem? h

@[simp] theorem slots_put (s : Keyspace) (key : String) (slot : Slot) (name : String) :
    (s.put key slot).slots[name]? = if name = key then some slot else s.slots[name]? := by
  unfold put
  rw [Std.ExtTreeMap.getElem?_insert]
  by_cases h : name = key
  · subst h
    simp
  · simp [h, Ne.symm h]

@[simp] theorem slots_drop (s : Keyspace) (key name : String) :
    (s.drop key).slots[name]? = if name = key then none else s.slots[name]? := by
  unfold drop
  rw [Std.ExtTreeMap.getElem?_erase]
  by_cases h : name = key
  · subst h
    simp
  · simp [h, Ne.symm h]

/-- Keyspaces that agree but for one key. -/
theorem slots_of_drop_eq {s t : Keyspace} {key name : String} (h : s.drop key = t.drop key)
    (hname : name ≠ key) : s.slots[name]? = t.slots[name]? := by
  have hslots := congrArg (fun u : Keyspace => u.slots[name]?) h
  simpa [hname] using hslots

/-- What is seen of a key depends on its slot alone. -/
theorem live?_of_slots {s t : Keyspace} {key : String} (h : t.slots[key]? = s.slots[key]?)
    (now : Nat) : t.live? now key = s.live? now key := by
  unfold live?
  rw [h]

/-! ## Reading -/

section Reading

variable {b : Keyspace} {now : Nat} {key : String}

theorem field_eq_some {x : String} {v : Bytes} :
    b.field now key x = .ok (some v) ↔
      ∃ fields deadline, b.live? now key = some ⟨.hash fields, deadline⟩ ∧ fields[x]? = some v := by
  unfold Keyspace.field Keyspace.fields
  rcases b.live? now key with _ | ⟨value | fields, deadline⟩ <;> simp [Except.map]

theorem get_eq_some {raw : Bytes} :
    b.get now key = .ok (some raw) ↔
      ∃ deadline, b.live? now key = some ⟨.string raw, deadline⟩ := by
  unfold Keyspace.get
  rcases b.live? now key with _ | ⟨value | fields, deadline⟩ <;> simp

/-- Reading in bulk finds the bytes that reading one by one finds. -/
theorem bytes?_eq_some {raw : Bytes} :
    b.bytes? now key = some raw ↔ b.get now key = .ok (some raw) := by
  unfold Keyspace.bytes? Keyspace.get
  rcases b.live? now key with _ | ⟨value | fields, deadline⟩ <;> simp

theorem contains_of_get {raw : Bytes} (h : b.get now key = .ok (some raw)) :
    b.contains now key = true := by
  obtain ⟨deadline, hlive⟩ := get_eq_some.1 h
  unfold contains
  rw [hlive]
  rfl

theorem mem_scan {pattern : String} :
    key ∈ b.scan now pattern ↔ b.contains now key = true ∧ Glob.accepts pattern key = true := by
  have hthere : b.contains now key = true → key ∈ b.slots := by
    intro h
    obtain ⟨slot, hlive⟩ := Option.isSome_iff_exists.1 h
    exact Std.ExtTreeMap.mem_iff_isSome_getElem?.2
      (by rw [Option.eq_some_of_filter_eq_some hlive]; rfl)
  unfold scan
  rw [List.mem_filter, Std.ExtTreeMap.mem_keys, Bool.and_eq_true]
  exact ⟨fun h => h.2, fun h => ⟨hthere h.1, h⟩⟩

/-- A scan names no key twice. -/
theorem nodup_scan (b : Keyspace) (now : Nat) (pattern : String) : (b.scan now pattern).Nodup := by
  have hkeys : b.slots.keys.Nodup :=
    Std.ExtTreeMap.distinct_keys.imp fun hne he => hne (by rw [he]; exact Std.ReflCmp.compare_self)
  exact hkeys.filter _

end Reading

/-! ## Deleting -/

theorem delete_cons (s : Keyspace) (now : Nat) (key : String) (rest : List String) :
    s.delete now (key :: rest) =
      (((s.drop key).delete now rest).1 + (if s.contains now key then 1 else 0),
        ((s.drop key).delete now rest).2) := rfl

@[simp] theorem slots_delete (s : Keyspace) (now : Nat) (keys : List String) (name : String) :
    (s.delete now keys).2.slots[name]? = if name ∈ keys then none else s.slots[name]? := by
  induction keys generalizing s with
  | nil => simp [delete]
  | cons key rest ih =>
    rw [delete_cons, ih, slots_drop]
    by_cases hr : name ∈ rest
    · simp [hr]
    · simp [hr]

theorem contains_drop (s : Keyspace) (now : Nat) (key name : String) :
    (s.drop key).contains now name = (decide (name ≠ key) && s.contains now name) := by
  unfold contains
  by_cases h : name = key
  · subst h
    simp
  · simp [live?_drop_of_ne s now (Ne.symm h), h]

/-- A deletion counts the distinct keys that were live. -/
theorem delete_fst (s : Keyspace) (now : Nat) (keys : List String) :
    (s.delete now keys).1 = (keys.toFinset.filter fun key => s.contains now key).card := by
  induction keys generalizing s with
  | nil => rfl
  | cons key rest ih =>
    have hrest : rest.toFinset.filter (fun name => (s.drop key).contains now name) =
        (rest.toFinset.filter fun name => s.contains now name).erase key := by
      ext name
      simp only [contains_drop, Finset.mem_filter, Finset.mem_erase, Bool.and_eq_true,
        decide_eq_true_eq]
      tauto
    rw [delete_cons, ih, hrest, List.toFinset_cons, Finset.filter_insert]
    cases hk : s.contains now key with
    | false =>
      have hnot : key ∉ rest.toFinset.filter fun name => s.contains now name := by simp [hk]
      simp [Finset.erase_eq_of_notMem hnot]
    | true =>
      -- The key is counted here and not again, should it come once more.
      simp only [↓reduceIte]
      rw [← Finset.card_insert_of_notMem (Finset.notMem_erase key _)]
      congr 1
      ext name
      by_cases hn : name = key <;> simp [hn]

end SealedStore.Keyspace
