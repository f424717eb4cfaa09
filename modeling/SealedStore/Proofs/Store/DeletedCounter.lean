import SealedStore.Proofs.Store.RecordFrame

set_option autoImplicit false

/-!
# Deletions and counters

A deletion resolves its keys like every other call and takes away what lies under them, counters
included: the names of counters are refused where values and records are written, not where keys are
deleted.  Main statement: a deletion leaves the counter of a namespace as it was unless one of its
keys spells the counter, and then the numbers begin with one again (`counter_of_deletion`).
-/

namespace SealedStore

/-! ## Ways to spell a counter -/

namespace Namespace

/-- A key spells the counter of a namespace, under the namespace that applies to it. -/
inductive SpellsCounter (space : String) : Option String → String → Prop
  /-- Where no namespace applies, by its full name. -/
  | bare : SpellsCounter space none (sequenceKey space)
  /-- In the namespace itself, by the reserved word. -/
  | own : SpellsCounter space (some space) "sequence"
  /-- In a namespace that the one of the counter lies in, by what is left of its full name. -/
  | nested (outer inner : String) (h : space = key outer inner) :
    SpellsCounter space (some outer) (sequenceKey inner)

/-- Two texts, each with a separator in it, are one, where none comes later in the second: they are
cut at the same place, or the first is cut sooner and what it has left goes on to that place. -/
theorem append_cons_eq_append_cons_iff {α : Type} {x : α} {a b c d : List α} (hd : x ∉ d) :
    a ++ x :: b = c ++ x :: d ↔ a = c ∧ b = d ∨ ∃ e, c = a ++ x :: e ∧ b = e ++ x :: d := by
  constructor
  · intro h
    rcases List.append_eq_append_iff.1 h with ⟨e, rfl, he⟩ | ⟨e, rfl, he⟩
    · cases e with
      | nil => exact .inl ⟨by simp, (List.cons.inj he).2⟩
      | cons y e =>
        obtain ⟨rfl, hb⟩ := List.cons.inj he
        exact .inr ⟨e, rfl, hb⟩
    · cases e with
      | nil => exact .inl ⟨by simp, ((List.cons.inj he).2).symm⟩
      | cons y e =>
        -- Were the first cut later, its separator would stand in what the second has left.
        obtain ⟨rfl, hrest⟩ := List.cons.inj he
        exact absurd (hrest ▸ by simp) hd
  · rintro (⟨rfl, rfl⟩ | ⟨e, rfl, rfl⟩)
    · rfl
    · simp

theorem toList_key (space name : String) :
    (key space name).toList = space.toList ++ ':' :: name.toList := by
  simp [key]

theorem key_eq_sequenceKey_iff {outer name space : String} :
    key outer name = sequenceKey space ↔ outer = space ∧ name = "sequence" ∨
      ∃ inner, space = key outer inner ∧ name = sequenceKey inner := by
  rw [← String.toList_inj, sequenceKey, toList_key, toList_key,
    append_cons_eq_append_cons_iff (by decide), String.toList_inj, String.toList_inj]
  refine or_congr_right ⟨?_, ?_⟩
  · rintro ⟨inner, hspace, hname⟩
    refine ⟨String.ofList inner, String.toList_inj.1 ?_, String.toList_inj.1 ?_⟩
    · rw [toList_key, String.toList_ofList, hspace]
    · rw [sequenceKey, toList_key, String.toList_ofList, hname]
  · rintro ⟨inner, rfl, rfl⟩
    exact ⟨inner.toList, toList_key outer inner, toList_key inner "sequence"⟩

/-- The keys that resolve to the counter of a namespace are those that spell it. -/
theorem resolve_eq_sequenceKey_iff {space name : String} {explicit default : Option String} :
    resolve name explicit default = sequenceKey space ↔
      SpellsCounter space (effective? explicit default) name := by
  unfold resolve
  cases effective? explicit default with
  | none =>
    constructor
    · rintro rfl
      exact .bare
    · rintro ⟨⟩
      rfl
  | some outer =>
    rw [key_eq_sequenceKey_iff]
    constructor
    · rintro (⟨rfl, rfl⟩ | ⟨inner, hspace, rfl⟩)
      · exact .own
      · exact .nested outer inner hspace
    · intro h
      cases h with
      | own => exact .inl ⟨rfl, rfl⟩
      | nested _ inner hspace => exact .inr ⟨inner, hspace, rfl⟩

end Namespace

namespace Store

/-! ## Deletions -/

/-- A store after a deletion of one key or of several, whatever the call answered. -/
inductive Deletes (h : Handle) (s : Store Keyspace) :
    List String → Option String → Store Keyspace → Prop
  | one {key : String} {given : Option String} {a : Answer Bool} {s' : Store Keyspace} :
    (h.delete key given).runOn s = (a, s') → Deletes h s [key] given s'
  | many {keys : List String} {given : Option String} {a : Answer Nat} {s' : Store Keyspace} :
    (h.deleteMany keys given).runOn s = (a, s') → Deletes h s keys given s'

variable {h : Handle} {s s' : Store Keyspace} {keys : List String} {given : Option String}

/-- A deletion takes away what lies under the full names of its keys, and nothing else. -/
theorem Deletes.slots (hdeletes : Deletes h s keys given s') (name : String) :
    s'.backend.slots[name]? =
      if name ∈ keys.map (h.fullName · given) then none else s.backend.slots[name]? := by
  cases hdeletes with
  | one hrun =>
    cases hrun
    exact Keyspace.slots_delete _ _ _ name
  | many hrun =>
    cases hrun
    exact Keyspace.slots_delete _ _ _ name

theorem mem_fullNames_iff {space : String} :
    Namespace.sequenceKey space ∈ keys.map (h.fullName · given) ↔
      ∃ key ∈ keys, Namespace.SpellsCounter space (Namespace.effective? given h.space) key := by
  rw [List.mem_map]
  exact exists_congr fun key => and_congr_right fun _ => Namespace.resolve_eq_sequenceKey_iff

/-- Where no counter is, the next record that is numbered is the first. -/
theorem key_of_missing {scheme : Scheme} {j : Json} {landing : Landing}
    (hsource : scheme.keySource = .sequence)
    (hmissing : s.backend.slots[Namespace.sequenceKey scheme.space]? = none)
    (hrun : (putRecord scheme "" j).runOn s = (.ok landing, s')) : landing.key = "1" := by
  obtain ⟨r, rfl, hlands⟩ := putRecord_lands hrun
  have hdrawn := hlands.drawn
  rw [if_pos ⟨rfl, hsource⟩] at hdrawn
  obtain ⟨i, hi, hkey⟩ := hdrawn
  have hcounts : s.backend.Counts (Namespace.sequenceKey scheme.space) 0 := hmissing
  have hanswer := drawn?_eq_some hi
  rw [Keyspace.incr_of_counts hcounts (by decide), if_pos (by decide)] at hanswer
  obtain rfl : i = 1 := Except.ok.inj hanswer
  exact hkey

end Store

open Store in
/-- A deletion of one key or of several, through any handle and in any store, leaves the counter of
a namespace as it was if none of its keys spells the counter.  If one does, the counter is gone, and
the next record that the namespace numbers gets number one, whatever was numbered before. -/
theorem counter_of_deletion {h : Handle} {s s' : Store Keyspace} {keys : List String}
    {given : Option String} (hdeletes : Deletes h s keys given s') (space : String) :
    let counter := Namespace.sequenceKey space
    let spelled := ∃ key ∈ keys,
      Namespace.SpellsCounter space (Namespace.effective? given h.space) key
    (¬ spelled → s'.backend.slots[counter]? = s.backend.slots[counter]?) ∧
    (spelled → s'.backend.slots[counter]? = none ∧
      ∀ (scheme : Scheme) (j : Json) (landing : Landing) (t : Store Keyspace),
        scheme.space = space → scheme.keySource = .sequence →
          (putRecord scheme "" j).runOn s' = (.ok landing, t) → landing.key = "1") := by
  intro counter spelled
  have hslot := hdeletes.slots counter
  constructor
  · intro hother
    rw [hslot, if_neg fun hmem => hother (mem_fullNames_iff.1 hmem)]
  · intro hspelled
    rw [if_pos (mem_fullNames_iff.2 hspelled)] at hslot
    refine ⟨hslot, ?_⟩
    rintro scheme j landing t rfl hsource hrun
    exact key_of_missing hsource hslot hrun

/-- The counter of a namespace inside that of the handle, spelled in a list of keys. -/
theorem counter_of_deletion_nested :
    let h : Handle := { space := some "shop" }
    let s : Store Keyspace :=
      { backend := ({} : Keyspace).put "shop:orders:sequence" ⟨.string [55], none⟩
        identifiers := fun _ => "" }
    let keys := ["cart", "orders:sequence"]
    let s' := ((h.deleteMany keys none).runOn s).2
    Store.Deletes h s keys none s' ∧
      Namespace.SpellsCounter "shop:orders" (some "shop") "orders:sequence" ∧
      s'.backend.slots["shop:orders:sequence"]? = none := by
  intro h s keys s'
  have hdeletes : Store.Deletes h s keys none s' := .many rfl
  have hspells : Namespace.SpellsCounter "shop:orders" (some "shop") "orders:sequence" :=
    .nested "shop" "orders" rfl
  refine ⟨hdeletes, hspells, ?_⟩
  exact ((counter_of_deletion hdeletes "shop:orders").2 ⟨_, by simp [keys], hspells⟩).1

/-- A number that was handed out is handed out again once the counter was deleted. -/
theorem number_repeats_after_deletion :
    let put mail : Action (Store Keyspace) Landing :=
      Store.putRecord (numberedUsers true) "" (.object [("mail", .text mail)])
    let s : Store Keyspace := { backend := {}, identifiers := fun _ => "" }
    let s₁ := ((put "a@b").runOn s).2
    let s₂ := (((({} : Handle).delete "sequence" (some "users")).runOn s₁)).2
    ((put "a@b").runOn s).1 = .ok ⟨"1", "users:1"⟩ ∧
      s₁.backend.contains 0 "users:sequence" = true ∧
      s₂.backend.contains 0 "users:sequence" = false ∧
      ((put "c@d").runOn s₂).1 = .ok ⟨"1", "users:1"⟩ := by
  intro put s s₁ s₂
  exact ⟨rfl, rfl, rfl, rfl⟩

end SealedStore
