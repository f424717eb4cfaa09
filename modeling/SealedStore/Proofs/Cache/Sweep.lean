import SealedStore.Cache.Basic
import SealedStore.Proofs.Action

set_option autoImplicit false

/-!
# One pass over a cache

When a cache is optimized, the entries of a snapshot fall into three groups: those that are past
their greatest age, those that are too many, and those that stay.  However the snapshot is ordered,
no entry is in two groups (`nodup_picked`), the entries that were picked go and all others stay as
they are (`getElem?_swept`), and each entry that goes is counted once (`tally_swept`).
-/

namespace SealedStore.Cache

variable {V : Type}

/-! ## Ranking -/

theorem insertRanked_perm (e : String × Entry V) (ranked : List (String × Entry V)) :
    (insertRanked e ranked).Perm (e :: ranked) := by
  induction ranked with
  | nil => exact .refl _
  | cons first rest ih =>
    unfold insertRanked
    split
    · exact .refl _
    · exact (ih.cons first).trans (.swap e first rest)

namespace Ranking

/-- The entries that were ranked. -/
def all (r : Ranking V) : List (String × Entry V) := r.best ++ r.victims

/-- Ranking an entry loses none. -/
theorem all_add (places : Nat) (r : Ranking V) (e : String × Entry V) :
    (r.add places e).all.Perm (e :: r.all) := by
  have hinsert : (insertRanked e r.best ++ r.victims).Perm (e :: r.all) :=
    (insertRanked_perm e r.best).append_right r.victims
  unfold add all
  simp only
  split
  · have hsplit : (insertRanked e r.best).drop 1 ++ (r.victims ++ (insertRanked e r.best).take 1) =
        ((insertRanked e r.best).drop 1 ++ r.victims) ++ (insertRanked e r.best).take 1 := by
      rw [List.append_assoc]
    rw [hsplit]
    refine List.Perm.trans ?_ hinsert
    refine List.perm_append_comm.trans ?_
    rw [← List.append_assoc, List.take_append_drop]
  · exact hinsert

theorem all_foldl_add (places : Nat) (entries : List (String × Entry V)) (r : Ranking V) :
    (entries.foldl (add places) r).all.Perm (entries ++ r.all) := by
  induction entries generalizing r with
  | nil => exact .refl _
  | cons e rest ih =>
    refine (ih (r.add places e)).trans ?_
    exact ((all_add places r e).append_left rest).trans List.perm_middle

end Ranking

/-- The entries that are kept and those of lowest rank are all entries. -/
theorem exists_perm_lowestRanked (entries : List (String × Entry V)) (keep : Nat) :
    ∃ kept, (kept ++ lowestRanked entries keep).Perm entries := by
  unfold lowestRanked
  split
  · exact ⟨entries, by rw [List.append_nil]⟩
  · refine ⟨(entries.foldl (Ranking.add keep) {}).best, ?_⟩
    have hall := Ranking.all_foldl_add keep entries {}
    rwa [show Ranking.all ({} : Ranking V) = [] from rfl, List.append_nil] at hall

/-! ## The groups of a snapshot -/

theorem perm_split (c : Cache V) (snapshot : List (String × Entry V)) :
    ((c.split snapshot).1 ++ (c.split snapshot).2).Perm snapshot := by
  unfold split
  split
  · rw [List.append_nil]
  · unfold splitExpired
    rw [List.partition_eq_filter_filter]
    exact List.filter_append_perm _ snapshot

/-- The entries of a snapshot are those that stay, those that are too many and those that are past
their greatest age. -/
theorem exists_perm_picked (c : Cache V) (snapshot : List (String × Entry V)) :
    ∃ kept, (kept ++ (c.victims snapshot ++ c.expired snapshot)).Perm snapshot := by
  have hlive : ∃ kept, (kept ++ c.victims snapshot).Perm (c.split snapshot).1 := by
    unfold victims
    simp only
    split
    · exact exists_perm_lowestRanked _ _
    · exact ⟨(c.split snapshot).1, by rw [List.append_nil]⟩
  obtain ⟨kept, hkept⟩ := hlive
  refine ⟨kept, ?_⟩
  rw [← List.append_assoc]
  exact (hkept.append_right (c.expired snapshot)).trans (c.perm_split snapshot)

/-! ## Removing what was picked -/

/-- The keys of entries. -/
def keysOf (entries : List (String × Entry V)) : List String := entries.map Prod.fst

@[simp] theorem keysOf_cons (e : String × Entry V) (rest : List (String × Entry V)) :
    keysOf (e :: rest) = e.1 :: keysOf rest := rfl

@[simp] theorem keysOf_append (entries rest : List (String × Entry V)) :
    keysOf (entries ++ rest) = keysOf entries ++ keysOf rest := List.map_append

/-- The size after an entry that is there is removed. -/
theorem size_erase_add_one {entries : Std.ExtTreeMap String (Entry V)} {key : String}
    (h : entries.contains key = true) : (entries.erase key).size + 1 = entries.size := by
  have hmem : key ∈ entries.keys := Std.ExtTreeMap.mem_keys.2 (Std.ExtTreeMap.mem_iff_contains.2 h)
  have hpos : 0 < entries.keys.length := List.length_pos_of_mem hmem
  rw [Std.ExtTreeMap.length_keys] at hpos
  rw [Std.ExtTreeMap.size_erase, if_pos h]
  omega

section Removed

variable (left : Std.ExtTreeMap String (Entry V) × Nat)

theorem getElem?_removeCounted (e : String × Entry V) (key : String) :
    (removeCounted left e).1[key]? = if key = e.1 then none else left.1[key]? := by
  unfold removeCounted
  by_cases hkey : key = e.1
  · subst hkey
    rw [if_pos rfl]
    split
    · exact Std.ExtTreeMap.getElem?_erase_self
    · rename_i h
      exact Std.ExtTreeMap.getElem?_eq_none fun hmem => h (Std.ExtTreeMap.mem_iff_contains.1 hmem)
  · rw [if_neg hkey]
    split
    · rw [Std.ExtTreeMap.getElem?_erase]
      simp [Ne.symm hkey]
    · rfl

theorem size_removeCounted (e : String × Entry V) :
    (removeCounted left e).1.size + (removeCounted left e).2 = left.1.size + left.2 := by
  unfold removeCounted
  split
  · rename_i h
    have hsize := size_erase_add_one h
    simp only
    omega
  · rfl

theorem getElem?_foldl_removeCounted (picked : List (String × Entry V)) (key : String) :
    (picked.foldl removeCounted left).1[key]? =
      if key ∈ keysOf picked then none else left.1[key]? := by
  induction picked generalizing left with
  | nil => rfl
  | cons e rest ih =>
    rw [List.foldl_cons, ih, getElem?_removeCounted]
    rw [keysOf_cons]
    by_cases hrest : key ∈ keysOf rest
    · rw [if_pos hrest, if_pos (List.mem_cons_of_mem _ hrest)]
    · simp [hrest]

theorem size_foldl_removeCounted (picked : List (String × Entry V)) :
    (picked.foldl removeCounted left).1.size + (picked.foldl removeCounted left).2 =
      left.1.size + left.2 := by
  induction picked generalizing left with
  | nil => rfl
  | cons e rest ih => rw [List.foldl_cons, ih, size_removeCounted]

/-- Different entries that are there are all counted. -/
theorem count_foldl_removeCounted {picked : List (String × Entry V)}
    (hnodup : (keysOf picked).Nodup) (hmem : ∀ key ∈ keysOf picked, left.1[key]?.isSome) :
    (picked.foldl removeCounted left).2 = left.2 + picked.length := by
  induction picked generalizing left with
  | nil => rfl
  | cons e rest ih =>
    obtain ⟨hfresh, hrest⟩ := List.nodup_cons.1 hnodup
    have hthere : left.1.contains e.1 = true := by
      rw [Std.ExtTreeMap.contains_eq_isSome_getElem?]
      exact hmem e.1 List.mem_cons_self
    have hcount : (removeCounted left e).2 = left.2 + 1 := by
      rw [removeCounted, if_pos hthere]
    have hstill : ∀ key ∈ keysOf rest, (removeCounted left e).1[key]?.isSome := by
      intro key hkey
      have hne : key ≠ e.1 := fun h => hfresh (h ▸ hkey)
      rw [getElem?_removeCounted, if_neg hne]
      exact hmem key (List.mem_cons_of_mem _ hkey)
    rw [List.foldl_cons, ih _ hrest hstill, hcount, List.length_cons]
    omega

end Removed

section Picked

variable (entries : Std.ExtTreeMap String (Entry V)) (picked : List (String × Entry V))

theorem getElem?_removePicked (key : String) :
    (removePicked entries picked).1[key]? =
      if key ∈ keysOf picked then none else entries[key]? :=
  getElem?_foldl_removeCounted (entries, 0) picked key

theorem size_removePicked :
    (removePicked entries picked).1.size + (removePicked entries picked).2 = entries.size :=
  size_foldl_removeCounted (entries, 0) picked

theorem count_removePicked (hnodup : (keysOf picked).Nodup)
    (hmem : ∀ key ∈ keysOf picked, entries[key]?.isSome) :
    (removePicked entries picked).2 = picked.length := by
  have hcount := count_foldl_removeCounted (entries, 0) hnodup hmem
  rwa [Nat.zero_add] at hcount

end Picked

/-! ## The pass -/

section Pass

variable {c : Cache V} {snapshot : List (String × Entry V)}

theorem nodup_keys_of_perm (h : snapshot.Perm c.entries.toList) : (keysOf snapshot).Nodup := by
  have hkeys : (keysOf snapshot).Perm c.entries.keys := by
    rw [← Std.ExtTreeMap.map_fst_toList_eq_keys]
    exact h.map Prod.fst
  exact hkeys.nodup_iff.2 Std.ExtTreeMap.nodup_keys

/-- No entry is picked twice: none that is past its greatest age is also too many. -/
theorem nodup_picked (h : snapshot.Perm c.entries.toList) :
    (keysOf (c.expired snapshot) ++ keysOf (c.victims snapshot)).Nodup := by
  obtain ⟨kept, hperm⟩ := c.exists_perm_picked snapshot
  have hall : (keysOf (kept ++ (c.victims snapshot ++ c.expired snapshot))).Nodup :=
    (hperm.map Prod.fst).nodup_iff.2 (nodup_keys_of_perm h)
  rw [keysOf_append, keysOf_append] at hall
  exact List.perm_append_comm.nodup_iff.1 (List.nodup_append.1 hall).2.1

/-- What is picked is there. -/
theorem isSome_of_picked (h : snapshot.Perm c.entries.toList) {key : String}
    (hkey : key ∈ keysOf (c.expired snapshot) ∨ key ∈ keysOf (c.victims snapshot)) :
    c.entries[key]?.isSome := by
  obtain ⟨kept, hperm⟩ := c.exists_perm_picked snapshot
  have hmem : key ∈ keysOf (kept ++ (c.victims snapshot ++ c.expired snapshot)) := by
    rw [keysOf_append, keysOf_append, List.mem_append, List.mem_append]
    exact .inr hkey.symm
  have htoList : key ∈ c.entries.toList.map Prod.fst :=
    ((hperm.trans h).map Prod.fst).mem_iff.1 hmem
  rw [Std.ExtTreeMap.map_fst_toList_eq_keys, Std.ExtTreeMap.mem_keys] at htoList
  exact Std.ExtTreeMap.mem_iff_isSome_getElem?.1 htoList

/-- The cache after a pass. -/
def swept (c : Cache V) (snapshot : List (String × Entry V)) : Cache V :=
  ((sweep snapshot).runOn c).2

theorem swept_eq (c : Cache V) (snapshot : List (String × Entry V)) :
    c.swept snapshot =
      let unexpired := removePicked c.entries (c.expired snapshot)
      let kept := removePicked unexpired.1 (c.victims snapshot)
      { c with
        entries := kept.1
        tally := { c.tally with
          expirations := c.tally.expirations + unexpired.2
          evictions := c.tally.evictions + kept.2 } } := by
  unfold swept sweep
  rw [Action.runOn_update]
  simp only
  split
  · rename_i h
    -- With nothing picked the cache is left as it is, which is what removing nothing does.
    rw [Bool.and_eq_true, List.isEmpty_iff, List.isEmpty_iff] at h
    rw [h.1, h.2]
    rfl
  · rfl

/-- What was picked goes; all other entries stay as they are. -/
theorem getElem?_swept (c : Cache V) (snapshot : List (String × Entry V)) (key : String) :
    (c.swept snapshot).entries[key]? =
      if key ∈ keysOf (c.expired snapshot) ∨ key ∈ keysOf (c.victims snapshot) then none
      else c.entries[key]? := by
  rw [swept_eq]
  simp only [getElem?_removePicked]
  by_cases hv : key ∈ keysOf (c.victims snapshot)
  · simp [hv]
  · by_cases he : key ∈ keysOf (c.expired snapshot) <;> simp [hv, he]

/-- Each entry that was picked is there to be removed, and is counted. -/
theorem count_picked (h : snapshot.Perm c.entries.toList) :
    (removePicked c.entries (c.expired snapshot)).2 = (c.expired snapshot).length ∧
      (removePicked (removePicked c.entries (c.expired snapshot)).1 (c.victims snapshot)).2 =
        (c.victims snapshot).length := by
  obtain ⟨hexpired, hvictims, hapart⟩ := List.nodup_append.1 (nodup_picked h)
  have hstill : ∀ key ∈ keysOf (c.victims snapshot),
      (removePicked c.entries (c.expired snapshot)).1[key]?.isSome := by
    intro key hkey
    have hnot : key ∉ keysOf (c.expired snapshot) := fun hmem => hapart key hmem key hkey rfl
    rw [getElem?_removePicked, if_neg hnot]
    exact isSome_of_picked h (.inr hkey)
  constructor
  · exact count_removePicked _ _ hexpired fun key hkey => isSome_of_picked h (.inl hkey)
  · exact count_removePicked _ _ hvictims hstill

/-- Each entry that goes is counted once, for the one reason that it was picked for. -/
theorem tally_swept (h : snapshot.Perm c.entries.toList) :
    (c.swept snapshot).tally =
      { c.tally with
        expirations := c.tally.expirations + (c.expired snapshot).length
        evictions := c.tally.evictions + (c.victims snapshot).length } := by
  obtain ⟨hexpired, hvictims⟩ := count_picked h
  rw [swept_eq]
  simp only [hexpired, hvictims]

/-- The size of a cache goes down by what the pass counts. -/
theorem size_swept (c : Cache V) (snapshot : List (String × Entry V)) :
    (c.swept snapshot).size + (c.swept snapshot).tally.expirations +
        (c.swept snapshot).tally.evictions =
      c.size + c.tally.expirations + c.tally.evictions := by
  have hexpired := size_removePicked c.entries (c.expired snapshot)
  have hvictims := size_removePicked (removePicked c.entries (c.expired snapshot)).1
    (c.victims snapshot)
  rw [swept_eq]
  simp only [size]
  omega

end Pass

end SealedStore.Cache
