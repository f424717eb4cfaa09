import SealedStore.Proofs.Cache.Rank
import SealedStore.Proofs.Cache.Run

set_option autoImplicit false

/-!
# What is left when a cache is optimized

A pass over a cache comes to this: entries past the greatest age go, the others are sorted by rank,
and the list is cut off a fifth above the limit.  The order in which the map yields its entries is
of no account, and a second pass at the same moment finds nothing to remove (`optimize_trims`).
-/

namespace SealedStore.Cache

variable {V : Type}

/-- Whether an entry is within the greatest age; without one, entries of any age are. -/
def isLive (c : Cache V) (e : String × Entry V) : Bool :=
  c.ttl.nanos = 0 || e.2.age c.clock.unixMillis * 1000000 ≤ c.ttl.nanos

/-- The entries within the greatest age. -/
def live (c : Cache V) : List (String × Entry V) := c.entries.toList.filter c.isLive

/-- What a cache is trimmed to: its live entries, or the first of them by rank if there are more
than a fifth above the limit. -/
def trimmed (c : Cache V) : List (String × Entry V) :=
  let room := c.limit + c.limit / 5
  if c.limit = 0 ∨ c.live.length ≤ room then c.live else (byRank c.live).take room

theorem trimmed_eq (c : Cache V) :
    c.trimmed =
      if c.limit = 0 ∨ c.live.length ≤ retained c.limit then c.live
      else (byRank c.live).take (retained c.limit) := rfl

/-- The numbers of a cache are those that a machine holds: counts and times have 64 bits, and no
map has more entries than addresses have positive values. -/
structure InWords (c : Cache V) : Prop where
  entries : ∀ e ∈ c.entries.toList, e.2.count < 2 ^ 64 ∧ e.2.populated < 2 ^ 64
  size : c.size < 2 ^ 63

/-- Every number that a pass computes fits the word that holds it: the greatest age in milliseconds,
the places of the ranking and one more, the ranks, and the number of removals. -/
structure PassFits (c : Cache V) (snapshot : List (String × Entry V)) : Prop where
  ttl : c.ttl.millis64 = c.ttl.millis
  places : c.limit ≠ 0 → c.limit < (c.split snapshot).1.length → retained c.limit + 1 < 2 ^ 64
  scores : ∀ e ∈ snapshot, e.2.score < 2 ^ 128
  removals : (c.expired snapshot).length + (c.victims snapshot).length < 2 ^ 64

/-! ## The groups of a snapshot -/

section Groups

variable {c : Cache V} {snapshot : List (String × Entry V)}

theorem millis64_eq (httl : c.ttl.millis < 2 ^ 64) : c.ttl.millis64 = c.ttl.millis :=
  Nat.mod_eq_of_lt httl

theorem split_eq (httl : c.ttl.millis < 2 ^ 64) (snapshot : List (String × Entry V)) :
    c.split snapshot = (snapshot.filter c.isLive, snapshot.filter fun e => !c.isLive e) := by
  unfold split
  split
  · rename_i hnone
    have hlive : c.isLive = fun _ => true := by
      funext e
      simp [isLive, hnone]
    simp [hlive]
  · rename_i hsome
    have hlive : ∀ e : String × Entry V,
        decide (e.2.age c.clock.unixMillis ≤ c.ttl.millis) = c.isLive e := by
      intro e
      simp only [isLive, hsome, decide_false, Bool.false_or]
      exact decide_eq_decide.2 (Nat.le_div_iff_mul_le (by decide))
    unfold splitExpired
    rw [millis64_eq httl, List.partition_eq_filter_filter]
    simp only [hlive]
    rfl

theorem victims_eq (httl : c.ttl.millis < 2 ^ 64) (snapshot : List (String × Entry V)) :
    c.victims snapshot =
      if c.limit = 0 ∨ (snapshot.filter c.isLive).length ≤ retained c.limit then []
      else lowestRanked (snapshot.filter c.isLive) (retained c.limit) := by
  have hretained : c.limit ≤ retained c.limit := Nat.le_add_right _ _
  unfold victims
  rw [split_eq httl]
  simp only
  by_cases hlimit : c.limit = 0
  · simp [hlimit]
  · by_cases hfew : (snapshot.filter c.isLive).length ≤ retained c.limit
    · -- Above the limit, but not by a fifth, the ranking picks none.
      have hnone : lowestRanked (snapshot.filter c.isLive) (retained c.limit) = [] := if_pos hfew
      rw [hnone, ite_self, ite_self]
    · rw [if_pos ⟨hlimit, by omega⟩, if_neg (not_or.2 ⟨hlimit, hfew⟩)]

theorem nodup_keys_live (c : Cache V) : (keysOf c.live).Nodup :=
  (nodup_keys_of_perm (c := c) (.refl _)).sublist (List.filter_sublist.map Prod.fst)

/-- Whatever the order of a snapshot, what stays and what goes for its rank are the live entries. -/
theorem perm_trimmed_append_victims (httl : c.ttl.millis < 2 ^ 64)
    (hperm : snapshot.Perm c.entries.toList) : (c.trimmed ++ c.victims snapshot).Perm c.live := by
  have hlive : (snapshot.filter c.isLive).Perm c.live := hperm.filter _
  have hkeys : (keysOf (snapshot.filter c.isLive)).Nodup :=
    (hlive.map Prod.fst).nodup_iff.2 c.nodup_keys_live
  rw [victims_eq httl, hlive.length_eq, trimmed_eq]
  split
  · rw [List.append_nil]
  · rename_i hmany
    rw [← byRank_of_perm c.nodup_keys_live hlive]
    have hlength := hlive.length_eq
    exact (perm_take_byRank hkeys (by omega)).trans hlive

/-- What stays, what goes for its rank and what goes for its age are all entries. -/
theorem perm_trimmed_append_picked (httl : c.ttl.millis < 2 ^ 64)
    (hperm : snapshot.Perm c.entries.toList) :
    (c.trimmed ++ (c.victims snapshot ++ c.expired snapshot)).Perm c.entries.toList := by
  have hexpired : (c.expired snapshot).Perm (c.entries.toList.filter fun e => !c.isLive e) := by
    unfold expired
    rw [split_eq httl]
    exact hperm.filter _
  rw [← List.append_assoc]
  refine ((perm_trimmed_append_victims httl hperm).append hexpired).trans ?_
  exact List.filter_append_perm c.isLive c.entries.toList

theorem length_victims (httl : c.ttl.millis < 2 ^ 64) (hperm : snapshot.Perm c.entries.toList) :
    c.trimmed.length + (c.victims snapshot).length = c.live.length := by
  rw [← List.length_append]
  exact (perm_trimmed_append_victims httl hperm).length_eq

theorem length_expired (httl : c.ttl.millis < 2 ^ 64) (hperm : snapshot.Perm c.entries.toList) :
    c.live.length + (c.expired snapshot).length = c.entries.toList.length := by
  have hlength := (perm_trimmed_append_picked httl hperm).length_eq
  have hlive := length_victims httl hperm
  simp only [List.length_append] at hlength
  omega

end Groups

/-! ## The pass -/

section Pass

variable {c : Cache V} {snapshot : List (String × Entry V)}

/-- Exactly the entries that the cache is trimmed to are there after a pass. -/
theorem getElem?_swept_eq_some (httl : c.ttl.millis < 2 ^ 64)
    (hperm : snapshot.Perm c.entries.toList) {key : String} {e : Entry V} :
    (c.swept snapshot).entries[key]? = some e ↔ (key, e) ∈ c.trimmed := by
  have hall := perm_trimmed_append_picked httl hperm
  have hkeys : (keysOf c.trimmed ++ (keysOf (c.victims snapshot) ++
      keysOf (c.expired snapshot))).Nodup := by
    rw [← keysOf_append, ← keysOf_append]
    exact (hall.map Prod.fst).nodup_iff.2 (nodup_keys_of_perm (.refl _))
  obtain ⟨-, -, hapart⟩ := List.nodup_append.1 hkeys
  have hthere : c.entries[key]? = some e ↔
      (key, e) ∈ c.trimmed ++ (c.victims snapshot ++ c.expired snapshot) := by
    rw [hall.mem_iff, Std.ExtTreeMap.mem_toList_iff_getElem?_eq_some]
  rw [getElem?_swept]
  constructor
  · intro hstays
    split at hstays
    · cases hstays
    · rename_i hpicked
      rcases List.mem_append.1 (hthere.1 hstays) with hmem | hmem
      · exact hmem
      · refine absurd ?_ hpicked
        exact (List.mem_append.1 hmem).symm.imp List.mem_map_of_mem List.mem_map_of_mem
  · intro hmem
    have hkey : key ∈ keysOf c.trimmed := List.mem_map_of_mem hmem
    rw [if_neg, hthere]
    · exact List.mem_append_left _ hmem
    · intro hpicked
      exact hapart key hkey key (List.mem_append.2 hpicked.symm) rfl

theorem perm_swept (httl : c.ttl.millis < 2 ^ 64) (hperm : snapshot.Perm c.entries.toList) :
    (c.swept snapshot).entries.toList.Perm c.trimmed := by
  have htrimmed : c.trimmed.Nodup := by
    have hall := perm_trimmed_append_picked httl hperm
    have hnodup := hall.nodup_iff.2 (nodup_keys_of_perm (c := c) (.refl _)).of_map
    exact (List.nodup_append.1 hnodup).1
  have hswept : (c.swept snapshot).entries.toList.Nodup :=
    (nodup_keys_of_perm (c := c.swept snapshot) (.refl _)).of_map
  refine (List.perm_ext_iff_of_nodup hswept htrimmed).2 fun e => ?_
  rw [Std.ExtTreeMap.mem_toList_iff_getElem?_eq_some, getElem?_swept_eq_some httl hperm]

/-- A pass says whether it picked any entry. -/
theorem runOn_sweep (hperm : snapshot.Perm c.entries.toList) :
    (sweep snapshot).runOn c =
      (.ok (0 < (c.expired snapshot).length + (c.victims snapshot).length), c.swept snapshot) := by
  refine Prod.ext ?_ rfl
  obtain ⟨hexpired, hvictims⟩ := count_picked hperm
  unfold sweep
  rw [Action.runOn_update]
  simp only
  split
  · rename_i h
    rw [Bool.and_eq_true, List.isEmpty_iff, List.isEmpty_iff] at h
    rw [h.1, h.2]
    rfl
  · simp only [hexpired, hvictims]

/-- A pass changes the entries and what is counted, nothing else. -/
theorem swept_eq_with (c : Cache V) (snapshot : List (String × Entry V)) :
    c.swept snapshot =
      { c with entries := (c.swept snapshot).entries, tally := (c.swept snapshot).tally } := by
  rw [swept_eq]

/-- The order in which the map yields its entries is of no account. -/
theorem runOn_sweep_of_perm (httl : c.ttl.millis < 2 ^ 64)
    (hperm : snapshot.Perm c.entries.toList) :
    (sweep snapshot).runOn c = optimize.runOn c := by
  have hexpired := length_expired httl hperm
  have hvictims := length_victims httl hperm
  have hexpired' := length_expired (c := c) httl (.refl _)
  have hvictims' := length_victims (c := c) httl (.refl _)
  have hcounts : (c.expired snapshot).length = (c.expired c.entries.toList).length ∧
      (c.victims snapshot).length = (c.victims c.entries.toList).length := by omega
  have hentries : (c.swept snapshot).entries = (c.swept c.entries.toList).entries := by
    refine Std.ExtTreeMap.ext_getElem? fun key => Option.ext fun e => ?_
    rw [getElem?_swept_eq_some httl hperm, getElem?_swept_eq_some httl (.refl _)]
  have htally : (c.swept snapshot).tally = (c.swept c.entries.toList).tally := by
    rw [tally_swept hperm, tally_swept (.refl _), hcounts.1, hcounts.2]
  rw [runOn_optimize, runOn_sweep hperm, runOn_sweep (.refl _), hcounts.1, hcounts.2,
    swept_eq_with, hentries, htally, ← swept_eq_with]

/-- Entries that a cache is trimmed to are within the greatest age. -/
theorem trimmed_live {e : String × Entry V} (h : e ∈ c.trimmed) : c.isLive e = true := by
  have hlive : e ∈ c.live := by
    rw [trimmed_eq] at h
    split at h
    · exact h
    · exact (perm_byRank c.live).mem_iff.1 (List.mem_of_mem_take h)
  exact (List.mem_filter.1 hlive).2

theorem length_trimmed_le (c : Cache V) : c.limit = 0 ∨ c.trimmed.length ≤ retained c.limit := by
  rw [trimmed_eq]
  split
  · assumption
  · exact .inr (List.length_take_le _ _)

/-- What a pass has left, a pass at the same moment leaves. -/
theorem runOn_sweep_swept (httl : c.ttl.millis < 2 ^ 64) (hperm : snapshot.Perm c.entries.toList)
    {again : List (String × Entry V)} (hagain : again.Perm (c.swept snapshot).entries.toList) :
    (sweep again).runOn (c.swept snapshot) = (.ok false, c.swept snapshot) := by
  have hsame : (c.swept snapshot).ttl = c.ttl ∧ (c.swept snapshot).limit = c.limit ∧
      (c.swept snapshot).isLive = c.isLive := by
    rw [swept_eq_with]
    exact ⟨rfl, rfl, rfl⟩
  have hall : ∀ e ∈ again, (c.swept snapshot).isLive e = true := by
    intro e he
    rw [hsame.2.2]
    exact trimmed_live ((hagain.trans (perm_swept httl hperm)).mem_iff.1 he)
  have hfilter : again.filter (c.swept snapshot).isLive = again := List.filter_eq_self.2 hall
  have httl' : (c.swept snapshot).ttl.millis < 2 ^ 64 := by
    rw [hsame.1]
    exact httl
  have hexpired : (c.swept snapshot).expired again = [] := by
    unfold expired
    rw [split_eq httl']
    refine List.filter_eq_nil_iff.2 fun e he => ?_
    rw [hall e he]
    decide
  have hvictims : (c.swept snapshot).victims again = [] := by
    rw [victims_eq httl', if_pos]
    rw [hfilter, hsame.2.1, (hagain.trans (perm_swept httl hperm)).length_eq]
    exact c.length_trimmed_le
  unfold sweep
  rw [Action.runOn_update, hexpired, hvictims]
  rfl

/-- A pass removes an entry exactly if it picks one. -/
theorem exists_removed_iff (hperm : snapshot.Perm c.entries.toList) :
    (∃ key, c.contains key = true ∧ (c.swept snapshot).contains key = false) ↔
      0 < (c.expired snapshot).length + (c.victims snapshot).length := by
  have hremoved : ∀ key, (c.contains key = true ∧ (c.swept snapshot).contains key = false) ↔
      key ∈ keysOf (c.expired snapshot) ∨ key ∈ keysOf (c.victims snapshot) := by
    intro key
    rw [contains_eq_isSome, contains_eq_isSome, getElem?_swept]
    by_cases hpicked : key ∈ keysOf (c.expired snapshot) ∨ key ∈ keysOf (c.victims snapshot)
    · rw [if_pos hpicked]
      exact ⟨fun _ => hpicked, fun _ => ⟨isSome_of_picked hperm hpicked, rfl⟩⟩
    · rw [if_neg hpicked]
      simp [hpicked]
  simp only [hremoved, ← List.mem_append, ← keysOf_append]
  rw [← List.length_append, List.length_pos_iff_exists_mem]
  constructor
  · rintro ⟨key, hkey⟩
    obtain ⟨e, he, -⟩ := List.mem_map.1 hkey
    exact ⟨e, he⟩
  · rintro ⟨e, he⟩
    exact ⟨e.1, List.mem_map_of_mem he⟩

/-- No number of a pass is too large for its word. -/
theorem passFits_of_inWords (httl : c.ttl.millis < 2 ^ 64) (hperm : snapshot.Perm c.entries.toList)
    (h : c.InWords) : PassFits c snapshot := by
  have hsize : c.entries.toList.length < 2 ^ 63 := by
    rw [Std.ExtTreeMap.length_toList]
    exact h.size
  have hexpired := length_expired httl hperm
  have hvictims := length_victims httl hperm
  refine ⟨millis64_eq httl, fun _ hmany => ?_, fun e he => ?_, by omega⟩
  · have hlive : (c.split snapshot).1.length = c.live.length := by
      rw [split_eq httl]
      exact (hperm.filter _).length_eq
    have hfifth : c.limit / 5 ≤ c.limit := Nat.div_le_self _ _
    unfold retained
    omega
  · obtain ⟨hcount, hpopulated⟩ := h.entries e (hperm.mem_iff.1 he)
    calc e.2.score ≤ e.2.count * 2 ^ 64 := Nat.mul_le_mul_left _ hpopulated.le
      _ < 2 ^ 64 * 2 ^ 64 := (Nat.mul_lt_mul_right (by decide)).2 hcount
      _ = 2 ^ 128 := by decide

end Pass

/-- Optimizing a cache trims it: exactly the entries that `trimmed` lists are there afterwards, as
they were, and the answer tells whether any other was there before.  That does not depend on the
order in which the map yields its entries, on the way no number outgrows its word, and a second pass
at the same moment removes nothing. -/
theorem optimize_trims {c : Cache V} (httl : c.ttl.millis < 2 ^ 64) :
    ∃ (changed : Bool) (d : Cache V), optimize.runOn c = (.ok changed, d) ∧
      (∀ key e, d.entries[key]? = some e ↔ (key, e) ∈ c.trimmed) ∧
      (changed = true ↔ ∃ key, c.contains key = true ∧ d.contains key = false) ∧
      (∀ snapshot, snapshot.Perm c.entries.toList →
        (sweep snapshot).runOn c = (.ok changed, d) ∧ (c.InWords → PassFits c snapshot)) ∧
      (∀ again, again.Perm d.entries.toList → (sweep again).runOn d = (.ok false, d)) := by
  have hrefl : c.entries.toList.Perm c.entries.toList := .refl _
  have hrun := runOn_sweep hrefl
  refine ⟨_, c.swept c.entries.toList, (runOn_optimize c).trans hrun, ?_, ?_, ?_, ?_⟩
  · exact fun key e => getElem?_swept_eq_some httl hrefl
  · rw [decide_eq_true_iff, exists_removed_iff hrefl]
  · intro snapshot hperm
    refine ⟨?_, passFits_of_inWords httl hperm⟩
    rw [runOn_sweep_of_perm httl hperm, runOn_optimize, hrun]
  · exact fun again hagain => runOn_sweep_swept httl hrefl hagain

/-- An entry that is too old goes although it was used often, and of two that are worth the same the
one with the lower key, also when the map yields them the other way round. -/
theorem optimize_trims_tied :
    let c : Cache Nat := {
      entries := .ofList [("a", Entry.mk 7 50 1000), ("b", Entry.mk 8 1 9000),
        ("c", Entry.mk 9 1 9000)]
      limit := 1
      ttl := .ofSeconds 5
      clock := .ofMillis 10000 0 }
    let snapshot := c.entries.toList.reverse
    c.ttl.millis < 2 ^ 64 ∧ c.InWords ∧ PassFits c snapshot ∧
      ∃ d, (sweep snapshot).runOn c = (.ok true, d) ∧ d.entries["a"]? = none ∧
        d.entries["b"]? = none ∧ d.entries["c"]? = some (Entry.mk 9 1 9000) := by
  intro c snapshot
  have httl : c.ttl.millis < 2 ^ 64 := by decide
  have hwords : c.InWords := ⟨by decide +kernel, by decide +kernel⟩
  have htrimmed : c.trimmed = [("c", Entry.mk 9 1 9000)] := by decide +kernel
  obtain ⟨changed, d, -, hkept, hchanged, horder, -⟩ := optimize_trims httl
  obtain ⟨hrun, hfits⟩ := horder snapshot (List.reverse_perm _)
  rw [htrimmed] at hkept
  have hgone : ∀ key, key ≠ "c" → d.entries[key]? = none := by
    intro key hkey
    refine Option.eq_none_iff_forall_ne_some.2 fun e he => hkey ?_
    exact congrArg Prod.fst (List.mem_singleton.1 ((hkept key e).1 he))
  have htrue : changed = true := by
    refine hchanged.2 ⟨"a", by decide +kernel, ?_⟩
    rw [contains_of_getElem? (hgone "a" (by decide)), Option.isSome_none]
  rw [htrue] at hrun
  exact ⟨httl, hwords, hfits hwords, d, hrun, hgone "a" (by decide), hgone "b" (by decide),
    (hkept "c" _).2 (List.mem_singleton.2 rfl)⟩

end SealedStore.Cache
