import Mathlib.Data.List.Sort
import Mathlib.Data.Prod.Lex
import Mathlib.Data.String.Basic
import SealedStore.Proofs.Cache.Sweep

set_option autoImplicit false

/-!
# Entries in the order of their ranks

An entry ranks by its count times the time at which its value was put in place, and by its key where
these are equal.  A ranking with a bounded number of places takes the entries in any order; those
that hold a place in the end are the first entries of the whole list, sorted by rank
(`perm_take_byRank`).
-/

namespace SealedStore.Cache

variable {V : Type}

/-! ## Ranks -/

/-- The rank of an entry: what it is worth, and among equals its key. -/
def rank (e : String × Entry V) : ℕ ×ₗ String := toLex (e.2.count * e.2.populated, e.1)

theorem outranks_iff {a b : String × Entry V} : outranks a b = true ↔ rank b ≤ rank a := by
  unfold outranks rank Entry.score
  rw [Prod.Lex.toLex_ge_toLex]
  simp only [Bool.or_eq_true, Bool.and_eq_true, decide_eq_true_eq]

theorem key_of_rank_eq {a b : String × Entry V} (h : rank a = rank b) : a.1 = b.1 :=
  congrArg Prod.snd (toLex_inj.1 h)

/-- The entries in the order of their ranks, the highest first. -/
def byRank (entries : List (String × Entry V)) : List (String × Entry V) :=
  entries.insertionSort fun a b => rank b ≤ rank a

theorem perm_byRank (entries : List (String × Entry V)) : (byRank entries).Perm entries :=
  List.perm_insertionSort _ entries

theorem pairwise_byRank (entries : List (String × Entry V)) :
    (byRank entries).Pairwise fun a b => rank b ≤ rank a := by
  have htotal : Std.Total fun a b : String × Entry V => rank b ≤ rank a :=
    ⟨fun a b => le_total (rank b) (rank a)⟩
  have htrans : IsTrans (String × Entry V) fun a b => rank b ≤ rank a :=
    ⟨fun _ _ _ hab hbc => hbc.trans hab⟩
  exact List.pairwise_insertionSort _ entries

/-- Entries of different keys stand in the order of their ranks in one way only. -/
theorem eq_byRank {sorted entries : List (String × Entry V)} (hkeys : (keysOf entries).Nodup)
    (hsorted : sorted.Pairwise fun a b => rank b ≤ rank a) (hperm : sorted.Perm entries) :
    sorted = byRank entries := by
  refine List.Perm.eq_of_pairwise ?_ hsorted (pairwise_byRank entries)
    (hperm.trans (perm_byRank entries).symm)
  intro a b ha hb hba hab
  have hkey : a.1 = b.1 := key_of_rank_eq (le_antisymm hab hba)
  exact List.inj_on_of_nodup_map hkeys (hperm.mem_iff.1 ha)
    ((perm_byRank entries).mem_iff.1 hb) hkey

theorem byRank_of_perm {entries other : List (String × Entry V)} (hkeys : (keysOf entries).Nodup)
    (hperm : other.Perm entries) : byRank other = byRank entries :=
  eq_byRank hkeys (pairwise_byRank other) ((perm_byRank other).trans hperm)

/-! ## Rankings with a bounded number of places -/

theorem pairwise_insertRanked (e : String × Entry V) {ranked : List (String × Entry V)}
    (h : ranked.Pairwise fun a b => rank a ≤ rank b) :
    (insertRanked e ranked).Pairwise fun a b => rank a ≤ rank b := by
  induction ranked with
  | nil => exact List.pairwise_singleton _ e
  | cons first rest ih =>
    obtain ⟨hfirst, hrest⟩ := List.pairwise_cons.1 h
    unfold insertRanked
    split
    · rename_i hlow
      have hle : rank e ≤ rank first := outranks_iff.1 hlow
      refine List.pairwise_cons.2 ⟨fun b hb => ?_, h⟩
      rcases List.mem_cons.1 hb with rfl | hb
      · exact hle
      · exact hle.trans (hfirst b hb)
    · rename_i hhigh
      have hle : rank first ≤ rank e := (not_le.1 fun hle => hhigh (outranks_iff.2 hle)).le
      refine List.pairwise_cons.2 ⟨fun b hb => ?_, ih hrest⟩
      rcases List.mem_cons.1 ((insertRanked_perm e rest).mem_iff.1 hb) with rfl | hb
      · exact hle
      · exact hfirst b hb

namespace Ranking

/-- A ranking of the entries seen so far: those that hold a place go up in rank and are as many as
there are places, unless none was pushed out as yet, and no entry that was pushed out ranks above
one of them. -/
structure Ranks (places : Nat) (r : Ranking V) : Prop where
  sorted : r.best.Pairwise fun a b => rank a ≤ rank b
  few : r.best.length ≤ places
  full : r.victims ≠ [] → r.best.length = places
  below : ∀ victim ∈ r.victims, ∀ e ∈ r.best, rank victim ≤ rank e

theorem ranks_empty (places : Nat) : Ranks places ({} : Ranking V) where
  sorted := .nil
  few := Nat.zero_le places
  full := fun h => absurd rfl h
  below := fun _ h => absurd h List.not_mem_nil

/-- When the lowest of the places and a new entry is pushed out, what was pushed out before still
ranks above none of the others. -/
theorem Ranks.below_rest {places : Nat} {r : Ranking V} (h : Ranks places r)
    {e lowest : String × Entry V} {rest : List (String × Entry V)}
    (hperm : (lowest :: rest).Perm (e :: r.best)) (hlowest : ∀ b ∈ rest, rank lowest ≤ rank b) :
    ∀ victim ∈ r.victims, ∀ b ∈ rest, rank victim ≤ rank b := by
  intro victim hvictim b hb
  -- The lowest held a place, or the new entry is it and the others held theirs.
  by_cases hnew : lowest = e
  · subst hnew
    exact h.below victim hvictim b (hperm.cons_inv.mem_iff.1 hb)
  · have hheld : lowest ∈ r.best :=
      List.mem_of_ne_of_mem hnew (hperm.mem_iff.1 List.mem_cons_self)
    exact (h.below victim hvictim lowest hheld).trans (hlowest b hb)

/-- Ranking one more entry, and pushing out the lowest if there are too many. -/
theorem Ranks.add {places : Nat} {r : Ranking V} (h : Ranks places r) (e : String × Entry V) :
    Ranks places (r.add places e) := by
  have hperm : (insertRanked e r.best).Perm (e :: r.best) := insertRanked_perm e r.best
  have hsorted := pairwise_insertRanked e h.sorted
  have hlength : (insertRanked e r.best).length = r.best.length + 1 := hperm.length_eq
  have hfew := h.few
  unfold Ranking.add
  simp only
  split
  · rename_i hmany
    cases hinsert : insertRanked e r.best with
    | nil =>
      rw [hinsert] at hlength
      cases hlength
    | cons lowest rest =>
      rw [hinsert] at hperm hsorted hlength hmany
      obtain ⟨hlowest, hrest⟩ := List.pairwise_cons.1 hsorted
      rw [List.length_cons] at hlength hmany
      refine ⟨hrest, ?_, fun _ => ?_, ?_⟩
      · simp only [List.drop_one, List.tail_cons]
        omega
      · simp only [List.drop_one, List.tail_cons]
        omega
      · intro victim hvictim b hb
        rcases List.mem_append.1 hvictim with hvictim | hvictim
        · exact h.below_rest hperm hlowest victim hvictim b hb
        · rw [List.mem_singleton.1 hvictim]
          exact hlowest b hb
  · rename_i hroom
    have hnone : r.victims = [] := by
      by_contra hsome
      have hfull := h.full hsome
      omega
    exact {
      sorted := hsorted
      few := Nat.not_lt.1 hroom
      full := fun hsome => absurd hnone hsome
      below := fun victim hvictim => by
        rw [hnone] at hvictim
        exact absurd hvictim List.not_mem_nil }

theorem ranks_foldl_add {places : Nat} {r : Ranking V} (h : Ranks places r)
    (entries : List (String × Entry V)) : Ranks places (entries.foldl (Ranking.add places) r) := by
  induction entries generalizing r with
  | nil => exact h
  | cons e rest ih => exact ih (h.add e)

end Ranking

/-! ## The entries of lowest rank -/

/-- The entries that are kept are the first ones by rank, as many as are to be kept, and those of
lowest rank are all others. -/
theorem perm_take_byRank {entries : List (String × Entry V)} (hkeys : (keysOf entries).Nodup)
    {keep : Nat} (hmany : keep < entries.length) :
    (((byRank entries).take keep) ++ lowestRanked entries keep).Perm entries := by
  have hranks := Ranking.ranks_foldl_add (Ranking.ranks_empty keep) entries
  have hall := Ranking.all_foldl_add keep entries {}
  unfold lowestRanked
  rw [if_neg (Nat.not_le.2 hmany)]
  generalize entries.foldl (Ranking.add keep) {} = r at hranks hall
  replace hall : (r.best ++ r.victims).Perm entries := by
    rwa [show Ranking.all ({} : Ranking V) = [] from rfl, List.append_nil] at hall
  have hlength : r.best.length = keep := by
    have htotal := hall.length_eq
    have hfew := hranks.few
    rw [List.length_append] at htotal
    refine hranks.full fun hnone => ?_
    rw [hnone, List.length_nil] at htotal
    omega
  have hsorted : (r.best.reverse ++ byRank r.victims).Pairwise fun a b => rank b ≤ rank a := by
    refine List.pairwise_append.2 ⟨List.pairwise_reverse.2 hranks.sorted, pairwise_byRank _, ?_⟩
    intro a ha b hb
    exact hranks.below b ((perm_byRank r.victims).mem_iff.1 hb) a (List.mem_reverse.1 ha)
  have hperm : (r.best.reverse ++ byRank r.victims).Perm entries :=
    ((List.reverse_perm r.best).append (perm_byRank r.victims)).trans hall
  rw [← eq_byRank hkeys hsorted hperm, ← hlength, ← List.length_reverse, List.take_left]
  exact ((List.reverse_perm r.best).append_right r.victims).trans hall

end SealedStore.Cache
