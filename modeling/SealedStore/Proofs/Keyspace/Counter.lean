import SealedStore.Proofs.Keyspace.Frame
import SealedStore.Proofs.Text.Integer
import SealedStore.Proofs.Text.Utf8

set_option autoImplicit false

/-!
# Counters

A counter that was asked `n` times holds `n` in decimal, and is not there before it is asked
(`Counts`).  Asking it once more answers the next number, as long as 64 bits hold it.
-/

namespace SealedStore.Keyspace

variable {b b' : Keyspace} {now n : Nat} {counter name : String}

/-- The keyspace after a counter was asked for its next number, whatever it answered. -/
def counted (b : Keyspace) (now : Nat) (counter : String) : Keyspace :=
  match b.incr now counter with
  | .ok (_, after) => after
  | .error _ => b

/-! ## What asking leaves alone -/

theorem counted_cases (b : Keyspace) (now : Nat) (counter : String) :
    b.counted now counter = b ∨ ∃ slot, b.counted now counter = b.put counter slot := by
  unfold counted incr
  cases b.counter now counter with
  | error e => exact .inl rfl
  | ok held =>
    dsimp only
    split
    · rename_i heq
      split at heq
      · cases heq
        exact .inr ⟨_, rfl⟩
      · cases heq
    · exact .inl rfl

/-- Asking a counter changes the counter alone. -/
theorem drop_counted (b : Keyspace) (now : Nat) (counter : String) :
    (b.counted now counter).drop counter = b.drop counter := by
  rcases counted_cases b now counter with hsame | ⟨slot, hput⟩
  · rw [hsame]
  · rw [hput]
    refine ext_slots fun name => ?_
    by_cases hname : name = counter <;> simp [hname]

/-- Asking a counter shows under no other name. -/
theorem slots_counted_of_ne (b : Keyspace) (now : Nat) (h : name ≠ counter) :
    (b.counted now counter).slots[name]? = b.slots[name]? :=
  slots_of_drop_eq (drop_counted b now counter) h

/-- A counter that can be asked holds no fields, so no field is lost. -/
theorem field_counted (b : Keyspace) (now : Nat) (counter : String) {x : String} {v : Bytes}
    (h : b.field now name x = .ok (some v)) :
    (b.counted now counter).field now name x = .ok (some v) := by
  by_cases hname : name = counter
  · subst hname
    obtain ⟨fields, deadline, hlive, -⟩ := field_eq_some.1 h
    unfold counted incr Keyspace.counter
    rw [hlive]
    exact h
  · rw [field_of_slots (slots_counted_of_ne b now hname)]
    exact h

/-! ## What asking does to the counter -/

section Held

variable {i : Int} {deadline : Option Nat}

/-- A live slot that holds an integer in decimal is a counter. -/
theorem counter_of_live
    (h : b.live? now counter = some ⟨.string (Utf8.encode (Integer.render i)), deadline⟩)
    (hlow : Integer.least64 ≤ i) (hhigh : i ≤ Integer.greatest64) :
    b.counter now counter = .ok (i, deadline) := by
  have hread : (Utf8.decode? (Utf8.encode (Integer.render i))).bind
      (Integer.signed? Integer.least64 Integer.greatest64) = some i := by
    rw [Utf8.decode?, Utf8.decode_encode]
    exact Integer.signed?_render hlow hhigh
  unfold Keyspace.counter
  rw [h]
  simp only [hread]

theorem least64_le_of_counter (h : b.counter now counter = .ok (i, deadline)) :
    Integer.least64 ≤ i := by
  unfold Keyspace.counter at h
  split at h
  · split at h
    · rename_i hread
      cases h
      obtain ⟨text, -, hsigned⟩ := Option.bind_eq_some_iff.1 hread
      exact (Integer.range_of_signed? hsigned).1
    · cases h
  · cases h
  · cases h
    decide

/-- A counter that has a next number holds it after it was asked, and keeps its deadline. -/
theorem slots_counted_of_counter (h : b.counter now counter = .ok (i, deadline))
    (hi : i < Integer.greatest64) :
    (b.counted now counter).slots[counter]? =
      some ⟨.string (Utf8.encode (Integer.render (i + 1))), deadline⟩ := by
  unfold counted incr
  rw [h]
  simp only [if_pos hi]
  exact (slots_put b counter _ counter).trans (if_pos rfl)

/-- A counter that has no next number stays as it is. -/
theorem counted_of_stuck (h : ∀ i deadline, b.counter now counter = .ok (i, deadline) →
    ¬ i < Integer.greatest64) : b.counted now counter = b := by
  unfold counted incr
  cases hheld : b.counter now counter with
  | error e => rfl
  | ok held =>
    obtain ⟨i, deadline⟩ := held
    simp only [if_neg (h i deadline hheld)]

/-- The next number is not what the counter holds. -/
theorem slots_ne_next (h : b.counter now counter = .ok (i, deadline))
    (hi : i < Integer.greatest64) :
    b.slots[counter]? ≠ some ⟨.string (Utf8.encode (Integer.render (i + 1))), deadline⟩ := by
  intro hslot
  have hlive : b.live? now counter =
      (some ⟨.string (Utf8.encode (Integer.render (i + 1))), deadline⟩ : Option Slot).filter
        fun slot => !slot.isExpired now := congrArg _ hslot
  rw [Option.filter_some] at hlive
  split at hlive
  · have hlow : Integer.least64 ≤ i + 1 := (least64_le_of_counter h).trans (by omega)
    rw [counter_of_live hlive hlow hi] at h
    have hsame : i + 1 = i := congrArg Prod.fst (Except.ok.inj h)
    omega
  · -- A slot whose deadline has come is counted from zero, and without a deadline.
    rename_i hexpired
    unfold Keyspace.counter at h
    rw [hlive] at h
    cases h
    exact hexpired rfl

end Held

/-! ## Counters that count -/

/-- A counter that was asked so many times: it is not there yet, or it holds the number in decimal
and never expires. -/
def Counts (b : Keyspace) (counter : String) (n : Nat) : Prop :=
  b.slots[counter]? =
    if n = 0 then none else some ⟨.string (Utf8.encode (Integer.render n)), none⟩

theorem Counts.congr (h : b.Counts counter n) (hslot : b'.slots[counter]? = b.slots[counter]?) :
    b'.Counts counter n :=
  hslot.trans h

theorem counts_empty (counter : String) : ({} : Keyspace).Counts counter 0 := rfl

theorem counter_of_counts (h : b.Counts counter n) (hn : (n : Int) ≤ Integer.greatest64)
    (now : Nat) : b.counter now counter = .ok (n, none) := by
  have hlive : b.live? now counter =
      if n = 0 then none else some ⟨.string (Utf8.encode (Integer.render n)), none⟩ := by
    have hslot : b.slots[counter]? = _ := h
    unfold live?
    rw [hslot]
    split <;> rfl
  split at hlive
  · rename_i hzero
    unfold Keyspace.counter
    rw [hlive, hzero]
    rfl
  · exact counter_of_live hlive (le_trans (by decide) (Int.natCast_nonneg n)) hn

theorem incr_of_counts (h : b.Counts counter n) (hn : (n : Int) ≤ Integer.greatest64) (now : Nat) :
    b.incr now counter =
      if (n : Int) < Integer.greatest64 then
        .ok (((n + 1 : Nat) : Int),
          b.put counter ⟨.string (Utf8.encode (Integer.render (n + 1 : Nat))), none⟩)
      else .error (.wrongType s!"{counter} would overflow") := by
  unfold incr
  rw [counter_of_counts h hn now]
  push_cast
  rfl

theorem counts_counted (h : b.Counts counter n) (hn : (n : Int) < Integer.greatest64) (now : Nat) :
    (b.counted now counter).Counts counter (n + 1) := by
  unfold counted
  rw [incr_of_counts h hn.le now, if_pos hn]
  unfold Counts
  rw [slots_put, if_pos rfl, if_neg n.succ_ne_zero]

/-! ## Counters that may be blocked -/

/-- A counter that counts, or a hash in its place.  A hash in the place of a counter answers no
number for as long as it is there. -/
def CountsOrBlocks (b : Keyspace) (counter : String) (n : Nat) : Prop :=
  (b.Counts counter n ∧ (n : Int) ≤ Integer.greatest64) ∨
    ∃ fields, b.slots[counter]? = some ⟨.hash fields, none⟩

theorem CountsOrBlocks.congr (h : b.CountsOrBlocks counter n)
    (hslot : b'.slots[counter]? = b.slots[counter]?) : b'.CountsOrBlocks counter n := by
  rcases h with ⟨hcounts, hn⟩ | ⟨fields, hblocks⟩
  · exact .inl ⟨hcounts.congr hslot, hn⟩
  · exact .inr ⟨fields, hslot.trans hblocks⟩

/-- A number that is answered is the next one. -/
theorem CountsOrBlocks.incr (h : b.CountsOrBlocks counter n) {i : Int}
    (hincr : (b.incr now counter).map Prod.fst = .ok i) :
    i = (n + 1 : Nat) ∧ (b.counted now counter).CountsOrBlocks counter (n + 1) := by
  rcases h with ⟨hcounts, hn⟩ | ⟨fields, hblocks⟩
  · by_cases hlt : (n : Int) < Integer.greatest64
    · have hnext : ((n + 1 : Nat) : Int) ≤ Integer.greatest64 := by
        push_cast
        exact hlt
      rw [incr_of_counts hcounts hn, if_pos hlt] at hincr
      cases hincr
      exact ⟨rfl, .inl ⟨counts_counted hcounts hlt now, hnext⟩⟩
    · rw [incr_of_counts hcounts hn, if_neg hlt] at hincr
      cases hincr
  · unfold Keyspace.incr Keyspace.counter live? at hincr
    rw [hblocks] at hincr
    cases hincr

theorem counted_of_error {e : StoreError} (h : (b.incr now counter).map Prod.fst = .error e) :
    b.counted now counter = b := by
  unfold counted
  cases hincr : b.incr now counter with
  | error e' => rfl
  | ok answer =>
    rw [hincr] at h
    cases h

/-- Fields that are added in the place of a counter do not change how it counts: they begin a hash
where nothing is, or are added to the one that is there, or run into the number. -/
theorem CountsOrBlocks.apply_hset (h : b.CountsOrBlocks counter n) (now : Nat)
    (added : List (String × Bytes)) :
    (b.apply now (.hset counter added)).CountsOrBlocks counter n := by
  have hput : ∀ fields, (b.put counter ⟨.hash fields, none⟩).CountsOrBlocks counter n := by
    intro fields
    exact .inr ⟨fields, (slots_put b counter _ counter).trans (if_pos rfl)⟩
  simp only [apply, live?]
  rcases h with ⟨hcounts, hn⟩ | ⟨fields, hblocks⟩
  · have hslot : b.slots[counter]? = _ := hcounts
    rw [hslot]
    split_ifs with hzero
    · exact hput _
    · exact .inl ⟨hcounts, hn⟩
  · rw [hblocks]
    exact hput _

/-- No command but one that sets or removes the counter changes how it counts. -/
theorem CountsOrBlocks.foldl {tx : Transaction}
    (htx : ∀ c ∈ tx, counter ≠ c.key ∨ ∃ added, c = .hset counter added)
    (h : b.CountsOrBlocks counter n) :
    (tx.foldl (fun b c => b.apply now c) b).CountsOrBlocks counter n := by
  induction tx generalizing b with
  | nil => exact h
  | cons c rest ih =>
    refine ih (fun d hd => htx d (List.mem_cons_of_mem c hd)) ?_
    rcases htx c List.mem_cons_self with hne | ⟨added, rfl⟩
    · exact h.congr (slots_apply_of_ne b now hne)
    · exact h.apply_hset now added

end SealedStore.Keyspace
