import SealedStore.Proofs.Store.SequenceCount
import SealedStore.Proofs.Store.UniqueIndex

set_option autoImplicit false

/-!
# Numbered records land on free names

Numbers that are drawn and keys that are given share the names of a namespace.  A record that is put
under a drawn number lands where nothing is, unless a value was written there under a key that was
given, or the counter was deleted and counts anew (`vacant_of_numbered`).
-/

namespace SealedStore

namespace Store

variable {space : String} {s s' : Store Keyspace} {h : Handle} {c : StoreCall}

/-! ## Names that are free -/

/-- What lies under a number that the counter of a namespace has not reached was written without a
number from it. -/
def Vacant (space : String) (state : Store Keyspace × CounterLog) : Prop :=
  ∃ n : Nat, state.1.backend.CountsOrBlocks (Namespace.sequenceKey space) n ∧
    ∀ i : Nat, n < i → state.1.backend.slots[Namespace.key space (Integer.render i)]? ≠ none →
      Namespace.key space (Integer.render i) ∈ state.2.given

/-- The counter as a call finds it when it comes to write: one number further if one was drawn. -/
theorem countsOrBlocks_counted {n : Nat}
    (hcounts : s.backend.CountsOrBlocks (Namespace.sequenceKey space) n) (c : StoreCall) :
    ∃ m, n ≤ m ∧ (c.counted s).CountsOrBlocks (Namespace.sequenceKey space) m ∧
      ∀ i, c.drawn? space s = some (.ok i) → i = (m : Int) := by
  cases hdrawn : c.drawn? space s with
  | none =>
    refine ⟨n, le_rfl, hcounts.congr (slots_of_not_drawn hdrawn), ?_⟩
    rintro i ⟨⟩
  | some a =>
    obtain ⟨ha, hcounted⟩ := counted_of_drawn hdrawn
    rw [hcounted]
    cases a with
    | error e =>
      rw [Keyspace.counted_of_error ha.symm]
      refine ⟨n, le_rfl, hcounts, ?_⟩
      rintro i ⟨⟩
    | ok i =>
      obtain ⟨hi, hnext⟩ := hcounts.incr ha.symm
      refine ⟨n + 1, n.le_succ, hnext, ?_⟩
      rintro k ⟨⟩
      exact hi

/-- Whatever a call does when it comes to write, other than deleting the counter, does not change
how the counter counts. -/
theorem countsOrBlocks_perform {landing : Option Landing} (hspace : space ≠ "")
    (hremoves : Namespace.sequenceKey space ∉ c.removes h)
    (hrun : (c.perform h).runOn s = (.ok landing, s')) {m : Nat}
    (hcounts : (c.counted s).CountsOrBlocks (Namespace.sequenceKey space) m) :
    s'.backend.CountsOrBlocks (Namespace.sequenceKey space) m := by
  obtain ⟨-, hwritable, -, tx, htx, hbackend⟩ := perform_ok hrun
  rw [hbackend]
  refine hcounts.foldl fun d hd => ?_
  rcases htx d hd with hplace | hremove | ⟨e, -, v, rfl⟩
  · exact .inl (Namespace.sequenceKey_ne_of_writable hspace (hwritable d.key hplace))
  · exact .inl fun hname => hremoves (hname ▸ hremove)
  · by_cases hname : Namespace.sequenceKey space = e.1
    · exact .inr ⟨[(e.2, v)], by rw [hname]⟩
    · exact .inl hname

/-- A call that puts something under another number than it has drawn has drawn none. -/
theorem drawn_of_places {landing : Option Landing}
    (hrun : (c.perform h).runOn s = (.ok landing, s')) {i : Nat}
    (hplace : Namespace.key space (Integer.render i) ∈ c.places h landing)
    (hother : c.drawn? space s ≠ some (.ok (i : Int))) : c.drawn? space s = none := by
  cases ha : c.drawn? space s with
  | none => rfl
  | some a =>
    have hnumbered := isNumbered_of_drawn ha hrun
    obtain ⟨k, hk, rfl⟩ := landing_of_numbered hnumbered hrun
    rw [places_of_numbered hnumbered, List.mem_singleton] at hplace
    obtain rfl : (i : Int) = k := Integer.render_injective (Namespace.key_injective hplace)
    exact absurd hk hother

/-- What lies under a number after a call was written without a number from the counter, if that
held before the call and the number is not the one that the call has drawn. -/
theorem given_of_perform {landing : Option Landing}
    (hrun : (c.perform h).runOn s = (.ok landing, s')) {names : List String} {i : Nat}
    (hbefore : s.backend.slots[Namespace.key space (Integer.render i)]? ≠ none →
      Namespace.key space (Integer.render i) ∈ names)
    (hdrawn : c.drawn? space s ≠ some (.ok (i : Int)))
    (hslot : s'.backend.slots[Namespace.key space (Integer.render i)]? ≠ none) :
    Namespace.key space (Integer.render i) ∈ c.given space h s names := by
  obtain ⟨-, -, hremoved, tx, htx, hbackend⟩ := perform_ok hrun
  have hkept : Namespace.key space (Integer.render i) ∉ c.removes h :=
    fun hmem => hslot (hremoved _ hmem)
  unfold StoreCall.given
  rw [hrun]
  simp only [List.mem_append, List.mem_filter, decide_eq_true_eq]
  by_cases htouched : ∃ d ∈ tx, Namespace.key space (Integer.render i) = d.key
  · obtain ⟨d, hd, hname⟩ := htouched
    rw [hname] at hkept ⊢
    rcases htx d hd with hplace | hremove | ⟨e, he, v, rfl⟩
    · rw [drawn_of_places hrun (hname ▸ hplace) hdrawn]
      exact .inr hplace
    · exact absurd hremove hkept
    · exact .inl (.inr (List.mem_map_of_mem he))
  · have hsame : s'.backend.slots[Namespace.key space (Integer.render i)]? =
        s.backend.slots[Namespace.key space (Integer.render i)]? := by
      rw [hbackend, Keyspace.slots_foldl_of_ne _ _ fun d hd he => htouched ⟨d, hd, he⟩]
      exact slots_callCounted c (Integer.isCounter_render space i)
    rw [hsame] at hslot
    exact .inl (.inl ⟨hbefore hslot, hkept⟩)

/-! ## Runs -/

theorem vacant_start (space : String) (hempty : s.backend = {}) : Vacant space (s, {}) := by
  refine ⟨0, ?_, ?_⟩
  · rw [hempty]
    exact .inl ⟨Keyspace.counts_empty _, by decide⟩
  · rw [hempty]
    exact fun i _ hslot => absurd rfl hslot

theorem Vacant.call {state : Store Keyspace × CounterLog} (hstate : Vacant space state)
    (hspace : space ≠ "") (hremoves : Namespace.sequenceKey space ∉ c.removes h) :
    Vacant space ((StoreStep.call h c).next space state) := by
  obtain ⟨s, log⟩ := state
  obtain ⟨n, hcounts, hnames⟩ := hstate
  obtain ⟨m, hle, hcounted, hdrawn⟩ := countsOrBlocks_counted hcounts c
  simp only [StoreStep.next]
  rcases hrun : (c.perform h).runOn s with ⟨e | landing, after⟩
  · have hgiven : c.given space h s log.given = log.given := by
      unfold StoreCall.given
      rw [hrun]
    rw [Vacant, hgiven, (perform_error hrun).2]
    refine ⟨m, hcounted, fun i hi hslot => hnames i (hle.trans_lt hi) ?_⟩
    rw [slots_callCounted c (Integer.isCounter_render space i)] at hslot
    exact hslot
  · refine ⟨m, countsOrBlocks_perform hspace hremoves hrun hcounted, fun i hi hslot => ?_⟩
    refine given_of_perform hrun (hnames i (hle.trans_lt hi)) (fun hi' => ?_) hslot
    have := hdrawn i hi'
    omega

theorem vacant_run (hspace : space ≠ "") (hempty : s.backend = {}) {steps : List StoreStep}
    (hsteps : ∀ step ∈ steps, Namespace.sequenceKey space ∉ step.removes) :
    Vacant space (StoreStep.run space s steps) := by
  unfold StoreStep.run
  suffices hgo : ∀ state : Store Keyspace × CounterLog, Vacant space state →
      Vacant space (steps.foldl (StoreStep.next space) state) from
    hgo _ (vacant_start space hempty)
  induction steps with
  | nil => exact fun _ hstate => hstate
  | cons step rest ih =>
    intro state hstate
    refine ih (fun later hlater => hsteps later (List.mem_cons_of_mem step hlater)) _ ?_
    cases step with
    | call h c => exact hstate.call hspace (hsteps (.call h c) List.mem_cons_self)
    | clock t => exact hstate

end Store

open Store in
/-- After any calls on a store that began empty, a put of a record which leaves its key to the
counter, and succeeds, lands where nothing is live.  Excepted are full names that hold what a call
wrote there without a number from that counter, and counters that were deleted. -/
theorem vacant_of_numbered {scheme : Scheme} (hsource : scheme.keySource = .sequence)
    {s : Store Keyspace} (hempty : s.backend = {}) {steps : List StoreStep}
    (hsteps : ∀ step ∈ steps, Namespace.sequenceKey scheme.space ∉ step.removes)
    {j : Json} {landing : Landing} {s' : Store Keyspace}
    (hrun : (putRecord scheme "" j).runOn (StoreStep.run scheme.space s steps).1 =
      (.ok landing, s'))
    (hgiven : landing.fullName ∉ (StoreStep.run scheme.space s steps).2.given) (now : Nat) :
    (StoreStep.run scheme.space s steps).1.backend.live? now landing.fullName = none := by
  obtain ⟨n, hcounts, hnames⟩ := vacant_run scheme.space_ne hempty hsteps
  generalize StoreStep.run scheme.space s steps = state at *
  have hcall : ((StoreCall.putRecord "" j (some scheme) none).perform {}).runOn state.1 =
      (.ok (some landing), s') := Action.runOn_map_eq_ok.2 ⟨landing, hrun, rfl⟩
  have hnumbered : (StoreCall.putRecord "" j (some scheme) none).isNumbered scheme.space = true :=
    decide_eq_true ⟨rfl, hsource, rfl⟩
  obtain ⟨i, hdrawn, hlanding⟩ := landing_of_numbered hnumbered hcall
  cases hlanding
  obtain ⟨ha, -⟩ := counted_of_drawn hdrawn
  obtain ⟨rfl, -⟩ := hcounts.incr ha.symm
  have hslot := fun hslot => hgiven (hnames (n + 1) n.lt_succ_self hslot)
  unfold Keyspace.live?
  rw [not_not.1 hslot]
  rfl

/-- A key that was given and deleted is free for the number that comes next. -/
theorem vacant_of_numbered_deleted :
    let scheme := numberedUsers true
    let put key : StoreStep := .call {} (.putRecord key (.object mailUser) (some scheme) none)
    let steps := [put "2", put "", .call {} (.value (.delete "2" (some "users")))]
    let t := (StoreStep.run "users" noUsers steps).1
    let log := (StoreStep.run "users" noUsers steps).2
    scheme.keySource = .sequence ∧ (∀ step ∈ steps, "users:sequence" ∉ step.removes) ∧
      ((Store.putRecord scheme "" (.object mailUser)).runOn t).1 = .ok ⟨"2", "users:2"⟩ ∧
      "users:2" ∉ log.given ∧ t.backend.live? 0 "users:2" = none := by
  intro scheme put steps t log
  have hsource : scheme.keySource = .sequence := rfl
  have hsteps : ∀ step ∈ steps, "users:sequence" ∉ step.removes := by decide
  have hlands : ((Store.putRecord scheme "" (.object mailUser)).runOn t).1 =
      .ok ⟨"2", "users:2"⟩ := by decide +kernel
  have hgiven : "users:2" ∉ log.given := by decide +kernel
  exact ⟨hsource, hsteps, hlands, hgiven,
    vacant_of_numbered hsource rfl hsteps (Prod.ext hlands rfl) hgiven 0⟩

/-- The number that comes next is the key of a record that is there: once because that key was given
before, and once because the counter was deleted. -/
theorem numbered_overwrites :
    let putUser key mail : Action (Store Keyspace) Landing :=
      Store.putRecord (numberedUsers true) key (.object [("mail", .text mail)])
    let s₁ := ((putUser "1" "a@b").runOn noUsers).2
    let s₂ := ((putUser "" "c@d").runOn s₁).2
    let s₃ := (((({} : Handle).delete "sequence" (some "users")).runOn s₂)).2
    s₁.backend.contains 0 "users:1" = true ∧
      ((putUser "" "c@d").runOn s₁).1 = .ok ⟨"1", "users:1"⟩ ∧
      s₃.backend.contains 0 "users:1" = true ∧
      ((putUser "" "e@f").runOn s₃).1 = .ok ⟨"1", "users:1"⟩ := by
  intro putUser s₁ s₂ s₃
  exact ⟨rfl, rfl, rfl, rfl⟩

end SealedStore
