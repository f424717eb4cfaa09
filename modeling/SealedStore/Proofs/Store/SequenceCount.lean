import SealedStore.Proofs.Store.StoreCalls

set_option autoImplicit false

/-!
# The counter of a namespace counts draws

A run makes calls on a store, and its log tells what they had to do with the counter of a namespace.
The counter is a slot like any other that only a name check protects.  Main statement: after any run
that does not delete it, it holds the number of draws, and the draws were the numbers in a row
(`counter_of_run`).
-/

namespace SealedStore

/-! ## Calls and the counter -/

namespace StoreCall

/-- What the counter of a namespace answers to the call.  Most calls do not ask it. -/
def drawn? (space : String) (s : Store Keyspace) : StoreCall → Option (Answer Int)
  | .putRecord key j (some scheme) _ =>
    if scheme.space = space then s.drawn? scheme key j else none
  | _ => none

/-- Whether the call is a put of a record that leaves its key to the counter of a namespace. -/
def isNumbered (space : String) : StoreCall → Bool
  | .putRecord key _ (some scheme) _ =>
    key = "" ∧ scheme.keySource = .sequence ∧ scheme.space = space
  | _ => false

/-- The key that the call answers, if it leaves the key to the counter of a namespace and
succeeds. -/
def numbers (space : String) (h : Handle) (s : Store Keyspace) (c : StoreCall) : List String :=
  match ((c.perform h).runOn s).1 with
  | .ok landing => if c.isNumbered space then landing.toList.map Landing.key else []
  | .error _ => []

/-- The full names that hold something which was not written under a number from the counter of a
namespace, after the call; before it, they are as given. -/
def given (space : String) (h : Handle) (s : Store Keyspace) (names : List String)
    (c : StoreCall) : List String :=
  match ((c.perform h).runOn s).1 with
  | .ok landing =>
    names.filter (· ∉ c.removes h) ++ c.entries.map Prod.fst ++
      if (c.drawn? space s).isNone then c.places h landing else []
  | .error _ => names

/-- The call leaves the counter of a namespace to the puts that draw from it: it does not delete it,
and a scheme of another namespace has no lookup hash of that name. -/
def Spares (space : String) (h : Handle) : StoreCall → Prop
  | .value c => Namespace.sequenceKey space ∉ c.removes h
  | .putRecord _ _ scheme _ => ∀ sch ∈ scheme, sch.space = space ∨
      ∀ index, sch.lookupKey index ≠ Namespace.sequenceKey space

end StoreCall

/-! ## Runs -/

/-- A step of a run: a call through some handle, or another time on the clock. -/
inductive StoreStep
  | call (h : Handle) (c : StoreCall)
  | clock (t : Instant)

/-- What a run tells of the counter of a namespace. -/
structure CounterLog where
  /-- What the counter answered, in the order of the draws. -/
  draws : List (Answer Int) := []
  /-- The keys that puts answered which had left them to the counter, in their order. -/
  keys : List String := []
  /-- The full names that were written without a number from the counter and not deleted since. -/
  given : List String := []

namespace StoreStep

/-- A store and a log after a step. -/
def next (space : String) (state : Store Keyspace × CounterLog) :
    StoreStep → Store Keyspace × CounterLog
  | .call h c =>
    (((c.perform h).runOn state.1).2,
      { draws := state.2.draws ++ (c.drawn? space state.1).toList
        keys := state.2.keys ++ c.numbers space h state.1
        given := c.given space h state.1 state.2.given })
  | .clock t => ({ state.1 with clock := t }, state.2)

/-- A store and a log after steps in a row; at first the log is empty. -/
def run (space : String) (s : Store Keyspace) (steps : List StoreStep) :
    Store Keyspace × CounterLog :=
  steps.foldl (next space) (s, {})

/-- The full names that the step removes. -/
def removes : StoreStep → List String
  | .call h c => c.removes h
  | .clock _ => []

/-- The step spares the counter of a namespace. -/
def Spares (space : String) : StoreStep → Prop
  | .call h c => c.Spares space h
  | .clock _ => True

end StoreStep

namespace Store

variable {space : String} {s s' : Store Keyspace} {h : Handle} {c : StoreCall}

/-! ## What a call does to the counter -/

/-- A call that does not ask the counter finds it as it was. -/
theorem slots_of_not_drawn (hdrawn : c.drawn? space s = none) :
    (c.counted s).slots[Namespace.sequenceKey space]? =
      s.backend.slots[Namespace.sequenceKey space]? := by
  unfold StoreCall.counted
  split
  · rename_i key j scheme given
    by_cases hscheme : scheme.space = space
    · rw [StoreCall.drawn?, if_pos hscheme] at hdrawn
      unfold counted
      rw [hdrawn]
    · refine slots_counted_of_ne fun hname => hscheme ?_
      exact (Namespace.sequenceKey_injective hname).symm
  · rfl

/-- A call that asks the counter is answered what the keyspace says, and finds the counter
counted. -/
theorem counted_of_drawn {a : Answer Int} (hdrawn : c.drawn? space s = some a) :
    a = (s.backend.incr s.clock.unixMillis (Namespace.sequenceKey space)).map Prod.fst ∧
      c.counted s = s.backend.counted s.clock.unixMillis (Namespace.sequenceKey space) := by
  unfold StoreCall.drawn? at hdrawn
  split at hdrawn
  · rename_i key j scheme given
    split at hdrawn
    · rename_i hscheme
      subst hscheme
      refine ⟨drawn?_eq_some hdrawn, ?_⟩
      change s.counted scheme key j = _
      unfold counted
      rw [hdrawn]
    · cases hdrawn
  · cases hdrawn

/-- No command of a call that spares the counter touches it. -/
theorem sequenceKey_ne_of_issues (hspace : space ≠ "") (hspares : c.Spares space h)
    {landing : Option Landing}
    (hwritable : ∀ name ∈ c.places h landing, Namespace.isCounter name = false) {d : Command}
    (hd : c.Issues h landing d) : Namespace.sequenceKey space ≠ d.key := by
  intro hname
  rcases hd with hplace | hremove | ⟨e, he, v, rfl⟩
  · exact Namespace.sequenceKey_ne_of_writable hspace (hwritable d.key hplace) hname
  · cases c with
    | value c =>
      rw [← hname] at hremove
      exact hspares hremove
    | putRecord key j scheme given => exact absurd hremove List.not_mem_nil
  · obtain ⟨hash, x⟩ := e
    obtain ⟨key, j, scheme, given, rfl, index, rfl⟩ := StoreCall.lookupKey_of_entries he
    rcases hspares scheme rfl with hscheme | hother
    · subst hscheme
      exact Namespace.sequenceKey_ne_lookupKey _ _ hname
    · exact hother index hname.symm

/-- A call that spares the counter leaves it as it found it when it came to write. -/
theorem slots_sequence_of_perform (hspace : space ≠ "") (hspares : c.Spares space h)
    (s : Store Keyspace) :
    ((c.perform h).runOn s).2.backend.slots[Namespace.sequenceKey space]? =
      (c.counted s).slots[Namespace.sequenceKey space]? := by
  rcases hrun : (c.perform h).runOn s with ⟨e | landing, after⟩
  · rw [(perform_error hrun).2]
  · obtain ⟨-, hwritable, -, tx, htx, hbackend⟩ := perform_ok hrun
    rw [hbackend]
    exact Keyspace.slots_foldl_of_ne _ _ fun d hd =>
      sequenceKey_ne_of_issues hspace hspares hwritable (htx d hd)

/-- A record that was put under a key of the counter lies under the number that was drawn. -/
theorem landing_of_numbered {landing : Option Landing} (hnumbered : c.isNumbered space = true)
    (hrun : (c.perform h).runOn s = (.ok landing, s')) :
    ∃ i, c.drawn? space s = some (.ok i) ∧
      landing = some ⟨Integer.render i, Namespace.key space (Integer.render i)⟩ := by
  unfold StoreCall.isNumbered at hnumbered
  split at hnumbered
  · rename_i key j scheme given
    obtain ⟨rfl, hsource, rfl⟩ := of_decide_eq_true hnumbered
    obtain ⟨⟨k, name⟩, hrecord, rfl⟩ := Action.runOn_map_eq_ok.1 hrun
    obtain ⟨r, rfl, hlands⟩ := putRecord_lands hrecord
    have hdrawn := hlands.drawn
    rw [if_pos ⟨rfl, hsource⟩] at hdrawn
    obtain ⟨i, hi, hkey⟩ := hdrawn
    obtain rfl : k = Integer.render i := hkey
    obtain rfl : name = scheme.fullName (Integer.render i) := hlands.fullName
    refine ⟨i, ?_, rfl⟩
    rw [StoreCall.drawn?, if_pos rfl]
    exact hi
  · cases hnumbered

theorem places_of_numbered {landed : Landing} (hnumbered : c.isNumbered space = true) :
    c.places h (some landed) = [landed.fullName] := by
  cases c with
  | value c => cases hnumbered
  | putRecord key j scheme given => rfl

/-- Only a put that leaves its key to the counter draws from it. -/
theorem isNumbered_of_drawn {landing : Option Landing} {a : Answer Int}
    (hdrawn : c.drawn? space s = some a) (hrun : (c.perform h).runOn s = (.ok landing, s')) :
    c.isNumbered space = true := by
  unfold StoreCall.drawn? at hdrawn
  split at hdrawn
  · rename_i key j scheme given
    split at hdrawn
    · rename_i hscheme
      obtain ⟨landed, hrecord, rfl⟩ := Action.runOn_map_eq_ok.1 hrun
      obtain ⟨r, rfl, hlands⟩ := putRecord_lands hrecord
      have hkey := hlands.drawn
      rw [hdrawn] at hkey
      split at hkey
      · rename_i hopen
        exact decide_eq_true ⟨hopen.1, hopen.2, hscheme⟩
      · cases hkey
    · cases hdrawn
  · cases hdrawn

/-- A number that a put answers as its key is the one that it has drawn. -/
theorem numbers_of_drawn (space : String) (h : Handle) (s : Store Keyspace) (c : StoreCall) :
    c.numbers space h s = [] ∨
      ∃ i, c.drawn? space s = some (.ok i) ∧ c.numbers space h s = [Integer.render i] := by
  unfold StoreCall.numbers
  split
  · rename_i landing hanswer
    split
    · rename_i hnumbered
      obtain ⟨i, hi, rfl⟩ := landing_of_numbered (h := h) hnumbered (Prod.ext hanswer rfl)
      exact .inr ⟨i, hi, rfl⟩
    · exact .inl rfl
  · exact .inl rfl

/-! ## What a run does to the counter -/

/-- The counter of a namespace holds the number of draws in the log, the draws were answered by the
numbers in a row, and the keys are some of them. -/
structure Numbered (space : String) (state : Store Keyspace × CounterLog) : Prop where
  counts : state.1.backend.Counts (Namespace.sequenceKey space) state.2.draws.length
  draws : state.2.draws = (List.range' 1 state.2.draws.length).map fun i : Nat => .ok (i : Int)
  keys : ∃ numbers : List Nat, numbers.Sublist (List.range' 1 state.2.draws.length) ∧
    state.2.keys = numbers.map fun i : Nat => Integer.render i

theorem numbered_start (space : String) (hempty : s.backend = {}) : Numbered space (s, {}) where
  counts := by
    rw [hempty]
    exact Keyspace.counts_empty _
  draws := rfl
  keys := ⟨[], List.Sublist.slnil, rfl⟩

/-- A call that does not ask the counter. -/
theorem Numbered.skip {log : CounterLog} (hstate : Numbered space (s, log))
    (hslot : s'.backend.slots[Namespace.sequenceKey space]? =
      s.backend.slots[Namespace.sequenceKey space]?) (given : List String) :
    Numbered space (s', { log with given }) where
  counts := hstate.counts.congr hslot
  draws := hstate.draws
  keys := hstate.keys

/-- A call that draws the number that comes next, and answers it as a key or fails. -/
theorem Numbered.draw {log : CounterLog} (hstate : Numbered space (s, log))
    (hlt : (log.draws.length : Int) < Integer.greatest64) {now : Nat}
    (hslot : s'.backend.slots[Namespace.sequenceKey space]? =
      (s.backend.counted now (Namespace.sequenceKey space)).slots[Namespace.sequenceKey space]?)
    {drawn : List String}
    (hdrawn : drawn = [] ∨ drawn = [Integer.render ((log.draws.length + 1 : Nat) : Int)])
    (given : List String) :
    Numbered space (s', {
      draws := log.draws ++ [.ok ((log.draws.length + 1 : Nat) : Int)]
      keys := log.keys ++ drawn
      given }) := by
  obtain ⟨hcounts, hdraws, numbers, hnumbers, hkeys⟩ := hstate
  have hrange : List.range' 1 (log.draws.length + 1) =
      List.range' 1 log.draws.length ++ [log.draws.length + 1] := by
    rw [List.range'_1_concat, Nat.add_comm]
  refine ⟨?_, ?_, ?_⟩
  · rw [List.length_append, List.length_singleton]
    exact (Keyspace.counts_counted hcounts hlt now).congr hslot
  · rw [List.length_append, List.length_singleton, hrange, List.map_append, ← hdraws]
    rfl
  · rw [List.length_append, List.length_singleton, hrange]
    rcases hdrawn with rfl | rfl
    · refine ⟨numbers, hnumbers.trans (List.sublist_append_left _ _), ?_⟩
      rw [List.append_nil]
      exact hkeys
    · refine ⟨numbers ++ [log.draws.length + 1], hnumbers.append (List.Sublist.refl _), ?_⟩
      rw [List.map_append, ← hkeys]
      rfl

theorem Numbered.call {state : Store Keyspace × CounterLog} (hstate : Numbered space state)
    (hspace : space ≠ "") (hspares : c.Spares space h)
    (hfew : (((StoreStep.call h c).next space state).2.draws.length : Int) ≤ Integer.greatest64) :
    Numbered space ((StoreStep.call h c).next space state) := by
  obtain ⟨s, log⟩ := state
  have hslot := slots_sequence_of_perform hspace hspares s
  have hnew := numbers_of_drawn space h s c
  simp only [StoreStep.next] at hfew ⊢
  cases hdrawn : c.drawn? space s with
  | none =>
    have hnone : c.numbers space h s = [] := by
      rcases hnew with hnone | ⟨i, hi, -⟩
      · exact hnone
      · rw [hdrawn] at hi
        cases hi
    rw [slots_of_not_drawn hdrawn] at hslot
    rw [hnone, Option.toList_none, List.append_nil, List.append_nil]
    exact hstate.skip hslot _
  | some a =>
    rw [hdrawn, Option.toList_some, List.length_append, List.length_singleton] at hfew
    have hlt : (log.draws.length : Int) < Integer.greatest64 := by
      push_cast at hfew
      exact hfew
    obtain ⟨ha, hcounted⟩ := counted_of_drawn hdrawn
    rw [Keyspace.incr_of_counts hstate.counts hlt.le, if_pos hlt] at ha
    obtain rfl : a = .ok ((log.draws.length + 1 : Nat) : Int) := ha
    rw [hcounted] at hslot
    refine hstate.draw hlt hslot (hnew.imp_right ?_) _
    rintro ⟨i, hi, hnumber⟩
    rw [hdrawn] at hi
    cases hi
    exact hnumber

theorem Numbered.next {state : Store Keyspace × CounterLog} (hstate : Numbered space state)
    (hspace : space ≠ "") {step : StoreStep} (hspares : step.Spares space)
    (hfew : ((step.next space state).2.draws.length : Int) ≤ Integer.greatest64) :
    Numbered space (step.next space state) := by
  cases step with
  | call h c => exact hstate.call hspace hspares hfew
  | clock t => exact ⟨hstate.counts, hstate.draws, hstate.keys⟩

theorem length_draws_le_next (space : String) (state : Store Keyspace × CounterLog)
    (step : StoreStep) : state.2.draws.length ≤ (step.next space state).2.draws.length := by
  cases step with
  | call h c =>
    rw [StoreStep.next, List.length_append]
    exact Nat.le_add_right _ _
  | clock t => exact le_rfl

theorem length_draws_le_foldl (space : String) (steps : List StoreStep)
    (state : Store Keyspace × CounterLog) :
    state.2.draws.length ≤ (steps.foldl (StoreStep.next space) state).2.draws.length := by
  induction steps generalizing state with
  | nil => exact le_rfl
  | cons step rest ih => exact (length_draws_le_next space state step).trans (ih _)

theorem numbered_run (hspace : space ≠ "") (hempty : s.backend = {}) {steps : List StoreStep}
    (hsteps : ∀ step ∈ steps, step.Spares space)
    (hfew : ((StoreStep.run space s steps).2.draws.length : Int) ≤ Integer.greatest64) :
    Numbered space (StoreStep.run space s steps) := by
  unfold StoreStep.run at hfew ⊢
  suffices hgo : ∀ state : Store Keyspace × CounterLog, Numbered space state →
      ((steps.foldl (StoreStep.next space) state).2.draws.length : Int) ≤ Integer.greatest64 →
      Numbered space (steps.foldl (StoreStep.next space) state) from
    hgo _ (numbered_start space hempty) hfew
  clear hfew
  induction steps with
  | nil => exact fun _ hstate _ => hstate
  | cons step rest ih =>
    intro state hstate hfew
    have hnext := (Int.ofNat_le.2 (length_draws_le_foldl space rest (step.next space state))).trans
      hfew
    refine ih (fun later hlater => hsteps later (List.mem_cons_of_mem step hlater)) _ ?_ hfew
    exact hstate.next hspace (hsteps step List.mem_cons_self) hnext

end Store

open Store in
/-- After any calls on a store that began empty, of which fewer than 2^63 draw from the counter of a
namespace, none deletes it and none is a put with the scheme of another namespace that has a lookup
hash of its name (as an index can have, `Namespace.lookupKey_sequence`): the counter is not there if
nothing was drawn, and otherwise it holds the number of draws in decimal, without a deadline.  The
draws were answered by 1, 2, 3 and so on.  The keys of the puts which left their keys to the counter
and succeeded are some of these numbers in the same order, so they increase.  Whatever a store
holds, no such call but a draw creates or changes the counter. -/
theorem counter_of_run {space : String} (hspace : space ≠ "") {s : Store Keyspace}
    (hempty : s.backend = {}) {steps : List StoreStep} (hsteps : ∀ step ∈ steps, step.Spares space)
    (hfew : ((StoreStep.run space s steps).2.draws.length : Int) ≤ Integer.greatest64) :
    let t := (StoreStep.run space s steps).1
    let log := (StoreStep.run space s steps).2
    let n := log.draws.length
    (t.backend.slots[Namespace.sequenceKey space]? =
      if n = 0 then none else some ⟨.string (Utf8.encode (Integer.render n)), none⟩) ∧
    (log.draws = (List.range' 1 n).map fun i : Nat => .ok (i : Int)) ∧
    (∃ numbers : List Nat, numbers.Sublist (List.range' 1 n) ∧ numbers.Pairwise (· < ·) ∧
      log.keys = numbers.map fun i : Nat => Integer.render i) ∧
    (∀ (h : Handle) (c : StoreCall) (u : Store Keyspace), c.Spares space h →
      c.drawn? space u = none →
      ((c.perform h).runOn u).2.backend.slots[Namespace.sequenceKey space]? =
        u.backend.slots[Namespace.sequenceKey space]?) := by
  intro t log n
  obtain ⟨hcounts, hdraws, numbers, hnumbers, hkeys⟩ := numbered_run hspace hempty hsteps hfew
  refine ⟨hcounts, hdraws, ⟨numbers, hnumbers, ?_, hkeys⟩, ?_⟩
  · exact List.Pairwise.sublist hnumbers List.pairwise_lt_range'
  · intro h c u hspares hdrawn
    exact (slots_sequence_of_perform hspace hspares u).trans (slots_of_not_drawn hdrawn)

/-- A number that is drawn is spent even if its record is not committed, and a value under the name
of the counter is refused. -/
theorem counter_of_run_spent :
    let user : StoreCall :=
      .putRecord "" (.object [("mail", .text "a@b")]) (some (numberedUsers true)) none
    let s : Store Keyspace := { backend := {}, identifiers := fun _ => "" }
    let steps : List StoreStep :=
      [.call {} (.value (.put "lookup:mail" (.text "x") (some "users"))), .call {} user,
        .call {} (.value (.delete "lookup:mail" (some "users"))),
        .call {} (.value (.put "sequence" .null (some "users"))), .call {} user]
    let t := (StoreStep.run "users" s steps).1
    let log := (StoreStep.run "users" s steps).2
    (∀ step ∈ steps, step.Spares "users") ∧ log.draws.length = 2 ∧
      t.backend.slots["users:sequence"]? = some ⟨.string [50], none⟩ ∧
      log.draws = [.ok 1, .ok 2] ∧ log.keys = ["2"] := by
  intro user s steps t log
  have huser : StoreStep.Spares "users" (.call {} user) := by
    rintro sch ⟨⟩
    exact .inl rfl
  have hsteps : ∀ step ∈ steps, step.Spares "users" := by
    simp only [steps, List.forall_mem_cons]
    refine ⟨?_, huser, ?_, ?_, huser, fun _ h => absurd h List.not_mem_nil⟩
    all_goals exact fun h => absurd h (by decide)
  have hdraws : log.draws.length = 2 := rfl
  have hfew : (log.draws.length : Int) ≤ Integer.greatest64 := by
    rw [hdraws]
    decide
  have hspace : "users" ≠ "" := by decide
  obtain ⟨hslot, hall, -, -⟩ := counter_of_run hspace rfl hsteps hfew
  rw [hdraws] at hslot hall
  exact ⟨hsteps, hdraws, hslot, hall, rfl⟩

end SealedStore
