import Mathlib.Algebra.Ring.Nat
import SealedStore.Proofs.Keyspace.Expiry
import SealedStore.Proofs.Keyspace.Frame
import SealedStore.Proofs.Text.Glob

set_option autoImplicit false

/-!
# Deadlines along a run

What the calls of a run decide about a key: that it is gone, or that it is there, with a deadline or
for ever.  The last decision holds until the next one, whatever else is called and however late, and
the key is live while it is there and its deadline has not come.  Main statement: after any run of
calls on a keyspace that began empty, every way of reading a key tells what was decided last
(`readsTell_of_run`).
-/

namespace SealedStore

/-! ## Decisions -/

/-- How a key stands by what was decided about it last. -/
inductive Standing
  /-- It was never there, or it was removed. -/
  | gone
  /-- It was put there, with the millisecond from which on it counts as gone; `none` for never. -/
  | there (deadline : Option Nat)
  deriving DecidableEq

/-- Whether a key is there and its deadline has not come. -/
def Standing.isLive (now : Nat) : Standing → Bool
  | .gone => false
  | .there deadline => deadline.all (now < ·)

/-- What can be done about the deadline of a key. -/
inductive Touch
  /-- Bytes are stored, with a number of seconds to live or for ever. -/
  | store (ttl : Option Nat)
  /-- The key is given a number of seconds to live, if it is live. -/
  | extend (seconds : Nat)
  /-- A counter is counted on, or fields are added to a hash; a key that is not live begins anew. -/
  | update
  /-- The key is removed. -/
  | remove
  deriving DecidableEq

/-- What a touch at some time decides about a key; `none` when it leaves the key as it stands.  A
deadline is so many seconds later, and no later than a clock of 64 bits can show. -/
def Touch.decides (time : Nat) (before : Standing) : Touch → Option Standing
  | .store ttl => some (.there (ttl.map fun seconds => min (time + 1000 * seconds) (2 ^ 64 - 1)))
  | .extend seconds =>
    if before.isLive time then some (.there (some (min (time + 1000 * seconds) (2 ^ 64 - 1))))
    else none
  | .update => if before.isLive time then none else some (.there none)
  | .remove => some .gone

namespace Standing

/-- What touches decide, one after another, each at its time. -/
def decisions (before : Standing) : List (Nat × Touch) → List Standing
  | [] => []
  | (time, touch) :: rest =>
    match touch.decides time before with
    | some next => next :: decisions next rest
    | none => decisions before rest

/-- How a key stands after touches: as it was decided last. -/
def after (before : Standing) (touches : List (Nat × Touch)) : Standing :=
  (before.decisions touches).getLastD before

variable {before : Standing}

@[simp] theorem after_nil : before.after [] = before := rfl

theorem after_cons (time : Nat) (touch : Touch) (rest : List (Nat × Touch)) :
    before.after ((time, touch) :: rest) =
      ((touch.decides time before).getD before).after rest := by
  unfold after
  rw [decisions]
  cases touch.decides time before with
  | none => rfl
  | some next => exact List.getLastD_cons

theorem after_append (first rest : List (Nat × Touch)) :
    before.after (first ++ rest) = (before.after first).after rest := by
  induction first generalizing before with
  | nil => rfl
  | cons touched first ih =>
    obtain ⟨time, touch⟩ := touched
    rw [List.cons_append, after_cons, after_cons, ih]

/-- What a reader sees of a key: its deadline, as long as it is live. -/
def seen (now : Nat) (st : Standing) : Option (Option Nat) :=
  match st with
  | .gone => none
  | .there deadline => if st.isLive now then some deadline else none

theorem seen_eq_none {st : Standing} {now : Nat} : st.seen now = none ↔ st.isLive now = false := by
  cases st with
  | gone => simp [seen, isLive]
  | there deadline => simp [seen]

theorem seen_eq_some {st : Standing} {now : Nat} {deadline : Option Nat} :
    st.seen now = some deadline ↔ st = .there deadline ∧ st.isLive now = true := by
  cases st with
  | gone => simp [seen]
  | there d =>
    simp only [seen, Option.ite_none_right_eq_some, Option.some.injEq, Standing.there.injEq]
    tauto

/-- What is seen later is what is seen now, unless its deadline comes until then. -/
theorem seen_later (st : Standing) (now millis : Nat) :
    st.seen (now + millis) =
      (st.seen now).filter fun deadline => deadline.all (now + millis < ·) := by
  rcases st with _ | _ | deadline
  · rfl
  · rfl
  · by_cases h : now < deadline
    · simp [seen, isLive, h, Option.filter_some]
    · have hlater : ¬ now + millis < deadline := fun hlt => h (Nat.lt_of_add_right_lt hlt)
      simp [seen, isLive, h, hlater]

end Standing

/-- What a command does about the deadline of its key. -/
def Command.touch : Command → Touch
  | .set _ _ ttl => .store ttl
  | .hset _ _ => .update
  | .del _ => .remove

/-- A slot is live until its deadline. -/
theorem Slot.not_isExpired (slot : Slot) (now : Nat) :
    (!slot.isExpired now) = slot.deadline.all (now < ·) := by
  obtain ⟨datum, _ | deadline⟩ := slot
  · rfl
  · simp [isExpired, ← decide_not]

theorem deadlineAfter_eq (now seconds : Nat) :
    deadlineAfter now seconds = min (now + 1000 * seconds) (2 ^ 64 - 1) := by
  rw [Nat.mul_comm 1000]
  rfl

namespace Keyspace

/-- What a call that succeeds does about the deadline of a key. -/
def Call.touches (key : String) : Call → List Touch
  | .set k _ ttl => if k = key then [.store ttl] else []
  | .expire k seconds => if k = key then [.extend seconds] else []
  | .incr k => if k = key then [.update] else []
  | .delete keys => if key ∈ keys then [.remove] else []
  | .commit tx => tx.flatMap fun c => if c.key = key then [c.touch] else []
  | .close => [.remove]
  | _ => []

/-! ## Keyspaces that show how a key stands -/

/-- A reader of the keyspace sees of a key what is seen of its standing. -/
def StandsAs (s : Keyspace) (now : Nat) (key : String) (st : Standing) : Prop :=
  (s.live? now key).map Slot.deadline = st.seen now

section StandsAs

variable {s t : Keyspace} {now : Nat} {key : String} {st : Standing}

theorem standsAs_empty (now : Nat) (key : String) : ({} : Keyspace).StandsAs now key .gone := rfl

theorem StandsAs.congr (h : s.StandsAs now key st) (hlive : t.live? now key = s.live? now key) :
    t.StandsAs now key st := by
  unfold StandsAs
  rw [hlive]
  exact h

/-- A key is live just when it stands so. -/
theorem StandsAs.contains (h : s.StandsAs now key st) : s.contains now key = st.isLive now := by
  unfold Keyspace.contains
  unfold StandsAs at h
  rw [← Option.isSome_map, h]
  cases hseen : st.seen now with
  | none => exact (Standing.seen_eq_none.1 hseen).symm
  | some deadline => exact (Standing.seen_eq_some.1 hseen).2.symm

theorem StandsAs.of_live? (h : s.StandsAs now key st) {slot : Slot}
    (hlive : s.live? now key = some slot) : st = .there slot.deadline ∧ st.isLive now = true := by
  unfold StandsAs at h
  rw [hlive] at h
  exact Standing.seen_eq_some.1 h.symm

theorem StandsAs.of_not_live? (h : s.StandsAs now key st) (hlive : s.live? now key = none) :
    st.isLive now = false := by
  unfold StandsAs at h
  rw [hlive] at h
  exact Standing.seen_eq_none.1 h.symm

theorem StandsAs.later (h : s.StandsAs now key st) (millis : Nat) :
    s.StandsAs (now + millis) key st := by
  unfold StandsAs at h ⊢
  rw [live?_later, Standing.seen_later, ← h, Option.filter_map]
  congr 2
  funext slot
  exact slot.not_isExpired (now + millis)

/-- A key stands as the slot that is put there, also if its deadline has come already. -/
theorem standsAs_put (s : Keyspace) (now : Nat) (key : String) (slot : Slot) :
    (s.put key slot).StandsAs now key (.there slot.deadline) := by
  unfold StandsAs
  simp only [Standing.seen, Standing.isLive, live?_put_self, ← slot.not_isExpired now]
  cases slot.isExpired now <;> rfl

theorem standsAs_drop (s : Keyspace) (now : Nat) (key : String) :
    (s.drop key).StandsAs now key .gone := by
  unfold StandsAs
  rw [live?_drop_self]
  rfl

/-! ## Calls -/

/-- A write of a key does what it does to it, and nothing to any other. -/
theorem StandsAs.write (h : s.StandsAs now key st) {k : String} {touch : Touch}
    (hself : k = key → t.StandsAs now key (st.after [(now, touch)]))
    (hother : k ≠ key → t.live? now key = s.live? now key) :
    t.StandsAs now key (st.after ((if k = key then [touch] else []).map (now, ·))) := by
  by_cases hkey : k = key
  · rw [if_pos hkey]
    exact hself hkey
  · rw [if_neg hkey]
    exact h.congr (hother hkey)

/-- Bytes are stored with the deadline that is decided. -/
theorem standsAs_set (s : Keyspace) (now : Nat) (key : String) (value : Bytes)
    (ttl : Option Nat) (st : Standing) :
    (s.set now key value ttl).StandsAs now key (st.after [(now, .store ttl)]) := by
  rw [Standing.after_cons, Standing.after_nil, Touch.decides]
  simp only [← deadlineAfter_eq]
  exact standsAs_put s now key (.ofBytes value now ttl)

/-- A counter or a hash goes on with the deadline of what was live under the key. -/
theorem StandsAs.update (h : s.StandsAs now key st) {slot : Slot}
    (hdeadline : slot.deadline = (s.live? now key).bind Slot.deadline) :
    (s.put key slot).StandsAs now key (st.after [(now, .update)]) := by
  have hput := standsAs_put s now key slot
  rw [hdeadline] at hput
  rw [Standing.after_cons, Standing.after_nil, Touch.decides]
  rcases hseen : s.live? now key with _ | before
  · rw [hseen] at hput
    rw [h.of_not_live? hseen]
    exact hput
  · rw [hseen] at hput
    obtain ⟨rfl, hlive⟩ := h.of_live? hseen
    rw [hlive]
    exact hput

theorem StandsAs.expire (h : s.StandsAs now key st) (seconds : Nat) :
    (s.expire now key seconds).2.StandsAs now key (st.after [(now, .extend seconds)]) := by
  unfold Keyspace.expire
  rw [Standing.after_cons, Standing.after_nil, Touch.decides]
  rcases hseen : s.live? now key with _ | slot
  · rw [h.of_not_live? hseen]
    exact h
  · rw [(h.of_live? hseen).2, ← deadlineAfter_eq]
    exact standsAs_put s now key _

theorem live?_expire_of_ne (s : Keyspace) (now : Nat) {k : String} (seconds : Nat)
    (hkey : k ≠ key) : (s.expire now k seconds).2.live? now key = s.live? now key := by
  unfold Keyspace.expire
  cases s.live? now k with
  | none => rfl
  | some slot => exact live?_put_of_ne s now _ hkey

/-- A counter has the deadline of what is live under its key. -/
theorem deadline_of_counter {i : Int} {deadline : Option Nat}
    (h : s.counter now key = .ok (i, deadline)) :
    deadline = (s.live? now key).bind Slot.deadline := by
  unfold counter at h
  split at h
  · rename_i hseen
    split at h
    · cases h
      rw [hseen]
      rfl
    · cases h
  · cases h
  · rename_i hseen
    cases h
    rw [hseen]
    rfl

/-- A counter that is counted on is put in place with the deadline of what was live there. -/
theorem put_of_incr {i : Int} (h : s.incr now key = .ok (i, t)) :
    ∃ datum, t = s.put key ⟨datum, (s.live? now key).bind Slot.deadline⟩ := by
  unfold Keyspace.incr at h
  split at h
  · cases h
  · rename_i held deadline hcounter
    split at h
    · cases h
      rw [← deadline_of_counter hcounter]
      exact ⟨_, rfl⟩
    · cases h

theorem StandsAs.apply (h : s.StandsAs now key st) (c : Command) :
    (s.apply now c).StandsAs now key
      (st.after ((if c.key = key then [c.touch] else []).map (now, ·))) := by
  refine h.write (fun hkey => ?_) fun hkey => live?_of_slots (slots_apply_of_ne s now hkey.symm) now
  subst hkey
  cases c with
  | set key value ttl => exact standsAs_set s now key value ttl st
  | hset key fields =>
    simp only [Keyspace.apply, Command.key, Command.touch] at h ⊢
    rcases hseen : s.live? now key with _ | ⟨_ | old, deadline⟩
    · exact h.update (by rw [hseen]; rfl)
    · -- Bytes are left as they are; the key is live, so nothing is decided.
      rw [Standing.after_cons, Touch.decides, (h.of_live? hseen).2]
      exact h
    · exact h.update (by rw [hseen]; rfl)
  | del key => exact standsAs_drop s now key

theorem StandsAs.foldl_apply (h : s.StandsAs now key st) (tx : Transaction) :
    (tx.foldl (fun s c => s.apply now c) s).StandsAs now key
      (st.after (((Call.commit tx).touches key).map (now, ·))) := by
  simp only [Call.touches]
  induction tx generalizing s st with
  | nil => exact h
  | cons c rest ih =>
    rw [List.foldl_cons, List.flatMap_cons, List.map_append, Standing.after_append]
    exact ih (h.apply c)

theorem StandsAs.delete (h : s.StandsAs now key st) (keys : List String) :
    (s.delete now keys).2.StandsAs now key
      (st.after (((Call.delete keys).touches key).map (now, ·))) := by
  simp only [Call.touches]
  by_cases hkey : key ∈ keys
  · rw [if_pos hkey]
    rw [StandsAs, live?, slots_delete, if_pos hkey]
    rfl
  · rw [if_neg hkey]
    exact h.congr (live?_of_slots (by rw [slots_delete, if_neg hkey]) now)

/-- The touches of a key that a call comes to: those of the call if it succeeds. -/
def Call.done (key : String) (now : Nat) (s : Keyspace) (c : Call) : List (Nat × Touch) :=
  if ((c.perform now).runOn s).1.isOk then (c.touches key).map (now, ·) else []

theorem StandsAs.idle (h : s.StandsAs now key st) {c : Call}
    (hkeeps : (c.perform now).Keeps fun s => s.live? now key)
    (htouches : c.touches key = []) :
    ((c.perform now).runOn s).2.StandsAs now key (st.after (c.done key now s)) := by
  rw [Call.done, htouches, List.map_nil, ite_self]
  exact h.congr (hkeeps s)

/-- An attempt that fails touches nothing, so only what it leaves when it succeeds matters. -/
theorem StandsAs.attempt (h : s.StandsAs now key st) {c : Call} {α : Type}
    {f : α → Finding} {g : Keyspace → Answer (α × Keyspace)}
    (hc : c.perform now = f <$> Action.attempt g)
    (hg : ∀ x t, g s = .ok (x, t) → t.StandsAs now key (st.after ((c.touches key).map (now, ·)))) :
    ((c.perform now).runOn s).2.StandsAs now key (st.after (c.done key now s)) := by
  rw [Call.done, hc, Action.runOn_map, Action.runOn_attempt]
  cases hs : g s with
  | error e => exact h
  | ok result => exact hg _ _ hs

/-- How a key stands after a call: as the touches of the call decide, if it succeeds. -/
theorem StandsAs.call (h : s.StandsAs now key st) (c : Call) :
    ((c.perform now).runOn s).2.StandsAs now key (st.after (c.done key now s)) := by
  cases c with
  | set k value ttl =>
    refine h.write (fun hkey => ?_) (live?_put_of_ne s now _)
    subst hkey
    exact standsAs_set s now k value ttl st
  | delete keys => exact h.delete keys
  | expire k seconds =>
    refine h.write (fun hkey => ?_) (live?_expire_of_ne s now seconds)
    subst hkey
    exact h.expire seconds
  | incr k =>
    refine h.attempt rfl fun i t ht => h.write (fun hkey => ?_) fun hkey => ?_
    · subst hkey
      obtain ⟨datum, rfl⟩ := put_of_incr ht
      exact h.update rfl
    · obtain ⟨datum, rfl⟩ := put_of_incr ht
      exact live?_put_of_ne s now _ hkey
  | commit tx =>
    refine h.attempt rfl fun _ t ht => ?_
    obtain ⟨after, hcommit, hafter⟩ := Answer.map_eq_ok.1 ht
    cases hafter
    rw [← commit_ok hcommit]
    exact h.foldl_apply tx
  | cleanup => exact h.idle (fun s => congrFun (live?_cleanup s now) key) rfl
  | close => rfl
  | get | getMany | contains | lifetime | scan | field | fields =>
    exact h.idle ((Action.keeps_query _).map _) rfl
  | size => exact h.idle (Action.keeps_query _) rfl

/-! ## Runs -/

/-- The touches of a key along steps, in their order. -/
def history (key : String) (now : Nat) (s : Keyspace) : List Step → List (Nat × Touch)
  | [] => []
  | .wait millis :: rest => history key (now + millis) s rest
  | .call c :: rest =>
    c.done key now s ++ history key now ((c.perform now).runOn s).2 rest

/-- How a key stands at the end of a run. -/
theorem StandsAs.run (h : s.StandsAs now key st) (steps : List Step) :
    (run now s steps).keyspace.StandsAs (run now s steps).now key
      (st.after (history key now s steps)) := by
  -- The standing is generalised: the rest of the run begins with what was decided until then.
  induction steps generalizing now s st with
  | nil => exact h
  | cons step rest ih =>
    cases step with
    | wait millis => exact ih (h.later millis)
    | call c =>
      rw [history, Standing.after_append]
      exact ih (h.call c)

end StandsAs

/-! ## Reading -/

/-- Every way of reading a key tells how it stands. -/
structure ReadsTell (s : Keyspace) (now : Nat) (key : String) (st : Standing) : Prop where
  contains : s.contains now key = st.isLive now
  get : s.get now key = .ok none ↔ st.isLive now = false
  scan : ∀ pattern, key ∈ s.scan now pattern ↔
    st.isLive now = true ∧ Glob.accepts pattern key = true
  missing : s.lifetime now key = .missing ↔ st.isLive now = false
  persistent : s.lifetime now key = .persistent ↔ st = .there none
  /-- The milliseconds that remain are rounded up to whole seconds. -/
  seconds : ∀ n, s.lifetime now key = .seconds n ↔
    ∃ deadline, st = .there (some deadline) ∧ now < deadline ∧
      1000 * (n - 1) < deadline - now ∧ deadline - now ≤ 1000 * n
  /-- At least a second remains of what is live. -/
  pos_of_seconds : ∀ n, s.lifetime now key = .seconds n → 1 ≤ n

section Reading

variable {s : Keyspace} {now : Nat} {key : String} {st : Standing}

theorem StandsAs.lifetime (h : s.StandsAs now key st) :
    s.lifetime now key =
      match st with
      | .gone => .missing
      | .there none => .persistent
      | .there (some deadline) =>
        if now < deadline then .seconds ((deadline - now + 999) / 1000) else .missing := by
  have hseen : s.lifetime now key =
      match st.seen now with
      | none => .missing
      | some none => .persistent
      | some (some deadline) => .seconds ((deadline - now + 999) / 1000) := by
    rw [← h]
    unfold Keyspace.lifetime
    rcases s.live? now key with _ | ⟨datum, _ | deadline⟩ <;> rfl
  rw [hseen]
  rcases st with _ | _ | deadline
  · rfl
  · rfl
  · by_cases hlive : now < deadline <;> simp [Standing.seen, Standing.isLive, hlive]

theorem StandsAs.lifetime_eq_seconds (h : s.StandsAs now key st) {n : Nat} :
    s.lifetime now key = .seconds n ↔
      ∃ deadline, st = .there (some deadline) ∧ now < deadline ∧
        1000 * (n - 1) < deadline - now ∧ deadline - now ≤ 1000 * n := by
  rw [h.lifetime]
  rcases st with _ | _ | deadline
  · simp
  · simp
  · by_cases hlive : now < deadline
    · have hrounded : (deadline - now + 999) / 1000 = n ↔
          1000 * (n - 1) < deadline - now ∧ deadline - now ≤ 1000 * n := by omega
      simp [hlive, hrounded]
    · simp [hlive]

theorem StandsAs.get (h : s.StandsAs now key st) :
    s.get now key = .ok none ↔ st.isLive now = false := by
  rw [← h.contains]
  unfold Keyspace.get Keyspace.contains
  rcases s.live? now key with _ | ⟨value | fields, deadline⟩ <;> simp

theorem StandsAs.readsTell (h : s.StandsAs now key st) : s.ReadsTell now key st where
  contains := h.contains
  get := h.get
  scan pattern := by rw [mem_scan, h.contains]
  missing := by
    rw [h.lifetime]
    rcases st with _ | _ | deadline <;> simp [Standing.isLive]
  persistent := by
    rw [h.lifetime]
    rcases st with _ | _ | deadline
    · simp
    · simp
    · by_cases hlive : now < deadline <;> simp [hlive]
  seconds _ := h.lifetime_eq_seconds
  pos_of_seconds n hn := by
    obtain ⟨deadline, -, hlive, -, hrest⟩ := h.lifetime_eq_seconds.1 hn
    omega

/-- The keys that a scan for anything finds are counted. -/
theorem size_eq_card (s : Keyspace) (now : Nat) :
    s.size now = (s.scan now "*").toFinset.card := by
  rw [List.toFinset_card_of_nodup (nodup_scan s now "*")]
  simp only [size, scan, Glob.accepts_star, Bool.and_true]

end Reading

/-- Every way of reading tells what was decided last.  After any run of calls on a keyspace that
began empty, a key is live exactly if the last of the decisions about it put it there, for ever or
with a deadline that has not come.  Asking for the key, for its bytes and for its lifetime and
scanning agree about that, and the keys that are live are counted. -/
theorem readsTell_of_run (start : Nat) (steps : List Step) :
    let o := run start {} steps
    let standing := fun key => Standing.gone.after (history key start {} steps)
    (∀ key, o.keyspace.ReadsTell o.now key (standing key)) ∧
      ∃ live : Finset String, (∀ key, key ∈ live ↔ (standing key).isLive o.now = true) ∧
        o.keyspace.size o.now = live.card := by
  intro o standing
  have hreads : ∀ key, o.keyspace.ReadsTell o.now key (standing key) :=
    fun key => ((standsAs_empty start key).run steps).readsTell
  refine ⟨hreads, (o.keyspace.scan o.now "*").toFinset, fun key => ?_, size_eq_card _ _⟩
  rw [List.mem_toFinset, (hreads key).scan]
  exact and_iff_left (Glob.accepts_star key)

/-- A counter that is counted on keeps its deadline; once that has come, it begins anew. -/
example :
    Standing.gone.decisions (history "n" 0 {}
      [.call (.set "n" [57] (some 5)), .wait 4999, .call (.incr "n"), .wait 1, .call (.incr "n"),
        .call (.expire "m" 1)]) = [.there (some 5000), .there none] := by
  decide +kernel

end Keyspace

end SealedStore
