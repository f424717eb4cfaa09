import SealedStore.Backend.Basic
import SealedStore.Proofs.Action
import SealedStore.Proofs.Keyspace.Live
import SealedStore.Proofs.Keyspace.Slots

set_option autoImplicit false

/-!
# Slots past their deadline are out of sight

Two keyspaces that differ in slots past their deadline only have the same live view.  Every call
answers the same on both and leaves the same live view behind, at whatever time the next call comes;
the one answer that tells them apart is the count of a clean-up.  Main statement: so it is for whole
runs, and clean-ups may be put in and left out anywhere (`seen_of_same_live`).
-/

namespace SealedStore

namespace Keyspace

/-! ## Live views after a write -/

/-- A slot that is put in place is seen unless its deadline has come. -/
theorem live?_put_eq (s : Keyspace) (now : Nat) (key : String) (slot : Slot) :
    (s.put key slot).live? now =
      Function.update (s.live? now) key (if slot.isExpired now then none else some slot) := by
  funext other
  by_cases he : other = key
  · subst he
    simp
  · rw [live?_put_of_ne s now slot (Ne.symm he), Function.update_of_ne he]

/-- What is seen later is what is seen now and lives on until then. -/
theorem live?_later (s : Keyspace) (now millis : Nat) (key : String) :
    s.live? (now + millis) key =
      (s.live? now key).filter fun slot => !slot.isExpired (now + millis) := by
  unfold live?
  rw [Option.filter_filter]
  congr 1
  funext slot
  rcases slot with ⟨datum, _ | deadline⟩
  · rfl
  · have : deadline ≤ now → deadline ≤ now + millis := fun h => Nat.le_add_right_of_le h
    by_cases h : deadline ≤ now <;> simp [Slot.isExpired, h, this]

@[simp] theorem live?_cleanup (s : Keyspace) (now : Nat) :
    (s.cleanup now).2.live? now = s.live? now := by
  funext key
  simp only [cleanup, live?, Std.ExtTreeMap.getElem?_filter', Option.filter_filter, Bool.and_self]

/-- The keys that are seen are those that a clean-up leaves. -/
theorem filter_contains_keys (s : Keyspace) (now : Nat) :
    s.slots.keys.filter (s.contains now) = (s.cleanup now).2.slots.keys := by
  have hseen : ∀ entry ∈ s.slots.toList,
      s.contains now entry.1 = !entry.2.isExpired now := by
    intro entry hentry
    have hslot : s.slots[entry.1]? = some entry.2 :=
      Std.ExtTreeMap.mem_toList_iff_getElem?_eq_some.1 hentry
    simp only [contains, live?, hslot, Option.filter_some]
    cases entry.2.isExpired now <;> rfl
  rw [← Std.ExtTreeMap.map_fst_toList_eq_keys, ← Std.ExtTreeMap.map_fst_toList_eq_keys,
    List.filter_map]
  simp only [cleanup, Std.ExtTreeMap.toList_filter]
  exact congrArg _ (List.filter_congr hseen)

/-! ## Keyspaces with the same live view -/

section Alike

variable {s t : Keyspace} {now : Nat}

/-- A clean-up leaves the same slots in both. -/
theorem cleanup_of_same_live (h : s.live? now = t.live? now) :
    (s.cleanup now).2 = (t.cleanup now).2 := by
  refine ext_slots fun key => ?_
  have hkey : s.live? now key = t.live? now key := congrFun h key
  simp only [cleanup, Std.ExtTreeMap.getElem?_filter']
  exact hkey

theorem later_of_same_live (h : s.live? now = t.live? now) (millis : Nat) :
    s.live? (now + millis) = t.live? (now + millis) := by
  funext key
  rw [live?_later, live?_later, h]

theorem put_of_same_live (h : s.live? now = t.live? now) (key : String) (slot : Slot) :
    (s.put key slot).live? now = (t.put key slot).live? now := by
  rw [live?_put_eq, live?_put_eq, h]

theorem drop_of_same_live (h : s.live? now = t.live? now) (key : String) :
    (s.drop key).live? now = (t.drop key).live? now := by
  rw [live?_drop, live?_drop, h]

theorem bytes?_of_same_live (h : s.live? now = t.live? now) : s.bytes? now = t.bytes? now := by
  funext key
  simp only [bytes?, h]

theorem contains_of_same_live (h : s.live? now = t.live? now) :
    s.contains now = t.contains now := by
  funext key
  simp only [contains, h]

theorem fields_of_same_live (h : s.live? now = t.live? now) : s.fields now = t.fields now := by
  funext key
  simp only [fields, h]

theorem keys_of_same_live (h : s.live? now = t.live? now) :
    s.slots.keys.filter (s.contains now) = t.slots.keys.filter (t.contains now) := by
  rw [filter_contains_keys, filter_contains_keys, cleanup_of_same_live h]

theorem scan_of_same_live (h : s.live? now = t.live? now) (pattern : String) :
    s.scan now pattern = t.scan now pattern := by
  have hsplit : ∀ u : Keyspace, u.scan now pattern =
      (u.slots.keys.filter (u.contains now)).filter (Glob.accepts pattern) := by
    intro u
    simp only [scan, List.filter_filter, Bool.and_comm]
  rw [hsplit, hsplit, keys_of_same_live h]

theorem delete_of_same_live (h : s.live? now = t.live? now) (keys : List String) :
    (s.delete now keys).1 = (t.delete now keys).1 ∧
      (s.delete now keys).2.live? now = (t.delete now keys).2.live? now := by
  induction keys generalizing s t with
  | nil => exact ⟨rfl, h⟩
  | cons key rest ih =>
    obtain ⟨hcount, hlive⟩ := ih (drop_of_same_live h key)
    rw [delete_cons, delete_cons, hcount, contains_of_same_live h]
    exact ⟨rfl, hlive⟩

theorem expire_of_same_live (h : s.live? now = t.live? now) (key : String) (seconds : Nat) :
    (s.expire now key seconds).1 = (t.expire now key seconds).1 ∧
      (s.expire now key seconds).2.live? now = (t.expire now key seconds).2.live? now := by
  unfold expire
  rw [← h]
  cases s.live? now key with
  | none => exact ⟨rfl, h⟩
  | some slot => exact ⟨rfl, put_of_same_live h key _⟩

theorem apply_of_same_live (h : s.live? now = t.live? now) (c : Command) :
    (s.apply now c).live? now = (t.apply now c).live? now := by
  cases c with
  | set key value ttl => exact put_of_same_live h key _
  | hset key fields =>
    simp only [apply]
    rw [← h]
    rcases s.live? now key with _ | ⟨_ | old, deadline⟩
    · exact put_of_same_live h key _
    · exact h
    · exact put_of_same_live h key _
  | del key => exact drop_of_same_live h key

theorem foldl_apply_of_same_live (h : s.live? now = t.live? now) (tx : Transaction) :
    (tx.foldl (fun s c => s.apply now c) s).live? now =
      (tx.foldl (fun s c => s.apply now c) t).live? now := by
  induction tx generalizing s t with
  | nil => exact h
  | cons c rest ih => exact ih (apply_of_same_live h c)

/-- A counter is read and written alike, or refused for the same reason. -/
theorem incr_of_same_live (h : s.live? now = t.live? now) (key : String) :
    (∃ i s' t', s.incr now key = .ok (i, s') ∧ t.incr now key = .ok (i, t') ∧
        s'.live? now = t'.live? now) ∨
      ∃ e, s.incr now key = .error e ∧ t.incr now key = .error e := by
  have hcounter : t.counter now key = s.counter now key := by
    unfold counter
    rw [h]
  unfold incr
  rw [hcounter]
  rcases s.counter now key with e | ⟨i, deadline⟩
  · exact .inr ⟨e, rfl, rfl⟩
  · by_cases hi : i < Integer.greatest64
    · simp only [hi, ↓reduceIte]
      exact .inl ⟨_, _, _, rfl, rfl, put_of_same_live h key _⟩
    · simp only [hi, ↓reduceIte]
      exact .inr ⟨_, rfl, rfl⟩

/-- A transaction is carried out alike, or refused for the same reason. -/
theorem commit_of_same_live (h : s.live? now = t.live? now) (tx : Transaction) :
    (∃ s' t', s.commit now tx = .ok s' ∧ t.commit now tx = .ok t' ∧
        s'.live? now = t'.live? now) ∨
      ∃ e, s.commit now tx = .error e ∧ t.commit now tx = .error e := by
  have hshape : t.shape? now = s.shape? now := by
    funext key
    simp only [shape?, h]
  unfold commit
  rw [hshape]
  cases tx.check (s.shape? now) with
  | error e => exact .inr ⟨e, rfl, rfl⟩
  | ok _ => exact .inl ⟨_, _, rfl, rfl, foldl_apply_of_same_live h tx⟩

end Alike

/-! ## Calls -/

/-- A call of a keyspace. -/
inductive Call
  | get (key : String)
  | getMany (keys : List String)
  | set (key : String) (value : Bytes) (ttl : Option Nat)
  | delete (keys : List String)
  | contains (key : String)
  | lifetime (key : String)
  | expire (key : String) (seconds : Nat)
  | scan (pattern : String)
  | incr (key : String)
  | field (key name : String)
  | fields (key : String)
  | commit (tx : Transaction)
  | cleanup
  | size
  | close
  deriving DecidableEq

/-- Fields are compared as what a slot holds. -/
instance : DecidableEq Fields :=
  fun a b => decidable_of_iff (Datum.hash a = Datum.hash b) (Datum.hash.injEq a b).to_iff

/-- What a call answers when it succeeds. -/
inductive Finding
  | nothing
  | bytes (value : Option Bytes)
  | manyBytes (values : List (Option Bytes))
  | flag (b : Bool)
  | number (i : Int)
  | lifetime (l : Lifetime)
  | names (keys : List String)
  | fields (found : Fields)
  deriving DecidableEq

/-- Carries out a call. -/
def Call.perform (now : Nat) : Call → Action Keyspace Finding
  | .get key => .bytes <$> Backend.get now key
  | .getMany keys => .manyBytes <$> Backend.getMany now keys
  | .set key value ttl => (fun _ => .nothing) <$> Backend.set now key value ttl
  | .delete keys => (fun n : Nat => .number n) <$> Backend.delete now keys
  | .contains key => .flag <$> Backend.contains now key
  | .lifetime key => .lifetime <$> Backend.lifetime now key
  | .expire key seconds => .flag <$> Backend.expire now key seconds
  | .scan pattern => .names <$> Backend.scan now pattern
  | .incr key => .number <$> Backend.incr now key
  | .field key name => .bytes <$> Backend.field now key name
  | .fields key => .fields <$> Backend.fields now key
  | .commit tx => (fun _ => .nothing) <$> Backend.commit now tx
  | .cleanup => .update fun s => (.number (s.cleanup now).1, (s.cleanup now).2)
  | .size => .query fun s => .ok (.number (s.size now))
  | .close => (fun _ => .nothing) <$> Backend.close

/-! ## Calls on keyspaces with the same live view -/

/-- An action answers the same on both keyspaces and leaves the same live view in them. -/
def ActsAlike {α : Type} (now : Nat) (s t : Keyspace) (a : Action Keyspace α) : Prop :=
  (a.runOn s).1 = (a.runOn t).1 ∧ (a.runOn s).2.live? now = (a.runOn t).2.live? now

section ActsAlike

variable {α β : Type} {s t : Keyspace} {now : Nat}

theorem ActsAlike.map {a : Action Keyspace α} (h : ActsAlike now s t a) (f : α → β) :
    ActsAlike now s t (f <$> a) := by
  unfold ActsAlike
  rw [Action.runOn_map, Action.runOn_map, h.1]
  exact ⟨rfl, h.2⟩

theorem actsAlike_query (h : s.live? now = t.live? now) {q : Keyspace → Answer α} (hq : q s = q t) :
    ActsAlike now s t (.query q) :=
  ⟨hq, h⟩

theorem actsAlike_update {f : Keyspace → α × Keyspace}
    (hf : (f s).1 = (f t).1 ∧ (f s).2.live? now = (f t).2.live? now) :
    ActsAlike now s t (.update f) :=
  ⟨congrArg Except.ok hf.1, hf.2⟩

theorem actsAlike_attempt (h : s.live? now = t.live? now) {f : Keyspace → Answer (α × Keyspace)}
    (hf : (∃ x s' t', f s = .ok (x, s') ∧ f t = .ok (x, t') ∧ s'.live? now = t'.live? now) ∨
      ∃ e, f s = .error e ∧ f t = .error e) : ActsAlike now s t (.attempt f) := by
  unfold ActsAlike
  rw [Action.runOn_attempt, Action.runOn_attempt]
  rcases hf with ⟨x, s', t', hs, ht, hlive⟩ | ⟨e, hs, ht⟩
  · rw [hs, ht]
    exact ⟨rfl, hlive⟩
  · rw [hs, ht]
    exact ⟨rfl, h⟩

/-- Every call but a clean-up acts alike on keyspaces with the same live view. -/
theorem Call.actsAlike (h : s.live? now = t.live? now) {c : Call} (hc : c ≠ .cleanup) :
    ActsAlike now s t (c.perform now) := by
  cases c with
  | get key => exact (actsAlike_query h (by simp only [Keyspace.get, h])).map _
  | getMany keys =>
    exact (actsAlike_query h (by simp only [Keyspace.getMany, bytes?_of_same_live h])).map _
  | set key value ttl =>
    refine ActsAlike.map (actsAlike_update ?_) _
    exact ⟨rfl, put_of_same_live h key _⟩
  | delete keys =>
    refine ActsAlike.map (actsAlike_update ?_) _
    exact delete_of_same_live h keys
  | contains key => exact (actsAlike_query h (by rw [contains_of_same_live h])).map _
  | lifetime key => exact (actsAlike_query h (by simp only [Keyspace.lifetime, h])).map _
  | expire key seconds =>
    refine ActsAlike.map (actsAlike_update ?_) _
    exact expire_of_same_live h key seconds
  | scan pattern => exact (actsAlike_query h (by rw [scan_of_same_live h])).map _
  | incr key =>
    refine ActsAlike.map (actsAlike_attempt h ?_) _
    exact incr_of_same_live h key
  | field key name =>
    exact (actsAlike_query h (by simp only [Keyspace.field, fields_of_same_live h])).map _
  | fields key => exact (actsAlike_query h (by rw [fields_of_same_live h])).map _
  | commit tx =>
    refine ActsAlike.map (actsAlike_attempt h ?_) _
    rcases commit_of_same_live h tx with ⟨s', t', hs, ht, hlive⟩ | ⟨e, hs, ht⟩
    · exact .inl ⟨(), s', t', by rw [hs]; rfl, by rw [ht]; rfl, hlive⟩
    · exact .inr ⟨e, by rw [hs]; rfl, by rw [ht]; rfl⟩
  | cleanup => exact absurd rfl hc
  | size => exact actsAlike_query h (by simp only [Keyspace.size, keys_of_same_live h])
  | close =>
    refine ActsAlike.map (actsAlike_update ?_) _
    exact ⟨rfl, rfl⟩

end ActsAlike

/-! ## Runs -/

/-- A step of a run: a call, or time that goes by. -/
inductive Step
  | call (c : Call)
  | wait (millis : Nat)
  deriving DecidableEq

/-- What a run comes to: each call with its answer, and the time and the keyspace at the end. -/
structure Outcome where
  answers : List (Call × Answer Finding)
  now : Nat
  keyspace : Keyspace

/-- Takes steps in a row. -/
def run (now : Nat) (s : Keyspace) : List Step → Outcome
  | [] => ⟨[], now, s⟩
  | .wait millis :: rest => run (now + millis) s rest
  | .call c :: rest =>
    let (answer, after) := (c.perform now).runOn s
    let outcome := run now after rest
    { outcome with answers := (c, answer) :: outcome.answers }

/-- What can be seen of a run: every answer but the counts of clean-ups, and at the end the time
and the live view. -/
def Outcome.seen (o : Outcome) : List (Call × Answer Finding) × Nat × LiveView :=
  (o.answers.filter fun a => a.1 ≠ .cleanup, o.now, o.keyspace.live? o.now)

theorem seen_run_cleanup (now : Nat) (s : Keyspace) (rest : List Step) :
    (run now s (.call .cleanup :: rest)).seen = (run now (s.cleanup now).2 rest).seen := by
  simp [run, Outcome.seen, Call.perform]

theorem seen_run_call (now : Nat) (s : Keyspace) {c : Call} (hc : c ≠ .cleanup)
    (rest : List Step) :
    (run now s (.call c :: rest)).seen =
      let after := (run now ((c.perform now).runOn s).2 rest).seen
      ((c, ((c.perform now).runOn s).1) :: after.1, after.2) := by
  simp [run, Outcome.seen, hc]

/-- A run without its clean-ups shows the same, also on another keyspace with the same live view. -/
theorem seen_run_filter (steps : List Step) {now : Nat} {s t : Keyspace}
    (h : s.live? now = t.live? now) :
    (run now s steps).seen = (run now t (steps.filter (· ≠ .call .cleanup))).seen := by
  induction steps generalizing now s t with
  | nil => simp [run, Outcome.seen, h]
  | cons step rest ih =>
    cases step with
    | wait millis => exact ih (later_of_same_live h millis)
    | call c =>
      by_cases hc : c = .cleanup
      · subst hc
        rw [seen_run_cleanup, List.filter_cons_of_neg (by simp)]
        exact ih ((live?_cleanup s now).trans h)
      · obtain ⟨hanswer, hlive⟩ := Call.actsAlike h hc
        rw [List.filter_cons_of_pos (by simpa using hc), seen_run_call now s hc,
          seen_run_call now t hc, hanswer, ih hlive]

/-- Slots past their deadline cannot be seen.  Runs of calls from keyspaces with the same live view
give the same answers to every call and end with the same live view, and so they do when clean-ups
are put in or left out anywhere; the counts of the clean-ups alone may differ. -/
theorem seen_of_same_live {now : Nat} {s t : Keyspace} (h : s.live? now = t.live? now)
    {steps steps' : List Step}
    (hsteps : steps.filter (· ≠ .call .cleanup) = steps'.filter (· ≠ .call .cleanup)) :
    (run now s steps).seen = (run now t steps').seen := by
  calc (run now s steps).seen
    _ = (run now t (steps.filter (· ≠ .call .cleanup))).seen := seen_run_filter steps h
    _ = (run now t (steps'.filter (· ≠ .call .cleanup))).seen := by rw [hsteps]
    _ = (run now t steps').seen := (seen_run_filter steps' rfl).symm

/-- A number whose deadline has come is not counted on, nor does its deadline come back: the counter
starts anew, whether the slot is still there, is swept away or was never there. -/
theorem seen_of_same_live_swept :
    let s : Keyspace := ({} : Keyspace).put "n" ⟨.string [57], some 5⟩
    let steps : List Step :=
      [.call (.incr "n"), .wait 1000, .call .cleanup, .call (.lifetime "n"), .call (.scan "*")]
    let steps' : List Step :=
      [.call .cleanup, .call (.incr "n"), .wait 1000, .call (.lifetime "n"), .call (.scan "*")]
    s.live? 10 = ({} : Keyspace).live? 10 ∧
      steps.filter (· ≠ .call .cleanup) = steps'.filter (· ≠ .call .cleanup) ∧
      (run 10 s steps).seen = (run 10 {} steps').seen ∧
      (run 10 s steps).seen.1 = [(.incr "n", .ok (.number 1)),
        (.lifetime "n", .ok (.lifetime .persistent)), (.scan "*", .ok (.names ["n"]))] := by
  intro s steps steps'
  have hlive : s.live? 10 = ({} : Keyspace).live? 10 := by
    rw [live?_put_eq]
    exact Function.update_eq_self "n" (({} : Keyspace).live? 10)
  have hsteps : steps.filter (· ≠ .call .cleanup) = steps'.filter (· ≠ .call .cleanup) := by
    decide
  exact ⟨hlive, hsteps, seen_of_same_live hlive hsteps, by decide +kernel⟩

end Keyspace

end SealedStore
