import Mathlib.Logic.Function.Basic
import SealedStore.Keyspace.Basic

set_option autoImplicit false

/-!
# Keyspaces as a reader sees them

The live view of a keyspace maps each key to its slot as long as the deadline has not come.  The
effect of a command on a live view says nothing about slots past their deadline; carrying out the
command in a keyspace has that effect on what readers of the keyspace see (`live?_apply`).
-/

namespace SealedStore

namespace Command

/-- What is seen under the key of a command after it, given what was seen before; `none` when the
command is refused.  Refused are a lifetime of no seconds and fields for a key that holds bytes.
Fields are added to a hash, which keeps its deadline, or begin a new one without a deadline. -/
def slotAfter? (c : Command) (now : Nat) (before : Option Slot) : Option (Option Slot) :=
  match c, before with
  | .set _ value ttl, _ =>
    if ttl = some 0 then none else some (some ⟨.string value, ttl.map (deadlineAfter now)⟩)
  | .hset _ _, some ⟨.string _, _⟩ => none
  | .hset _ fields, some ⟨.hash old, deadline⟩ =>
    some (some ⟨.hash (old.insertMany fields), deadline⟩)
  | .hset _ fields, none => some (some ⟨.hash (Std.ExtTreeMap.insertMany ∅ fields), none⟩)
  | .del _, _ => some none

/-- Whether what a command sets with a lifetime lives at all: it does before the end of time. -/
def Endures (now : Nat) : Command → Prop
  | .set _ _ (some _) => now < endOfTime
  | _ => True

theorem endures_of_lt {now : Nat} (h : now < endOfTime) (c : Command) : c.Endures now := by
  unfold Endures
  split
  · exact h
  · trivial

end Command

/-- The slots that a reader sees, by key. -/
abbrev LiveView := String → Option Slot

namespace LiveView

/-- The shape of what a reader sees under a key. -/
def shape? (v : LiveView) (key : String) : Option Shape := (v key).map fun slot => slot.datum.shape

/-- The effect of one command on what readers see, or the key of the command if it is refused. -/
def exec (now : Nat) (v : LiveView) (c : Command) : Except String LiveView :=
  match c.slotAfter? now (v c.key) with
  | some slot => .ok (Function.update v c.key slot)
  | none => .error c.key

/-- The effect of commands in a row; it ends at the first one that is refused. -/
def execAll (now : Nat) (v : LiveView) (tx : Transaction) : Except String LiveView :=
  tx.foldlM (exec now) v

theorem execAll_cons (now : Nat) (v : LiveView) (c : Command) (rest : Transaction) :
    execAll now v (c :: rest) = (exec now v c).bind fun after => execAll now after rest := rfl

theorem execAll_append (now : Nat) (v : LiveView) (before rest : Transaction) :
    execAll now v (before ++ rest) =
      (execAll now v before).bind fun after => execAll now after rest := by
  unfold execAll
  rw [List.foldlM_append]
  rfl

theorem exec_eq_ok {now : Nat} {v after : LiveView} {c : Command} :
    exec now v c = .ok after ↔
      ∃ slot, c.slotAfter? now (v c.key) = some slot ∧ after = Function.update v c.key slot := by
  unfold exec
  constructor
  · intro h
    split at h
    · rename_i slot hslot
      cases h
      exact ⟨slot, hslot, rfl⟩
    · cases h
  · rintro ⟨slot, hslot, rfl⟩
    rw [hslot]

theorem execAll_cons_eq_ok {now : Nat} {v after : LiveView} {c : Command} {rest : Transaction} :
    execAll now v (c :: rest) = .ok after ↔
      ∃ mid, exec now v c = .ok mid ∧ execAll now mid rest = .ok after := by
  rw [execAll_cons]
  cases exec now v c <;> simp [Except.bind]

end LiveView

namespace Keyspace

/-! ## Commands in a keyspace -/

theorem live?_put (s : Keyspace) {now : Nat} (key : String) {slot : Slot}
    (h : slot.isExpired now = false) :
    (s.put key slot).live? now = Function.update (s.live? now) key (some slot) := by
  funext other
  by_cases he : other = key
  · subst he
    simp [h]
  · rw [live?_put_of_ne s now slot (Ne.symm he), Function.update_of_ne he]

theorem live?_drop (s : Keyspace) (now : Nat) (key : String) :
    (s.drop key).live? now = Function.update (s.live? now) key none := by
  funext other
  by_cases he : other = key
  · subst he
    simp
  · rw [live?_drop_of_ne s now (Ne.symm he), Function.update_of_ne he]

/-- What is seen has a deadline that has not come. -/
theorem isExpired_of_live? {s : Keyspace} {now : Nat} {key : String} {slot : Slot}
    (h : s.live? now key = some slot) : slot.isExpired now = false := by
  unfold live? at h
  have := (Option.filter_eq_some_iff.1 h).2
  simpa using this

/-- Bytes with a lifetime of at least a second are live at once. -/
theorem isExpired_ofBytes {now : Nat} {ttl : Option Nat} (value : Bytes) (h0 : ttl ≠ some 0)
    (hend : ∀ seconds ∈ ttl, now < endOfTime) :
    (Slot.ofBytes value now ttl).isExpired now = false := by
  cases ttl with
  | none => rfl
  | some seconds =>
    have hlt : now < endOfTime := hend seconds rfl
    have hpos : seconds ≠ 0 := fun e => h0 (congrArg some e)
    simp only [Slot.ofBytes, Slot.isExpired, Option.map_some, deadlineAfter,
      decide_eq_false_iff_not]
    omega

/-- Carrying out a command has the effect of the command on the live view. -/
theorem live?_apply {s : Keyspace} {now : Nat} {c : Command} {after : LiveView}
    (hc : c.Endures now) (h : LiveView.exec now (s.live? now) c = .ok after) :
    (s.apply now c).live? now = after := by
  obtain ⟨slot, hslot, rfl⟩ := LiveView.exec_eq_ok.1 h
  cases c with
  | set key value ttl =>
    simp only [Command.slotAfter?] at hslot
    split at hslot
    · cases hslot
    · rename_i h0
      cases hslot
      have hend : ∀ seconds ∈ ttl, now < endOfTime := by
        intro seconds hs
        rw [Option.mem_def.1 hs] at hc
        exact hc
      exact live?_put s key (isExpired_ofBytes value h0 hend)
  | hset key fields =>
    simp only [Command.key] at hslot ⊢
    rcases hseen : s.live? now key with _ | ⟨_ | old, deadline⟩
    · rw [hseen] at hslot
      cases hslot
      simp only [Keyspace.apply, hseen]
      exact live?_put s key rfl
    · rw [hseen] at hslot
      cases hslot
    · -- The hash keeps its deadline, which has not come since the hash is seen.
      rw [hseen] at hslot
      cases hslot
      simp only [Keyspace.apply, hseen]
      have hlive := isExpired_of_live? hseen
      exact live?_put s key hlive
  | del key =>
    cases hslot
    exact live?_drop s now key

/-- Carrying out commands in a row has their effect on the live view. -/
theorem live?_foldl_apply {now : Nat} {tx : Transaction} (htx : ∀ c ∈ tx, c.Endures now)
    {s : Keyspace} {after : LiveView} (h : LiveView.execAll now (s.live? now) tx = .ok after) :
    (tx.foldl (fun s c => s.apply now c) s).live? now = after := by
  induction tx generalizing s with
  | nil =>
    cases h
    rfl
  | cons c rest ih =>
    obtain ⟨mid, hc, hrest⟩ := LiveView.execAll_cons_eq_ok.1 h
    have hmid : (s.apply now c).live? now = mid := live?_apply (htx c List.mem_cons_self) hc
    rw [List.foldl_cons]
    refine ih (fun d hd => htx d (List.mem_cons_of_mem c hd)) ?_
    rw [hmid]
    exact hrest

end Keyspace

end SealedStore
