import SealedStore.Proofs.Keyspace.Commit

set_option autoImplicit false

/-!
# Writes one by one and in one transaction

Bytes can be stored and keys removed by a call for each, or by commands that are committed together.
The two ways come to the same unless bytes are to live for no seconds: then the transaction is
refused, while the calls go through (`agree_iff`).
-/

namespace SealedStore

/-- A write for which there is a call as well as a command. -/
inductive PlainWrite
  /-- Stores plain bytes, with or without a number of seconds to live. -/
  | set (key : String) (value : Bytes) (ttl : Option Nat)
  /-- Removes a key. -/
  | del (key : String)
  deriving DecidableEq

namespace PlainWrite

/-- The command for a write. -/
def command : PlainWrite → Command
  | .set key value ttl => .set key value ttl
  | .del key => .del key

/-- The call for a write; what a deletion answers is left out. -/
def perform (now : Nat) : PlainWrite → Action Keyspace Unit
  | .set key value ttl => Backend.set now key value ttl
  | .del key => (fun _ => ()) <$> Backend.delete now [key]

/-- Whether a write stores bytes that are to live for no seconds. -/
def isVoid : PlainWrite → Bool
  | .set _ _ ttl => ttl = some 0
  | .del _ => false

/-- A call does what carrying out the command does, and does not fail. -/
theorem runOn_perform (w : PlainWrite) (now : Nat) (s : Keyspace) :
    (w.perform now).runOn s = (.ok (), s.apply now w.command) := by
  cases w with
  | set key value ttl => rfl
  | del key => rfl

/-- Calls in a row do what carrying out the commands in a row does. -/
theorem runOn_forM_perform (writes : List PlainWrite) (now : Nat) (s : Keyspace) :
    (writes.forM (perform now)).runOn s =
      (.ok (), (writes.map command).foldl (fun s c => s.apply now c) s) := by
  induction writes generalizing s with
  | nil => rfl
  | cons w rest ih =>
    have hcons : (w :: rest).forM (perform now) =
        (w.perform now >>= fun _ => rest.forM (perform now)) := rfl
    rw [hcons, Action.runOn_bind, runOn_perform]
    exact ih (s.apply now w.command)

/-- The check lets a write pass, whatever the key holds, unless it is void. -/
theorem shapeAfter_command (w : PlainWrite) (before : Option Shape) :
    (w.isVoid = false ∧ ∃ after, w.command.shapeAfter before = .ok after) ∨
      (w.isVoid = true ∧
        w.command.shapeAfter before = .error (.transaction w.command.key "zero expiry")) := by
  cases w with
  | set key value ttl =>
    rcases ttl with _ | _ | seconds
    · exact .inl ⟨rfl, _, rfl⟩
    · exact .inr ⟨rfl, rfl⟩
    · exact .inl ⟨rfl, _, rfl⟩
  | del key => exact .inl ⟨rfl, _, rfl⟩

/-- The check of a transaction of writes finds the first void one. -/
theorem check_commands (writes : List PlainWrite) (shapes : String → Option Shape) :
    Transaction.check shapes (writes.map command) =
      match writes.find? isVoid with
      | none => .ok ()
      | some w => .error (.transaction w.command.key "zero expiry") := by
  induction writes generalizing shapes with
  | nil => rfl
  | cons w rest ih =>
    rw [List.map_cons, Transaction.check]
    rcases shapeAfter_command w (shapes w.command.key) with ⟨hvoid, after, hafter⟩ | ⟨hvoid, hafter⟩
    · rw [hafter, List.find?_cons_of_neg (by rw [hvoid]; exact Bool.false_ne_true)]
      exact ih _
    · rw [hafter, List.find?_cons_of_pos hvoid]

/-- A transaction of writes does what the calls do, unless it is refused for the first void one. -/
theorem runOn_commit_commands (writes : List PlainWrite) (now : Nat) (s : Keyspace) :
    (Backend.commit now (writes.map command) : Action Keyspace Unit).runOn s =
      match writes.find? isVoid with
      | none => (writes.forM (perform now)).runOn s
      | some w => (.error (.transaction w.command.key "zero expiry"), s) := by
  rw [Keyspace.runOn_commit_eq, runOn_forM_perform]
  unfold Keyspace.commit
  rw [check_commands]
  cases writes.find? isVoid <;> rfl

/-- Committed together and called for one by one, the writes succeed and leave the same to be seen,
or the commit fails and so does one of the calls. -/
def Agree (now : Nat) (s : Keyspace) (writes : List PlainWrite) : Prop :=
  let together := (Backend.commit now (writes.map command) : Action Keyspace Unit).runOn s
  let oneByOne := (writes.forM (perform now)).runOn s
  (together.1 = .ok () ∧ oneByOne.1 = .ok () ∧ together.2.live? now = oneByOne.2.live? now) ∨
    (∃ e, together.1 = .error e) ∧ ∃ e, oneByOne.1 = .error e

/-- Writes that are committed together and writes that are called for one by one agree, on every
keyspace and at every time, if and only if no bytes are to live for no seconds.  The calls succeed
in any case and carry out every write.  The commit does the same to the slots, unless some bytes are
to live for no seconds: then it fails in the name of the first of these and changes nothing. -/
theorem agree_iff (now : Nat) (s : Keyspace) (writes : List PlainWrite) :
    (Agree now s writes ↔ ∀ w ∈ writes, w.isVoid = false) ∧
      (writes.forM (perform now)).runOn s =
        (.ok (), (writes.map command).foldl (fun s c => s.apply now c) s) ∧
      (Backend.commit now (writes.map command) : Action Keyspace Unit).runOn s =
        match writes.find? isVoid with
        | none => (writes.forM (perform now)).runOn s
        | some w => (.error (.transaction w.command.key "zero expiry"), s) := by
  have hcalls := runOn_forM_perform writes now s
  have hcommit := runOn_commit_commands writes now s
  refine ⟨?_, hcalls, hcommit⟩
  unfold Agree
  rw [hcommit, hcalls]
  cases hfind : writes.find? isVoid with
  | none =>
    have hnone : ∀ w ∈ writes, w.isVoid = false := fun w hw =>
      Bool.eq_false_iff.2 (List.find?_eq_none.1 hfind w hw)
    exact iff_of_true (.inl ⟨rfl, rfl, rfl⟩) hnone
  | some w =>
    refine iff_of_false ?_ fun hnone => ?_
    · rintro (⟨hok, -⟩ | ⟨-, e, he⟩)
      · cases hok
      · cases he
    · have hvoid := List.find?_some hfind
      rw [hnone w (List.mem_of_find?_eq_some hfind)] at hvoid
      cases hvoid

/-- Bytes that are to live for no seconds are taken by the call and refused by the commit. -/
theorem not_agree_void :
    let writes : List PlainWrite := [.set "k" [118] (some 0)]
    (Backend.commit 0 (writes.map command) : Action Keyspace Unit).runOn {} =
        (.error (.transaction "k" "zero expiry"), {}) ∧
      ((writes.forM (perform 0)).runOn ({} : Keyspace)).1 = .ok () ∧ ¬ Agree 0 {} writes := by
  refine ⟨rfl, rfl, ?_⟩
  rintro (⟨hok, -⟩ | ⟨-, e, he⟩)
  · cases hok
  · cases he

end PlainWrite

end SealedStore
