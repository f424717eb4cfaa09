import SealedStore.Backend.Basic
import SealedStore.Proofs.Action
import SealedStore.Proofs.Keyspace.Live

set_option autoImplicit false

/-!
# Committing is execution with rollback

The check of a transaction follows shapes only, and the commands are carried out on slots, those
past their deadline included.  Main statement: together they are the effects of the commands in a
row on what readers see, all of them or, if one is refused, none (`runOn_commit`).
-/

namespace SealedStore

namespace Command

/-- The check judges a command by the shape of its key as the effect does by the slot: it accepts
what is not refused, and follows the shape of the slot. -/
theorem shapeAfter_of_slotAfter? {c : Command} {now : Nat} {before after : Option Slot}
    (h : c.slotAfter? now before = some after) :
    c.shapeAfter (before.map fun slot => slot.datum.shape) =
      .ok (after.map fun slot => slot.datum.shape) := by
  cases c with
  | set key value ttl =>
    simp only [slotAfter?] at h
    split at h
    · cases h
    · rename_i h0
      cases h
      rcases ttl with _ | _ | seconds
      · rfl
      · exact absurd rfl h0
      · rfl
  | hset key fields =>
    rcases before with _ | ⟨_ | old, deadline⟩
    · cases h
      rfl
    · cases h
    · cases h
      rfl
  | del key =>
    cases h
    rfl

/-- The check refuses what the effect refuses, in the name of the key. -/
theorem shapeAfter_of_slotAfter?_none {c : Command} {now : Nat} {before : Option Slot}
    (h : c.slotAfter? now before = none) :
    ∃ reason, c.shapeAfter (before.map fun slot => slot.datum.shape) =
      .error (.transaction c.key reason) := by
  cases c with
  | set key value ttl =>
    simp only [slotAfter?] at h
    split at h
    · rename_i h0
      subst h0
      exact ⟨_, rfl⟩
    · cases h
  | hset key fields =>
    rcases before with _ | ⟨_ | old, deadline⟩
    · cases h
    · exact ⟨_, rfl⟩
    · cases h
  | del key => cases h

end Command

namespace LiveView

/-- What the check remembers after a command is the shapes that the effect leaves. -/
theorem shape?_update (v : LiveView) (key : String) (slot : Option Slot) :
    shape? (Function.update v key slot) =
      fun k => if k = key then slot.map fun slot => slot.datum.shape else v.shape? k := by
  funext k
  by_cases hk : k = key
  · subst hk
    simp [shape?]
  · simp [shape?, hk]

theorem check_of_execAll {now : Nat} {tx : Transaction} {v after : LiveView}
    (h : execAll now v tx = .ok after) : tx.check v.shape? = .ok () := by
  induction tx generalizing v with
  | nil => rfl
  | cons c rest ih =>
    obtain ⟨mid, hc, hrest⟩ := execAll_cons_eq_ok.1 h
    obtain ⟨slot, hslot, rfl⟩ := exec_eq_ok.1 hc
    have hshape : c.shapeAfter (v.shape? c.key) = .ok (slot.map fun slot => slot.datum.shape) :=
      Command.shapeAfter_of_slotAfter? hslot
    simp only [Transaction.check, hshape]
    rw [← shape?_update]
    exact ih hrest

theorem check_of_execAll_error {now : Nat} {tx : Transaction} {v : LiveView} {key : String}
    (h : execAll now v tx = .error key) :
    ∃ reason, tx.check v.shape? = .error (.transaction key reason) := by
  induction tx generalizing v with
  | nil => cases h
  | cons c rest ih =>
    rw [execAll_cons] at h
    unfold exec at h
    cases hslot : c.slotAfter? now (v c.key) with
    | none =>
      rw [hslot] at h
      cases h
      obtain ⟨reason, hshape⟩ := Command.shapeAfter_of_slotAfter?_none hslot
      refine ⟨reason, ?_⟩
      simp only [Transaction.check]
      unfold shape?
      rw [hshape]
    | some slot =>
      rw [hslot] at h
      have hshape : c.shapeAfter (v.shape? c.key) =
          .ok (slot.map fun slot => slot.datum.shape) := Command.shapeAfter_of_slotAfter? hslot
      simp only [Transaction.check, hshape]
      rw [← shape?_update]
      exact ih h

end LiveView

namespace Keyspace

/-- A transaction of which no command is refused is carried out. -/
theorem commit_of_execAll {s : Keyspace} {now : Nat} {tx : Transaction} {after : LiveView}
    (htx : ∀ c ∈ tx, c.Endures now) (h : LiveView.execAll now (s.live? now) tx = .ok after) :
    ∃ s', s.commit now tx = .ok s' ∧ s'.live? now = after := by
  refine ⟨tx.foldl (fun s c => s.apply now c) s, ?_, live?_foldl_apply htx h⟩
  unfold commit
  rw [show s.shape? now = LiveView.shape? (s.live? now) from rfl, LiveView.check_of_execAll h]

/-- A transaction is refused in the name of the first command that is refused. -/
theorem commit_of_execAll_error {s : Keyspace} {now : Nat} {tx : Transaction} {key : String}
    (h : LiveView.execAll now (s.live? now) tx = .error key) :
    ∃ reason, s.commit now tx = .error (.transaction key reason) := by
  obtain ⟨reason, hcheck⟩ := LiveView.check_of_execAll_error h
  refine ⟨reason, ?_⟩
  unfold commit
  rw [show s.shape? now = LiveView.shape? (s.live? now) from rfl, hcheck]

/-- What readers see after a commit that was accepted. -/
theorem execAll_of_commit {s s' : Keyspace} {now : Nat} {tx : Transaction}
    (htx : ∀ c ∈ tx, c.Endures now) (h : s.commit now tx = .ok s') :
    LiveView.execAll now (s.live? now) tx = .ok (s'.live? now) := by
  cases hexec : LiveView.execAll now (s.live? now) tx with
  | error key =>
    obtain ⟨reason, herror⟩ := commit_of_execAll_error hexec
    rw [herror] at h
    cases h
  | ok after =>
    obtain ⟨t, ht, hlive⟩ := commit_of_execAll htx hexec
    rw [ht] at h
    cases h
    rw [hlive]

theorem runOn_commit_eq (s : Keyspace) (now : Nat) (tx : Transaction) :
    (Backend.commit now tx : Action Keyspace Unit).runOn s =
      match s.commit now tx with
      | .ok after => (.ok (), after)
      | .error e => (.error e, s) := by
  refine (Action.runOn_attempt
    (fun s : Keyspace => (s.commit now tx).map fun t => ((), t)) s).trans ?_
  cases s.commit now tx <;> rfl

/-- A commit that is accepted carries out every command. -/
theorem commit_ok {s s' : Keyspace} {now : Nat} {tx : Transaction} (h : s.commit now tx = .ok s') :
    tx.foldl (fun s c => s.apply now c) s = s' := by
  unfold commit at h
  split at h
  · cases h
  · cases h
    rfl

/-- In a commit that is accepted each command has its effect when its turn comes. -/
theorem exec_at_turn {s s' : Keyspace} {now : Nat} {before rest : Transaction} {c : Command}
    (htx : ∀ d ∈ before ++ c :: rest, d.Endures now)
    (h : s.commit now (before ++ c :: rest) = .ok s') :
    LiveView.exec now ((before.foldl (fun s d => s.apply now d) s).live? now) c =
      .ok (((before.foldl (fun s d => s.apply now d) s).apply now c).live? now) := by
  have hall := execAll_of_commit htx h
  rw [LiveView.execAll_append] at hall
  cases hbefore : LiveView.execAll now (s.live? now) before with
  | error key =>
    rw [hbefore] at hall
    cases hall
  | ok seen =>
    rw [hbefore] at hall
    obtain ⟨after, hc, -⟩ := LiveView.execAll_cons_eq_ok.1 hall
    have hturn : (before.foldl (fun s d => s.apply now d) s).live? now = seen :=
      live?_foldl_apply (fun d hd => htx d (List.mem_append_left _ hd)) hbefore
    have hlast : c.Endures now := htx c (by simp)
    rw [hturn, hc, live?_apply hlast (by rw [hturn, hc])]

/-- A commit carries out the effects of its commands in a row on what readers see.  If one of them
is refused, it fails in the name of its key, and no slot has changed.  If it succeeds, no command
was passed over: each had its effect when its turn came. -/
theorem runOn_commit (s : Keyspace) (now : Nat) (tx : Transaction) (hnow : now < endOfTime) :
    (match LiveView.execAll now (s.live? now) tx with
      | .ok after => ∃ s', (Backend.commit now tx : Action Keyspace Unit).runOn s = (.ok (), s') ∧
          s'.live? now = after
      | .error key => ∃ reason, (Backend.commit now tx : Action Keyspace Unit).runOn s =
          (.error (.transaction key reason), s)) ∧
    (((Backend.commit now tx : Action Keyspace Unit).runOn s).1 = .ok () →
      ∀ before c rest, tx = before ++ c :: rest →
        let turn := before.foldl (fun s d => s.apply now d) s
        LiveView.exec now (turn.live? now) c = .ok ((turn.apply now c).live? now)) := by
  have htx : ∀ c ∈ tx, c.Endures now := fun c _ => Command.endures_of_lt hnow c
  constructor
  · cases hexec : LiveView.execAll now (s.live? now) tx with
    | ok after =>
      obtain ⟨s', hcommit, hlive⟩ := commit_of_execAll htx hexec
      exact ⟨s', by rw [runOn_commit_eq, hcommit], hlive⟩
    | error key =>
      obtain ⟨reason, hcommit⟩ := commit_of_execAll_error hexec
      exact ⟨reason, by rw [runOn_commit_eq, hcommit]⟩
  · rintro hok before c rest rfl
    rw [runOn_commit_eq] at hok
    cases hcommit : s.commit now (before ++ c :: rest) with
    | error e =>
      rw [hcommit] at hok
      cases hok
    | ok s' => exact exec_at_turn htx hcommit

/-- Fields may be staged for a key whose bytes have expired, and for one that the same transaction
sets and then removes. -/
theorem runOn_commit_revived :
    10 < endOfTime ∧
      ∃ s', (Backend.commit 10 [.hset "h" [("f", [1])], .set "k" [2] (some 1), .del "k",
          .hset "k" [("g", [3]), ("g", [4])]] : Action Keyspace Unit).runOn
            (({} : Keyspace).put "h" ⟨.string [0], some 5⟩) = (.ok (), s') ∧
        s'.live? 10 "h" = some ⟨.hash (.ofList [("f", ([1] : Bytes))]), none⟩ ∧
        s'.live? 10 "k" = some ⟨.hash (.ofList [("g", ([4] : Bytes))]), none⟩ := by
  refine ⟨by decide, ?_⟩
  obtain ⟨s', hrun, hlive⟩ := (runOn_commit (({} : Keyspace).put "h" ⟨.string [0], some 5⟩) 10
    [.hset "h" [("f", [1])], .set "k" [2] (some 1), .del "k", .hset "k" [("g", [3]), ("g", [4])]]
    (by decide)).1
  exact ⟨s', hrun, by rw [hlive]; rfl, by rw [hlive]; rfl⟩

end Keyspace

end SealedStore
