import SealedStore.Proofs.Keyspace.Commit
import SealedStore.Proofs.Names
import SealedStore.Proofs.Store.Pipeline

set_option autoImplicit false

/-!
# Writing values

What a write of a value does to the slots when it succeeds, and that it does nothing to them when it
fails; the same for one value under several namespaces.
-/

namespace SealedStore

namespace Store

/-! ## One value -/

/-- A write that succeeds is not one to a counter, and puts the bytes of the value in place. -/
theorem write_encoded {h : Handle} {key : String} {v : Value} {ttl : Option Nat}
    {space : Option String} {s s' : Store Keyspace}
    (hrun : (h.write key v ttl space).runOn s = (.ok (), s')) :
    Namespace.isCounter (h.fullName key space) = false ∧
      ∃ raw mid, (encode v).runOn s = (.ok raw, mid) ∧
        s'.uncounted = uncounted { s with
          backend := s.backend.set s.clock.unixMillis (h.fullName key space) raw ttl } := by
  unfold Handle.write at hrun
  obtain ⟨_, s₁, hcheck, hrun⟩ := Action.runOn_bind_eq_ok.1 hrun
  obtain ⟨hwritable, rfl⟩ := Prod.mk.inj hcheck
  obtain ⟨raw, mid, hencode, hrun⟩ := Action.runOn_bind_eq_ok.1 hrun
  have hraw := Action.runOn_mapError_eq_ok.1 hencode
  have hmid : mid.uncounted = s.uncounted := (keeps_encode v).of_runOn hraw
  refine ⟨Namespace.checkWritable_eq_ok.1 hwritable, raw, mid, hraw, ?_⟩
  obtain ⟨-, rfl⟩ := Prod.mk.inj hrun
  exact uncounted_withBackend hmid fun now b => b.set now (h.fullName key space) raw ttl

/-- A write that succeeds puts bytes in place that open to the value. -/
theorem write_ok {h : Handle} {key : String} {v : Value} {ttl : Option Nat} {space : Option String}
    {s s' : Store Keyspace} (hs : s.Faithful)
    (hrun : (h.write key v ttl space).runOn s = (.ok (), s')) :
    ∃ raw, s.openBytes raw = .ok v.reread ∧
      s'.uncounted = uncounted { s with
        backend := s.backend.set s.clock.unixMillis (h.fullName key space) raw ttl } := by
  obtain ⟨-, raw, mid, hencode, hs'⟩ := write_encoded hrun
  exact ⟨raw, openBytes_of_encode hs hencode, hs'⟩

/-- The store after bytes were put in place under a name. -/
def holding (s : Store Keyspace) (name : String) (raw : Bytes) (ttl : Option Nat) :
    Store Keyspace :=
  { s with
    calls := s.calls + 1
    backend := s.backend.set s.clock.unixMillis name raw ttl }

/-- With encryption off a write puts what the codec writes in place, except under reserved names. -/
theorem runOn_write_of_unencrypted {s : Store Keyspace} (hs : s.encryption = none) {v : Value}
    {raw : Bytes} (hwrite : s.codec.write s.calls s.clock v = .ok raw) (h : Handle) (key : String)
    (ttl : Option Nat) (space : Option String) :
    (h.write key v ttl space).runOn s =
      match Namespace.checkWritable (h.fullName key space) with
      | .ok () => (.ok (), s.holding (h.fullName key space) raw ttl)
      | .error e => (.error e, s) := by
  unfold Handle.write
  rw [Action.runOn_bind, Action.runOn_ofAnswer]
  cases Namespace.checkWritable (h.fullName key space) with
  | error e => rfl
  | ok _ =>
    simp only [Action.runOn_bind, Action.runOn_mapError, runOn_encode_of_unencrypted hs, hwrite]
    rfl

theorem keepsOnFailure_write (h : Handle) (key : String) (v : Value) (ttl : Option Nat)
    (space : Option String) :
    (h.write key v ttl space : Action (Store Keyspace) Unit).KeepsOnFailure uncounted := by
  unfold Handle.write
  refine (Action.keeps_ofAnswer _).bind_onFailure fun _ => ?_
  refine ((keeps_encode v).mapError _).bind_onFailure fun data => ?_
  exact keepsOnFailure_onBackend (fun _ => Action.keepsOnFailure_update _) uncounted

/-! ## One value under several namespaces -/

/-- Stages a JSON value under a namespace. -/
def stageCopy (h : Handle) (key : String) (j : Json) (space : String) :
    Action (Store Keyspace) Command := do
  let name := h.fullName key (some space)
  .ofAnswer (Namespace.checkWritable name)
  let data ← (encode (.ofJson j)).mapError (.inContext "put" name)
  return .set name data none

theorem keeps_stageCopy (h : Handle) (key : String) (j : Json) (space : String) :
    (stageCopy h key j space).Keeps uncounted := by
  unfold stageCopy
  refine (Action.keeps_ofAnswer _).bind fun _ => ?_
  exact ((keeps_encode _).mapError _).bind fun data => Action.keeps_pure _

/-- A command that puts the bytes of a JSON value in place under a namespace, sealed by a store of
the same settings.  Its name is not that of a counter. -/
def StagesCopy (s : Store Keyspace) (h : Handle) (key : String) (j : Json) (space : String)
    (c : Command) : Prop :=
  Namespace.isCounter (h.fullName key (some space)) = false ∧
    ∃ (raw : Bytes) (t t' : Store Keyspace), t.settings = s.settings ∧
      (encode (.ofJson j)).runOn t = (.ok raw, t') ∧
      c = .set (h.fullName key (some space)) raw none

theorem stageCopy_ok {h : Handle} {key : String} {j : Json} {space : String}
    {s s' : Store Keyspace} {c : Command}
    (hrun : (stageCopy h key j space).runOn s = (.ok c, s')) : s.StagesCopy h key j space c := by
  unfold stageCopy at hrun
  obtain ⟨_, s₁, hcheck, hrun⟩ := Action.runOn_bind_eq_ok.1 hrun
  obtain ⟨hwritable, rfl⟩ := Prod.mk.inj hcheck
  obtain ⟨raw, mid, hencode, hrun⟩ := Action.runOn_bind_eq_ok.1 hrun
  cases hrun
  exact ⟨Namespace.checkWritable_eq_ok.1 hwritable, raw, _, _, rfl,
    Action.runOn_mapError_eq_ok.1 hencode, rfl⟩

theorem StagesCopy.of_settings {s t : Store Keyspace} {h : Handle} {key : String} {j : Json}
    {space : String} {c : Command} (hc : t.StagesCopy h key j space c)
    (ht : t.settings = s.settings) : s.StagesCopy h key j space c := by
  obtain ⟨hwritable, raw, u, u', hu, hencode, hset⟩ := hc
  exact ⟨hwritable, raw, u, u', hu.trans ht, hencode, hset⟩

/-- A command that puts a copy of a JSON value in place under a namespace. -/
def IsCopy (s : Store Keyspace) (h : Handle) (key : String) (j : Json) (space : String)
    (c : Command) : Prop :=
  ∃ raw, c = .set (h.fullName key (some space)) raw none ∧
    s.openBytes raw = .ok (Value.ofJson j).reread

theorem StagesCopy.isCopy {s : Store Keyspace} {h : Handle} {key : String} {j : Json}
    {space : String} {c : Command} (hs : s.Faithful) (hc : s.StagesCopy h key j space c) :
    s.IsCopy h key j space c := by
  obtain ⟨-, raw, t, t', ht, hencode, hset⟩ := hc
  have hopen := openBytes_of_encode (hs.of_settings ht) hencode
  rw [openBytes_of_settings ht] at hopen
  exact ⟨raw, hset, hopen⟩

theorem putFanout_eq (h : Handle) (key : String) (j : Json) (spaces : List String) :
    (h.putFanout key j spaces : Action (Store Keyspace) Unit) = (do
      let tx ← spaces.mapM (stageCopy h key j)
      onBackend (Backend.commit · tx)) := rfl

/-- What is staged under several namespaces is a copy for each of them. -/
theorem forall₂_of_stageCopies {h : Handle} {key : String} {j : Json} {spaces : List String}
    {tx : Transaction} {s s' : Store Keyspace}
    (hstage : (spaces.mapM (stageCopy h key j)).runOn s = (.ok tx, s')) :
    List.Forall₂ (s.StagesCopy h key j) spaces tx := by
  refine Action.forall₂_of_mapM (keeps_stageCopy h key j) ?_ hstage
  intro space t t' c ht hc
  exact (stageCopy_ok hc).of_settings (settings_of_uncounted ht)

/-- A write under several namespaces that succeeds carries out a command for each of them. -/
theorem putFanout_staged {h : Handle} {key : String} {j : Json} {spaces : List String}
    {s s' : Store Keyspace} (hrun : (h.putFanout key j spaces).runOn s = (.ok (), s')) :
    ∃ tx, List.Forall₂ (s.StagesCopy h key j) spaces tx ∧
      s'.uncounted = uncounted { s with
        backend := tx.foldl (fun b c => b.apply s.clock.unixMillis c) s.backend } := by
  rw [putFanout_eq] at hrun
  obtain ⟨tx, mid, hstage, hrun⟩ := Action.runOn_bind_eq_ok.1 hrun
  have hmid : mid.uncounted = s.uncounted :=
    (Action.keeps_mapM fun space _ => keeps_stageCopy h key j space).of_runOn hstage
  refine ⟨tx, forall₂_of_stageCopies hstage, ?_⟩
  rw [runOn_onBackend, Keyspace.runOn_commit_eq] at hrun
  cases hcommit : mid.backend.commit mid.clock.unixMillis tx with
  | error e =>
    rw [hcommit] at hrun
    cases hrun
  | ok after =>
    rw [hcommit] at hrun
    obtain ⟨-, rfl⟩ := Prod.mk.inj hrun
    rw [← Keyspace.commit_ok hcommit]
    exact uncounted_withBackend hmid fun now b => tx.foldl (fun b c => b.apply now c) b

/-- A write under several namespaces that succeeds puts a copy in place for each of them. -/
theorem putFanout_ok {h : Handle} {key : String} {j : Json} {spaces : List String}
    {s s' : Store Keyspace} (hs : s.Faithful)
    (hrun : (h.putFanout key j spaces).runOn s = (.ok (), s')) :
    ∃ tx, List.Forall₂ (s.IsCopy h key j) spaces tx ∧
      s'.uncounted = uncounted { s with
        backend := tx.foldl (fun b c => b.apply s.clock.unixMillis c) s.backend } := by
  obtain ⟨tx, htx, hs'⟩ := putFanout_staged hrun
  exact ⟨tx, htx.imp fun _ _ hc => hc.isCopy hs, hs'⟩

theorem keepsOnFailure_putFanout (h : Handle) (key : String) (j : Json) (spaces : List String) :
    (h.putFanout key j spaces : Action (Store Keyspace) Unit).KeepsOnFailure uncounted := by
  rw [putFanout_eq]
  refine (Action.keeps_mapM fun space _ => keeps_stageCopy h key j space).bind_onFailure ?_
  intro tx
  exact keepsOnFailure_onBackend (fun _ => Action.keepsOnFailure_attempt _) uncounted

end Store

end SealedStore
