import SealedStore.Proofs.Keyspace.Counter
import SealedStore.Proofs.Store.ValueWrites
import SealedStore.Store.Records

set_option autoImplicit false

/-!
# Writing a record, stage by stage

A put by a scheme passes through five stages: the scheme is checked, the key is settled as far as it
can be, the claims of the record are checked, a number is drawn if the key is still open, and the
record is committed with its entries (`putRecord_eq`).  The stages before the commit touch no slot
but the counter, and a commit that fails touches none, so a put that fails leaves every slot but the
counter as it was (`putRecord_failure`).
-/

namespace SealedStore

namespace Store

/-! ## Stages -/

section Stages

variable {β : Type} [Backend β]

/-- The key of a record, as far as it is settled before a number is drawn. -/
def knownKey (scheme : Scheme) (key : String) (r : Record) : Action (Store β) (Option String) :=
  if key = "" then deriveKey scheme r else pure (some key)

/-- Refuses a record whose key in an index belongs to another record. -/
def claimIndex (scheme : Scheme) (r : Record) (fullName : Option String) (index : Index) :
    Action (Store β) Unit := do
  let some key := index.presentKey? r | return
  let some owner ← onBackend (Backend.field · (scheme.lookupKey index.name) key) | return
  if fullName.map Utf8.encode ≠ some owner then
    throw (.scheme s!"index '{index.name}' already maps '{key}' to {Utf8.decodeLossy owner}")

theorem checkUnique_eq (scheme : Scheme) (r : Record) (fullName : Option String) :
    (checkUnique scheme r fullName : Action (Store β) Unit) =
      (scheme.indexes.filter fun index => !index.shared).forM (claimIndex scheme r fullName) := rfl

/-- Refuses a record under the name of a counter, and one whose keys belong to another. -/
def checkClaims (scheme : Scheme) (r : Record) (known : Option String) : Action (Store β) Unit := do
  .ofAnswer (known.elim (.ok ()) fun key => Namespace.checkWritable (scheme.fullName key))
  if scheme.layout = .plain then checkUnique scheme r (known.map scheme.fullName) else pure ()

/-- The key that a record lands under: the one that is known, or the next number. -/
def drawKey (scheme : Scheme) (known : Option String) : Action (Store β) String :=
  match known with
  | some key => pure key
  | none => Integer.render <$> onBackend (Backend.incr · (Namespace.sequenceKey scheme.space))

/-- Stages and commits a record under a key. -/
def commitRecord (scheme : Scheme) (r : Record) (key : String) : Action (Store β) Landing := do
  let tx ← stage scheme r (scheme.fullName key)
  (onBackend (Backend.commit · tx)).mapError (commitFailure (scheme.fullName key))
  return ⟨key, scheme.fullName key⟩

theorem putRecord_eq (scheme : Scheme) (key : String) (j : Json) :
    (putRecord scheme key j : Action (Store β) Landing) = (do
      checkScheme scheme
      let r ← .ofAnswer (Record.ofJson j)
      let known ← knownKey scheme key r
      checkClaims scheme r known
      let key ← drawKey scheme known
      commitRecord scheme r key) := by
  unfold putRecord knownKey
  refine bind_congr fun _ => bind_congr fun r => ?_
  by_cases hk : key = ""
  · simp only [hk, ↓reduceIte]
    refine bind_congr fun known => ?_
    by_cases hl : scheme.layout = .plain <;> cases known <;>
      simp [checkClaims, drawKey, commitRecord, hl]
  · by_cases hl : scheme.layout = .plain <;> simp [checkClaims, drawKey, commitRecord, hk, hl]

/-- The field of a hash record for one of its members: the JSON text, encrypted by itself if the
scheme says so. -/
def sealField (scheme : Scheme) (fullName : String) :
    String × Json → Action (Store β) (String × Bytes)
  | (name, j) => do
    let plain := j.toBytes
    let data ← if scheme.encrypts name then
        (encrypt plain).mapError (.inContext "put" fullName)
      else pure plain
    return (name, data)

theorem stageHash_eq (scheme : Scheme) (r : Record) (fullName : String) :
    (stageHash scheme r fullName : Action (Store β) Transaction) = (do
      let fields ← r.mapM (sealField scheme fullName)
      return .del fullName :: if fields = [] then [] else [.hset fullName fields]) := rfl

end Stages

/-! ## What the stages leave alone -/

section Frame

variable {γ : Type}

theorem keeps_checkScheme (scheme : Scheme) (view : Store Keyspace → γ) :
    (checkScheme scheme).Keeps view := Action.keeps_query _

theorem keeps_deriveKey (scheme : Scheme) (r : Record) :
    (deriveKey scheme r : Action (Store Keyspace) (Option String)).Keeps uncounted := by
  unfold deriveKey
  split
  · exact Action.keeps_pure none
  · exact keeps_drawIdentifier.map some
  · split
    · exact Action.keeps_pure _
    · exact keeps_drawIdentifier.map some

theorem keeps_knownKey (scheme : Scheme) (key : String) (r : Record) :
    (knownKey scheme key r : Action (Store Keyspace) (Option String)).Keeps uncounted := by
  unfold knownKey
  split
  · exact keeps_deriveKey scheme r
  · exact Action.keeps_pure (some key)

theorem keeps_claimIndex (scheme : Scheme) (r : Record) (fullName : Option String) (index : Index)
    (view : Store Keyspace → γ) : (claimIndex scheme r fullName index).Keeps view := by
  unfold claimIndex
  split
  · refine (keeps_onBackend (fun _ => Action.keeps_query _) view).bind fun owner => ?_
    split
    · split
      · exact Action.keeps_throw _
      · exact Action.keeps_pure ()
    · exact Action.keeps_pure ()
  · exact Action.keeps_pure ()

theorem keeps_checkUnique (scheme : Scheme) (r : Record) (fullName : Option String)
    (view : Store Keyspace → γ) : (checkUnique scheme r fullName).Keeps view := by
  rw [checkUnique_eq]
  exact Action.keeps_forM fun index _ => keeps_claimIndex scheme r fullName index view

theorem keeps_checkClaims (scheme : Scheme) (r : Record) (known : Option String)
    (view : Store Keyspace → γ) : (checkClaims scheme r known).Keeps view := by
  unfold checkClaims
  refine (Action.keeps_ofAnswer _).bind fun _ => ?_
  split
  · exact keeps_checkUnique scheme r _ view
  · exact Action.keeps_pure ()

theorem keeps_sealField (scheme : Scheme) (fullName : String) (member : String × Json) :
    (sealField scheme fullName member : Action (Store Keyspace) _).Keeps uncounted := by
  unfold sealField
  dsimp only
  split
  · exact ((keeps_encrypt _).mapError _).bind fun data => Action.keeps_pure _
  · exact (Action.keeps_pure _).bind fun data => Action.keeps_pure _

theorem keeps_stage (scheme : Scheme) (r : Record) (fullName : String) :
    (stage scheme r fullName : Action (Store Keyspace) Transaction).Keeps uncounted := by
  unfold stage
  split
  · unfold stagePlain
    exact ((keeps_encode _).mapError _).bind fun data => Action.keeps_pure _
  · rw [stageHash_eq]
    refine Action.Keeps.bind ?_ fun fields => Action.keeps_pure _
    exact Action.keeps_mapM fun member _ => keeps_sealField scheme fullName member
  · exact Action.keeps_throw _

theorem keepsOnFailure_commitRecord (scheme : Scheme) (r : Record) (key : String) :
    (commitRecord scheme r key : Action (Store Keyspace) Landing).KeepsOnFailure uncounted := by
  unfold commitRecord
  refine (keeps_stage scheme r _).bind_onFailure fun tx => ?_
  refine Action.KeepsOnFailure.bind_pure (Action.KeepsOnFailure.mapError ?_ _) _
  exact keepsOnFailure_onBackend (fun _ => Action.keepsOnFailure_attempt _) uncounted

end Frame

/-! ## A put that fails -/

section Failure

variable {α : Type}

/-- A store but for a counter and for the number of calls that it has served. -/
def besides (counter : String) (s : Store Keyspace) : Store Keyspace :=
  { s.uncounted with backend := s.backend.drop counter }

theorem clock_of_besides {counter : String} {s t : Store Keyspace}
    (h : s.besides counter = t.besides counter) : s.clock = t.clock :=
  (congrArg Store.clock h :)

theorem settings_of_besides {counter : String} {s t : Store Keyspace}
    (h : s.besides counter = t.besides counter) : s.settings = t.settings :=
  (congrArg settings h :)

theorem drop_of_besides {counter : String} {s t : Store Keyspace}
    (h : s.besides counter = t.besides counter) :
    s.backend.drop counter = t.backend.drop counter :=
  (congrArg Store.backend h :)

theorem slots_of_besides {counter name : String} {s t : Store Keyspace}
    (h : s.besides counter = t.besides counter) (hname : name ≠ counter) :
    s.backend.slots[name]? = t.backend.slots[name]? :=
  Keyspace.slots_of_drop_eq (drop_of_besides h) hname

theorem besides_of_uncounted {s t : Store Keyspace} (h : s.uncounted = t.uncounted)
    (counter : String) : s.besides counter = t.besides counter :=
  (congrArg (fun u : Store Keyspace => { u with backend := u.backend.drop counter }) h :)

theorem keeps_besides {a : Action (Store Keyspace) α} (h : a.Keeps uncounted) (counter : String) :
    a.Keeps (besides counter) :=
  h.comp fun s => { s with backend := s.backend.drop counter }

/-- Asking a counter for its next number. -/
theorem runOn_incr (counter : String) (s : Store Keyspace) :
    (onBackend (Backend.incr · counter) : Action (Store Keyspace) Int).runOn s =
      ((s.backend.incr s.clock.unixMillis counter).map Prod.fst,
        { s with backend := s.backend.counted s.clock.unixMillis counter }) := by
  have hrun : (Backend.incr s.clock.unixMillis counter : Action Keyspace Int).runOn s.backend =
      _ := Action.runOn_attempt (fun b : Keyspace => b.incr s.clock.unixMillis counter) s.backend
  rw [runOn_onBackend, hrun]
  unfold Keyspace.counted
  cases s.backend.incr s.clock.unixMillis counter <;> rfl

theorem keeps_incr (counter : String) :
    (onBackend (Backend.incr · counter) : Action (Store Keyspace) Int).Keeps (besides counter) := by
  intro s
  rw [runOn_incr]
  unfold besides
  rw [Keyspace.drop_counted]
  rfl

theorem keeps_drawKey (scheme : Scheme) (known : Option String) :
    (drawKey scheme known : Action (Store Keyspace) String).Keeps
      (besides (Namespace.sequenceKey scheme.space)) := by
  unfold drawKey
  split
  · exact Action.keeps_pure _
  · exact (keeps_incr _).map Integer.render

/-- A put by a scheme that fails leaves everything but the counter as it was. -/
theorem keepsOnFailure_putRecord (scheme : Scheme) (key : String) (j : Json) :
    (putRecord scheme key j : Action (Store Keyspace) Landing).KeepsOnFailure
      (besides (Namespace.sequenceKey scheme.space)) := by
  rw [putRecord_eq]
  refine (keeps_checkScheme scheme _).bind_onFailure fun _ => ?_
  refine (Action.keeps_ofAnswer _).bind_onFailure fun r => ?_
  refine (keeps_besides (keeps_knownKey scheme key r) _).bind_onFailure fun known => ?_
  refine (keeps_checkClaims scheme r known _).bind_onFailure fun _ => ?_
  refine (keeps_drawKey scheme known).bind_onFailure fun key => ?_
  exact (keepsOnFailure_commitRecord scheme r key).comp fun s =>
    { s with backend := s.backend.drop (Namespace.sequenceKey scheme.space) }

end Failure

end Store

open Store in
/-- A put that fails, for whatever reason and with or without a scheme, leaves every key but the
counter of the scheme as it was, with its value, its fields and its deadline. -/
theorem putRecord_failure {h : Handle} {key : String} {j : Json} {scheme : Option Scheme}
    {space : Option String} {s s' : Store Keyspace} {e : StoreError}
    (hrun : (h.putRecord key j scheme space).runOn s = (.error e, s')) {name : String}
    (hname : ∀ sch ∈ scheme, name ≠ Namespace.sequenceKey sch.space) (now : Nat) :
    s'.backend.live? now name = s.backend.live? now name := by
  cases scheme with
  | none =>
    have hput : (h.putRecord key j none space : Action (Store Keyspace) Landing).KeepsOnFailure
        uncounted := (keepsOnFailure_write h key (.ofJson j) none space).bind_pure _
    rw [backend_of_uncounted (hput s e s' hrun)]
  | some sch =>
    have hbesides := keepsOnFailure_putRecord sch key j s e s' hrun
    unfold Keyspace.live?
    rw [slots_of_besides hbesides (hname sch rfl)]

/-- Numbered users with an index of their mail addresses. -/
def numberedUsers (shared : Bool) : Scheme where
  space := "users"
  family := .memory
  keySource := .sequence
  indexes := [⟨"mail", ["mail"], shared⟩]
  space_ne := by decide
  fields_ne := by simp

/-- Plain bytes in the place of the entries show only at the commit, after a number is drawn. -/
theorem putRecord_failure_shadowed :
    let put : Action (Store Keyspace) Landing :=
      ({} : Handle).putRecord "" (.object [("mail", .text "a@b")]) (some (numberedUsers true)) none
    let s : Store Keyspace :=
      { backend := ({} : Keyspace).put "users:lookup:mail" ⟨.string [7], none⟩
        identifiers := fun _ => "" }
    ∃ e s', put.runOn s = (.error e, s') ∧
      s'.backend.live? 0 "users:lookup:mail" = some ⟨.string [7], none⟩ ∧
      s'.backend.live? 0 "users:1" = none ∧
      s'.backend.live? 0 "users:sequence" = some ⟨.string [49], none⟩ := by
  intro put s
  have hfails : ∃ e, (put.runOn s).1 = .error e := ⟨_, rfl⟩
  obtain ⟨e, he⟩ := hfails
  have hrun : put.runOn s = (.error e, (put.runOn s).2) := Prod.ext he rfl
  have hother {name : String} (hn : name ≠ Namespace.sequenceKey "users") :
      ∀ sch ∈ some (numberedUsers true), name ≠ Namespace.sequenceKey sch.space := by
    rintro sch ⟨⟩
    exact hn
  refine ⟨e, _, hrun, ?_, ?_, rfl⟩
  · exact putRecord_failure hrun (hother (by decide)) 0
  · exact putRecord_failure hrun (hother (by decide)) 0

end SealedStore
