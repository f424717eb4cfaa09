import SealedStore.Proofs.Store.RecordPut

set_option autoImplicit false

/-!
# What a put of a record touches

A put by a scheme of any layout asks the counter for a number if its key is left to the counter and
all checks are passed.  After that it fails and touches nothing more, or it commits the record under
its full name, in plain layout with an entry for each of its keys (`putRecord_cases`).
-/

namespace SealedStore

/-- The lookup entries that a put of a record writes, each as the name of the hash and the key in
it: in plain layout one for each key of the record, otherwise none. -/
def Scheme.written (s : Scheme) (r : Record) : List (String × String) :=
  if s.layout = .plain then s.entries r else []

namespace Store

/-! ## Before the commit -/

section Prepare

variable {β : Type} [Backend β]

/-- What a put does before it asks for a number: all checks, and the key as far as it is known. -/
def prepare (scheme : Scheme) (key : String) (j : Json) :
    Action (Store β) (Record × Option String) := do
  checkScheme scheme
  let r ← .ofAnswer (Record.ofJson j)
  let known ← knownKey scheme key r
  checkClaims scheme r known
  return (r, known)

theorem putRecord_eq_prepare (scheme : Scheme) (key : String) (j : Json) :
    (putRecord scheme key j : Action (Store β) Landing) = (do
      let (r, known) ← prepare scheme key j
      let key ← drawKey scheme known
      commitRecord scheme r key) := by
  rw [putRecord_eq]
  simp only [prepare, bind_assoc, pure_bind]

end Prepare

variable {s s' : Store Keyspace} {scheme : Scheme} {key : String} {j : Json}

theorem keeps_prepare (scheme : Scheme) (key : String) (j : Json) :
    (prepare scheme key j : Action (Store Keyspace) _).Keeps uncounted := by
  unfold prepare
  refine (keeps_checkScheme scheme uncounted).bind fun _ => ?_
  refine (Action.keeps_ofAnswer _).bind fun r => ?_
  refine (keeps_knownKey scheme key r).bind fun known => ?_
  exact (keeps_checkClaims scheme r known uncounted).bind fun _ => Action.keeps_pure _

/-- Only an empty key is left open, and only to a counter. -/
theorem knownKey_eq_none {r : Record} {known : Option String} {mid : Store Keyspace}
    (hrun : (knownKey scheme key r).runOn s = (.ok known, mid)) :
    known = none ↔ key = "" ∧ scheme.keySource = .sequence := by
  have hdrawn : (some <$> drawIdentifier : Action (Store Keyspace) _).runOn s = (.ok known, mid) →
      known ≠ none := by
    intro h
    rw [Action.runOn_map] at h
    cases h
    exact Option.some_ne_none _
  unfold knownKey at hrun
  split at hrun
  · rename_i hkey
    unfold deriveKey at hrun
    split at hrun
    · rename_i hsource
      cases hrun
      simp [hkey, hsource]
    · rename_i hsource
      simp [hdrawn hrun, hsource]
    · rename_i hsource
      split at hrun
      · cases hrun
        simp [hsource]
      · simp [hdrawn hrun, hsource]
  · rename_i hkey
    cases hrun
    simp [hkey]

theorem writable_of_checkClaims {r : Record} {known : Option String} {mid : Store Keyspace}
    (hrun : (checkClaims scheme r known).runOn s = (.ok (), mid)) (hknown : known = some key) :
    Namespace.isCounter (scheme.fullName key) = false := by
  subst hknown
  unfold checkClaims at hrun
  obtain ⟨_, _, hcheck, -⟩ := Action.runOn_bind_eq_ok.1 hrun
  exact Namespace.checkWritable_eq_ok.1 (Prod.mk.inj hcheck).1

theorem prepare_ok {r : Record} {known : Option String} {mid : Store Keyspace}
    (hrun : (prepare scheme key j).runOn s = (.ok (r, known), mid)) :
    j = .object r ∧ mid.uncounted = s.uncounted ∧
      (known = none ↔ key = "" ∧ scheme.keySource = .sequence) ∧
      ∀ k, known = some k → Namespace.isCounter (scheme.fullName k) = false := by
  have hmid : mid.uncounted = s.uncounted := (keeps_prepare scheme key j).of_runOn hrun
  unfold prepare at hrun
  obtain ⟨_, _, -, hrun⟩ := Action.runOn_bind_eq_ok.1 hrun
  obtain ⟨r', _, hr, hrun⟩ := Action.runOn_bind_eq_ok.1 hrun
  obtain ⟨known', _, hknown, hrun⟩ := Action.runOn_bind_eq_ok.1 hrun
  obtain ⟨_, _, hclaims, hrun⟩ := Action.runOn_bind_eq_ok.1 hrun
  cases hrun
  refine ⟨?_, hmid, knownKey_eq_none hknown, fun k hk => writable_of_checkClaims hclaims hk⟩
  obtain ⟨hrecord, -⟩ := Prod.mk.inj hr
  cases j <;> cases hrecord
  rfl

/-! ## Numbers that are drawn -/

/-- What the counter answers to a put.  A put whose key is known, or that fails a check, does not
ask it. -/
def drawn? (scheme : Scheme) (key : String) (j : Json) (s : Store Keyspace) :
    Option (Answer Int) :=
  match (prepare scheme key j).runOn s with
  | (.ok (_, none), mid) =>
    some ((onBackend (Backend.incr · (Namespace.sequenceKey scheme.space))).runOn mid).1
  | _ => none

/-- The keyspace that a put finds when it comes to commit its record. -/
def counted (scheme : Scheme) (key : String) (j : Json) (s : Store Keyspace) : Keyspace :=
  match drawn? scheme key j s with
  | none => s.backend
  | some _ => s.backend.counted s.clock.unixMillis (Namespace.sequenceKey scheme.space)

theorem slots_counted_of_ne {name : String} (h : name ≠ Namespace.sequenceKey scheme.space) :
    (s.counted scheme key j).slots[name]? = s.backend.slots[name]? := by
  unfold counted
  split
  · rfl
  · exact Keyspace.slots_counted_of_ne _ _ h

theorem field_counted {name x : String} {v : Bytes}
    (h : s.backend.field s.clock.unixMillis name x = .ok (some v)) :
    (s.counted scheme key j).field s.clock.unixMillis name x = .ok (some v) := by
  unfold counted
  split
  · exact h
  · exact Keyspace.field_counted _ _ _ h

/-- A put that asks the counter is answered from the keyspace as it was. -/
theorem drawn?_eq_some {a : Answer Int} (h : s.drawn? scheme key j = some a) :
    a = (s.backend.incr s.clock.unixMillis (Namespace.sequenceKey scheme.space)).map Prod.fst := by
  unfold drawn? at h
  split at h
  · rename_i r mid hrun
    obtain ⟨-, hmid, -⟩ := prepare_ok hrun
    rw [← Option.some.inj h, runOn_incr, backend_of_uncounted hmid, clock_of_uncounted hmid]
  · cases h

/-! ## The commit of a record -/

/-- A command is staged under the name of the record, or for one of its entries. -/
theorem command_of_stage {r : Record} {fullName : String} {tx : Transaction}
    (hrun : (stage scheme r fullName).runOn s = (.ok tx, s')) {c : Command} (hc : c ∈ tx) :
    c.key = fullName ∨
      ∃ e ∈ scheme.written r, c = .hset e.1 [(e.2, Utf8.encode fullName)] := by
  cases hlayout : scheme.layout with
  | plain =>
    obtain ⟨raw, -, rfl⟩ := stage_plain hlayout hrun
    rcases List.mem_cons.1 hc with rfl | hc
    · exact .inl rfl
    · obtain ⟨claim, hclaim, rfl⟩ := List.mem_map.1 hc
      refine .inr ⟨(scheme.lookupKey claim.1, claim.2), ?_, rfl⟩
      rw [Scheme.written, if_pos hlayout, Scheme.entries_eq_claims]
      exact List.mem_map.2 ⟨claim, hclaim, rfl⟩
  | hashTable =>
    obtain ⟨fields, -, rfl⟩ := stage_fields hlayout hrun
    rcases List.mem_cons.1 hc with rfl | hc
    · exact .inl rfl
    · split at hc
      · exact absurd hc List.not_mem_nil
      · rw [List.mem_singleton.1 hc]
        exact .inl rfl
  | set =>
    unfold stage at hrun
    simp only [hlayout] at hrun
    cases hrun

/-! ## The whole put -/

/-- The stage of a put at which its key is complete: no number was drawn for a key that was known,
and an open key is the number that was drawn for it. -/
theorem drawKey_reaches {r : Record} {known : Option String} {mid t : Store Keyspace}
    {a : Answer String} (hprepare : (prepare scheme key j).runOn s = (.ok (r, known), mid))
    (hrun : (drawKey scheme known).runOn mid = (a, t)) :
    t.uncounted = uncounted { s with backend := s.counted scheme key j } ∧
      ∀ drawn, a = .ok drawn → Namespace.isCounter (scheme.fullName drawn) = false ∧
        if key = "" ∧ scheme.keySource = .sequence then
          ∃ i, s.drawn? scheme key j = some (.ok i) ∧ drawn = Integer.render i
        else s.drawn? scheme key j = none := by
  obtain ⟨-, hmid, hknown, hwritable⟩ := prepare_ok hprepare
  cases known with
  | some k =>
    cases hrun
    have hdrawn : s.drawn? scheme key j = none := by
      unfold drawn?
      rw [hprepare]
    unfold counted
    rw [hdrawn]
    refine ⟨hmid, ?_⟩
    rintro drawn ⟨⟩
    refine ⟨hwritable k rfl, ?_⟩
    rw [if_neg fun hopen => Option.some_ne_none k (hknown.2 hopen)]
  | none =>
    have hdrawn : s.drawn? scheme key j = some ((mid.backend.incr mid.clock.unixMillis
        (Namespace.sequenceKey scheme.space)).map Prod.fst) := by
      unfold drawn?
      rw [hprepare]
      exact congrArg (fun o => some o.1) (runOn_incr _ mid)
    unfold drawKey at hrun
    rw [Action.runOn_map, runOn_incr] at hrun
    obtain ⟨rfl, rfl⟩ := Prod.mk.inj hrun
    constructor
    · unfold counted
      rw [hdrawn]
      exact uncounted_withBackend hmid fun now b =>
        b.counted now (Namespace.sequenceKey scheme.space)
    · intro drawn hok
      obtain ⟨i, hi, rfl⟩ := Answer.map_eq_ok.1 hok
      refine ⟨Integer.isCounter_render scheme.space i, ?_⟩
      rw [if_pos (hknown.1 rfl)]
      exact ⟨i, hdrawn.trans (congrArg some hi), rfl⟩

/-- A put fails when it has asked the counter at most, or it comes to commit its record. -/
theorem putRecord_reaches {a : Answer Landing}
    (hrun : (putRecord scheme key j).runOn s = (a, s')) :
    ∃ t : Store Keyspace, t.uncounted = uncounted { s with backend := s.counted scheme key j } ∧
      (((∃ e, a = .error e) ∧ s' = t) ∨
        ∃ r drawn, j = .object r ∧ Namespace.isCounter (scheme.fullName drawn) = false ∧
          (if key = "" ∧ scheme.keySource = .sequence then
            ∃ i, s.drawn? scheme key j = some (.ok i) ∧ drawn = Integer.render i
          else s.drawn? scheme key j = none) ∧
          (commitRecord scheme r drawn).runOn t = (a, s')) := by
  rw [putRecord_eq_prepare, Action.runOn_bind] at hrun
  rcases hprepare : (prepare scheme key j).runOn s with ⟨e | ⟨r, known⟩, mid⟩
  · rw [hprepare] at hrun
    cases hrun
    have hdrawn : s.drawn? scheme key j = none := by
      unfold drawn?
      rw [hprepare]
    refine ⟨s', ?_, .inl ⟨⟨e, rfl⟩, rfl⟩⟩
    unfold counted
    rw [hdrawn]
    exact (keeps_prepare scheme key j).of_runOn hprepare
  · rw [hprepare] at hrun
    replace hrun : (drawKey scheme known >>= commitRecord scheme r).runOn mid = (a, s') := hrun
    rw [Action.runOn_bind] at hrun
    rcases hdraw : (drawKey scheme known).runOn mid with ⟨e | drawn, t⟩
    · rw [hdraw] at hrun
      cases hrun
      exact ⟨s', (drawKey_reaches hprepare hdraw).1, .inl ⟨⟨e, rfl⟩, rfl⟩⟩
    · rw [hdraw] at hrun
      obtain ⟨ht, hdrawn⟩ := drawKey_reaches hprepare hdraw
      obtain ⟨hwritable, hdrawn⟩ := hdrawn drawn rfl
      exact ⟨t, ht, .inr ⟨r, drawn, (prepare_ok hprepare).1, hwritable, hdrawn, hrun⟩⟩

/-- What a put of a record that landed tells of the stores before and after it, in any layout. -/
structure Lands (scheme : Scheme) (key : String) (r : Record) (landing : Landing)
    (s s' : Store Keyspace) : Prop where
  fullName : landing.fullName = scheme.fullName landing.key
  writable : Namespace.isCounter landing.fullName = false
  drawn : if key = "" ∧ scheme.keySource = .sequence then
      ∃ i, s.drawn? scheme key (.object r) = some (.ok i) ∧ landing.key = Integer.render i
    else s.drawn? scheme key (.object r) = none
  unchanged : s'.uncounted = uncounted { s with backend := s'.backend }
  committed : ∃ (t mid : Store Keyspace) (tx : Transaction), t.settings = s.settings ∧
    t.clock = s.clock ∧ (stage scheme r landing.fullName).runOn t = (.ok tx, mid) ∧
    (s.counted scheme key (.object r)).commit s.clock.unixMillis tx = .ok s'.backend

theorem putRecord_lands {landing : Landing}
    (hrun : (putRecord scheme key j).runOn s = (.ok landing, s')) :
    ∃ r, j = .object r ∧ Lands scheme key r landing s s' := by
  obtain ⟨t, ht, ⟨⟨e, he⟩, -⟩ | ⟨r, drawn, rfl, hwritable, hdrawn, hcommit⟩⟩ :=
    putRecord_reaches hrun
  · cases he
  obtain ⟨rfl, hs', tx, mid, hstage, hcommitted⟩ := commitRecord_commits hcommit
  have hclock : t.clock = s.clock := (clock_of_uncounted ht :)
  have hbackend : t.backend = s.counted scheme key (.object r) := (backend_of_uncounted ht :)
  rw [hclock, hbackend] at hcommitted
  refine ⟨r, rfl, ?_⟩
  exact {
    fullName := rfl
    writable := hwritable
    drawn := hdrawn
    unchanged := hs'.trans (congrArg (fun u : Store Keyspace =>
      { u with backend := s'.backend }) ht :)
    committed := ⟨t, mid, tx, (settings_of_uncounted ht :), hclock, hstage, hcommitted⟩ }

/-- A put that fails has touched the counter at most. -/
theorem putRecord_fails {e : StoreError}
    (hrun : (putRecord scheme key j).runOn s = (.error e, s')) :
    s'.uncounted = uncounted { s with backend := s.counted scheme key j } := by
  obtain ⟨t, ht, ⟨-, rfl⟩ | ⟨r, drawn, -, -, -, hcommit⟩⟩ := putRecord_reaches hrun
  · exact ht
  · exact (keepsOnFailure_commitRecord scheme r drawn t e s' hcommit).trans ht

end Store

end SealedStore
