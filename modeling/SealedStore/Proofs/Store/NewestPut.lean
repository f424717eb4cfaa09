import SealedStore.Proofs.Store.UniqueIndex
import SealedStore.Proofs.Text.Utf8

set_option autoImplicit false

/-!
# Lookups answer with the newest put

An entry of a lookup hash is written over by every later put of a record with the same key and by
nothing else: entries outlive the records that they name.  So looking up a key answers where the
newest put of a record with that key landed, whichever scheme it was put by (`newestPut_of_run`).
-/

namespace SealedStore

/-- A record has a key in an index of that name. -/
def Scheme.HasKey (s : Scheme) (r : Record) (name x : String) : Prop :=
  ∃ index ∈ s.indexes, index.name = name ∧ index.presentKey? r = some x

theorem Scheme.mem_claims_iff_hasKey {s : Scheme} {r : Record} {name x : String} :
    (name, x) ∈ s.claims r ↔ s.HasKey r name x := Scheme.mem_claims

/-- The event is a put of a record with that key. -/
def RecordEvent.GivesKey (name x : String) : RecordEvent → Prop
  | .put scheme r _ => scheme.HasKey r name x
  | .delete _ => False

namespace History

/-- The newest put of a record with a key in an index of that name, and what happened later. -/
def NewestPut (past : History) (name x : String) (later : History) (r : Record)
    (landing : Landing) : Prop :=
  ∃ scheme earlier, past = later ++ .put scheme r landing :: earlier ∧ scheme.HasKey r name x ∧
    ∀ event ∈ later, ¬ event.GivesKey name x

section NewestPut

variable {past : History} {name x : String}

theorem not_newestPut_nil {later : History} {r : Record} {landing : Landing} :
    ¬ NewestPut [] name x later r landing := by
  rintro ⟨scheme, earlier, h, -, -⟩
  cases later <;> cases h

theorem newestPut_of_hasKey {scheme : Scheme} {r : Record} {landing : Landing}
    (h : scheme.HasKey r name x) : NewestPut (.put scheme r landing :: past) name x [] r landing :=
  ⟨scheme, past, rfl, h, fun _ hmem => absurd hmem List.not_mem_nil⟩

/-- After an event with that key nothing older is the newest. -/
theorem NewestPut.eq_of_hasKey {scheme : Scheme} {r r' : Record} {landing landing' : Landing}
    {later : History} (h : NewestPut (.put scheme r landing :: past) name x later r' landing')
    (hkey : scheme.HasKey r name x) : landing' = landing := by
  obtain ⟨scheme', earlier, he, -, hlater⟩ := h
  cases later with
  | nil =>
    cases he
    rfl
  | cons event later =>
    cases he
    exact absurd hkey (hlater _ List.mem_cons_self)

/-- An event without that key leaves the newest put as it is. -/
theorem newestPut_cons {event : RecordEvent} (hevent : ¬ event.GivesKey name x) {later : History}
    {r : Record} {landing : Landing} :
    NewestPut (event :: past) name x later r landing ↔
      ∃ rest, later = event :: rest ∧ NewestPut past name x rest r landing := by
  constructor
  · rintro ⟨scheme, earlier, he, hkey, hlater⟩
    cases later with
    | nil =>
      cases he
      exact absurd hkey hevent
    | cons first rest =>
      cases he
      exact ⟨rest, rfl, scheme, earlier, rfl, hkey,
        fun e he => hlater e (List.mem_cons_of_mem _ he)⟩
  · rintro ⟨rest, rfl, scheme, earlier, rfl, hkey, hlater⟩
    refine ⟨scheme, earlier, rfl, hkey, fun e he => ?_⟩
    rcases List.mem_cons.1 he with rfl | he
    · exact hevent
    · exact hlater e he

/-- The owner of a key is where the newest put with that key landed. -/
theorem owners_eq_some_iff {o : String} :
    past.owners name x = some o ↔
      ∃ later r landing, past.NewestPut name x later r landing ∧ landing.fullName = o := by
  induction past with
  | nil =>
    constructor
    · intro h
      cases h
    · rintro ⟨later, r, landing, h, -⟩
      exact absurd h not_newestPut_nil
  | cons event past ih =>
    by_cases hevent : event.GivesKey name x
    · cases event with
      | put scheme r landing =>
        have howner : owners (.put scheme r landing :: past) name x = some landing.fullName :=
          if_pos (Scheme.mem_claims_iff_hasKey.2 hevent)
        rw [howner]
        constructor
        · intro h
          exact ⟨[], r, landing, newestPut_of_hasKey hevent, Option.some.inj h⟩
        · rintro ⟨later, r', landing', h, rfl⟩
          rw [h.eq_of_hasKey hevent]
      | delete keys => exact absurd hevent id
    · have howner : owners (event :: past) name x = owners past name x := by
        cases event with
        | put scheme r landing => exact if_neg fun h => hevent (Scheme.mem_claims_iff_hasKey.1 h)
        | delete keys => rfl
      rw [howner, ih]
      constructor
      · rintro ⟨later, r, landing, h, ho⟩
        exact ⟨event :: later, r, landing, (newestPut_cons hevent).2 ⟨later, rfl, h⟩, ho⟩
      · rintro ⟨later, r, landing, h, ho⟩
        obtain ⟨rest, -, h⟩ := (newestPut_cons hevent).1 h
        exact ⟨rest, r, landing, h, ho⟩

end NewestPut

end History

namespace Store

/-! ## Looking up a key -/

/-- What the owner of a key is read as. -/
def readOwner (lookup : String) : Option Bytes → Answer (Option String)
  | none => .ok none
  | some owner =>
    match Utf8.decode owner with
    | .ok name => .ok (some name)
    | .error fault => .error (.serialization s!"lookup {lookup}: {fault.message}")

theorem readOwner_encode (lookup : String) (owner : Option String) :
    readOwner lookup (owner.map Utf8.encode) = .ok owner := by
  cases owner with
  | none => rfl
  | some name => simp only [Option.map_some, readOwner, Utf8.decode_encode]

/-- Looking up a key reads one field of the lookup hash. -/
theorem runOn_resolveIndex {scheme : Scheme} (hplain : scheme.layout = .plain) {name : String}
    (hname : (scheme.index? name).isSome) (x : String) (s : Store Keyspace) :
    (resolveIndex scheme name x).runOn s =
      ((s.backend.field s.clock.unixMillis (scheme.lookupKey name) x).bind
        (readOwner (scheme.lookupKey name)), s) := by
  have hknown : (scheme.index? name).isNone = false := by
    obtain ⟨index, hindex⟩ := Option.isSome_iff_exists.1 hname
    rw [hindex]
    rfl
  have hfield : (onBackend (Backend.field · (scheme.lookupKey name) x) :
      Action (Store Keyspace) _).runOn s =
        (s.backend.field s.clock.unixMillis (scheme.lookupKey name) x, s) := rfl
  unfold resolveIndex
  simp only [hplain, ne_eq, not_true_eq_false, ↓reduceIte, hknown, Bool.false_eq_true]
  rw [Action.runOn_bind, hfield]
  rcases s.backend.field s.clock.unixMillis (scheme.lookupKey name) x with e | _ | owner
  · rfl
  · rfl
  · simp only [Except.bind, readOwner]
    cases Utf8.decode owner <;> rfl

end Store

/-- In every run of puts by schemes of plain layout in a namespace, and of deletions, looking up a
key in an index never fails.  It answers the name under which the newest put of a record with that
key landed, if there was one, by whatever scheme that declares an index of the name; deletions do
not matter, nor do puts that were refused. -/
theorem newestPut_of_run {space : String} {s : Store Keyspace} {past : History}
    (h : RecordRun space (Scheme.PlainIn space) s past) {scheme : Scheme}
    (hscheme : scheme.PlainIn space) {name : String} (hname : (scheme.index? name).isSome)
    (x : String) :
    ∃ found, (Store.resolveIndex scheme name x).runOn s = (.ok found, s) ∧
      ∀ o, found = some o ↔
        ∃ later r landing, past.NewestPut name x later r landing ∧ landing.fullName = o := by
  obtain ⟨rfl, hplain⟩ := hscheme
  have htracks := Store.tracks_of_run (fun _ hallowed => hallowed) h
  have hfield := htracks.indexed.field s.clock.unixMillis name x
  refine ⟨past.owners name x, ?_, fun o => History.owners_eq_some_iff⟩
  rw [Store.runOn_resolveIndex hplain hname, show scheme.lookupKey name =
    Namespace.lookupKey scheme.space name from rfl, hfield]
  exact Prod.ext (Store.readOwner_encode _ _) rfl

/-- Numbered users whose index of mail addresses reads their aliases. -/
def aliasedUsers : Scheme :=
  { numberedUsers true with
    indexes := [⟨"mail", ["alias"], true⟩]
    fields_ne := by simp }

/-- A user with an alias. -/
def aliasUser : Record := [("alias", .text "a@b")]

/-- Two schemes share an index, and the entry of the newer record outlives the record. -/
theorem newestPut_of_run_outlived :
    let s₁ := ((Store.putRecord (numberedUsers true) "" (.object mailUser)).runOn noUsers).2
    let s₂ := ((Store.putRecord aliasedUsers "7" (.object aliasUser)).runOn s₁).2
    let s₃ := ((({} : Handle).delete "7" (some "users")).runOn s₂).2
    RecordRun "users" (Scheme.PlainIn "users") s₃ [.delete ["7"],
        .put aliasedUsers aliasUser ⟨"7", "users:7"⟩,
        .put (numberedUsers true) mailUser ⟨"1", "users:1"⟩] ∧
      (numberedUsers true).PlainIn "users" ∧ ((numberedUsers true).index? "mail").isSome ∧
      s₃.backend.contains 0 "users:7" = false ∧
      (Store.resolveIndex (numberedUsers true) "mail" "a@b").runOn s₃ =
        (.ok (some "users:7"), s₃) := by
  intro s₁ s₂ s₃
  have hplain : (numberedUsers true).PlainIn "users" := ⟨rfl, rfl⟩
  have hname : ((numberedUsers true).index? "mail").isSome := rfl
  have hlands : (Store.putRecord (numberedUsers true) "" (.object mailUser)).runOn noUsers =
      (.ok ⟨"1", "users:1"⟩, s₁) := by rfl
  have hlands' : (Store.putRecord aliasedUsers "7" (.object aliasUser)).runOn s₁ =
      (.ok ⟨"7", "users:7"⟩, s₂) := by rfl
  have hdeleted : (({} : Handle).delete "7" (some "users")).runOn s₂ = (.ok true, s₃) := by rfl
  have hput : RecordRun "users" (Scheme.PlainIn "users") s₁ _ :=
    .put (.start rfl) hplain hlands (by decide)
  have hputs := hput.put ⟨rfl, rfl⟩ hlands' (by decide)
  have hrun := hputs.delete hdeleted rfl (by decide)
  obtain ⟨found, hresolve, hfound⟩ := newestPut_of_run hrun hplain hname "a@b"
  refine ⟨hrun, hplain, hname, rfl, ?_⟩
  rw [hresolve]
  refine congrArg (fun o => (Except.ok o, s₃)) ((hfound "users:7").2 ?_)
  refine ⟨[.delete ["7"]], aliasUser, ⟨"7", "users:7"⟩, ⟨aliasedUsers, _, rfl, ?_, ?_⟩, rfl⟩
  · exact ⟨⟨"mail", ["alias"], true⟩, List.mem_singleton_self _, rfl, rfl⟩
  · intro event hevent
    obtain rfl := List.mem_singleton.1 hevent
    exact id

end SealedStore
