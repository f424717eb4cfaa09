import SealedStore.Proofs.Keyspace.Slots
import SealedStore.Proofs.Names
import SealedStore.Proofs.Store.Pipeline
import SealedStore.Proofs.Text.Glob

set_option autoImplicit false

/-!
# Scans

A scan of a namespace without special characters finds the value of every key of the namespace that
matches the pattern, each under its own key, and fails if one of them cannot be opened
(`runOn_scanValues`).
-/

namespace SealedStore

/-! ## Maps from lists of entries -/

/-- A map of entries with distinct keys has these entries. -/
theorem getElem?_ofList_eq_some {α : Type} {entries : List (String × α)}
    (hdistinct : entries.Pairwise fun a b => a.1 ≠ b.1) {key : String} {v : α} :
    (Std.ExtTreeMap.ofList entries)[key]? = some v ↔ (key, v) ∈ entries := by
  have hcompare : entries.Pairwise fun a b => ¬ compare a.1 b.1 = .eq :=
    hdistinct.imp fun hne he => hne (Std.LawfulEqCmp.eq_of_compare he)
  constructor
  · intro h
    cases hthere : (entries.map Prod.fst).contains key with
    | false =>
      rw [Std.ExtTreeMap.getElem?_ofList_of_contains_eq_false hthere] at h
      cases h
    | true =>
      obtain ⟨⟨k, v'⟩, hmem, hk⟩ := List.mem_map.1 (List.contains_iff_mem.1 hthere)
      obtain rfl : k = key := hk
      rw [Std.ExtTreeMap.getElem?_ofList_of_mem Std.ReflCmp.compare_self hcompare hmem] at h
      cases h
      exact hmem
  · exact Std.ExtTreeMap.getElem?_ofList_of_mem Std.ReflCmp.compare_self hcompare

namespace Handle

/-- A key of a namespace that a scan is to find, by its name inside the namespace, and its bytes:
the key matches the pattern, is no counter, and holds plain bytes. -/
structure Selects (h : Handle) (pattern : String) (space : Option String) (s : Store Keyspace)
    (key : String) (raw : Bytes) : Prop where
  matched : Glob.accepts pattern key = true
  uncounted : Namespace.isCounter (h.fullName key space) = false
  stored : s.backend.get s.clock.unixMillis (h.fullName key space) = .ok (some raw)

section Scan

variable {h : Handle} {pattern : String} {space : Option String} {s : Store Keyspace}

/-! ## The names that are read -/

/-- The names that a scan reads. -/
def scanned (h : Handle) (pattern : String) (space : Option String) (s : Store Keyspace) :
    List String :=
  (s.backend.scan s.clock.unixMillis (h.fullName pattern space)).filter fun name =>
    !Namespace.isCounter name

/-- In a namespace without special characters a pattern matches the keys of the namespace that it
matches without it. -/
theorem accepts_fullName
    (hspace : ∀ name ∈ Namespace.effective? space h.space, Glob.IsLiteral name.toList)
    {name : String} : Glob.accepts (h.fullName pattern space) name = true ↔
      ∃ key, name = h.fullName key space ∧ Glob.accepts pattern key = true := by
  unfold fullName Namespace.resolve
  cases heff : Namespace.effective? space h.space with
  | none => simp
  | some given =>
    have hlit : Glob.IsLiteral (given.toList ++ [':']) := by
      intro c hc
      rcases List.mem_append.1 hc with hc | hc
      · exact hspace given heff c hc
      · obtain rfl := List.mem_singleton.1 hc
        decide
    have hkey : ∀ key : String,
        (Namespace.key given key).toList = given.toList ++ [':'] ++ key.toList := by
      intro key
      simp [Namespace.key]
    rw [Glob.accepts_append hlit (hkey pattern)]
    refine exists_congr fun key => and_congr_left fun _ => ?_
    rw [← hkey, String.toList_inj]

theorem mem_scanned
    (hspace : ∀ name ∈ Namespace.effective? space h.space, Glob.IsLiteral name.toList)
    {name : String} {raw : Bytes} :
    name ∈ h.scanned pattern space s ∧ s.backend.bytes? s.clock.unixMillis name = some raw ↔
      ∃ key, name = h.fullName key space ∧ h.Selects pattern space s key raw := by
  unfold scanned
  rw [List.mem_filter, Keyspace.mem_scan, accepts_fullName hspace, Keyspace.bytes?_eq_some,
    Bool.not_eq_true']
  constructor
  · rintro ⟨⟨⟨-, key, rfl, haccepts⟩, hcounter⟩, hget⟩
    exact ⟨key, rfl, haccepts, hcounter, hget⟩
  · rintro ⟨key, rfl, haccepts, hcounter, hget⟩
    exact ⟨⟨⟨Keyspace.contains_of_get hget, key, rfl, haccepts⟩, hcounter⟩, hget⟩

/-! ## The entries that are found -/

/-- What a scan makes of a name and of the bytes that were read under it. -/
def entryOf (h : Handle) (space : Option String) :
    String × Option Bytes → Action (Store Keyspace) (Option (String × Value))
  | (name, some raw) => do
    let v ← (Store.decode raw).mapError (.inContext "scan" name)
    return some (Namespace.strip name (space.or h.space), v)
  | (_, none) => return none

/-- A scan turns the names that it reads into entries, one by one, each with its own bytes. -/
theorem runOn_scanValues_eq (h : Handle) (pattern : String) (space : Option String)
    (s : Store Keyspace) :
    (h.scanValues pattern space).runOn s =
      (do
        let found ← ((h.scanned pattern space s).map fun name =>
          (name, s.backend.bytes? s.clock.unixMillis name)).filterMapM (h.entryOf space)
        return Std.ExtTreeMap.ofList found : Action (Store Keyspace) (Found Value)).runOn s := by
  have hscan : (Store.onBackend (Backend.scan · (h.fullName pattern space)) :
      Action (Store Keyspace) _).runOn s =
        (.ok (s.backend.scan s.clock.unixMillis (h.fullName pattern space)), s) := rfl
  have hread (names : List String) : (Store.onBackend (Backend.getMany · names) :
      Action (Store Keyspace) _).runOn s =
        (.ok (names.map (s.backend.bytes? s.clock.unixMillis)), s) := rfl
  have hzip (names : List String) : names.zip (names.map (s.backend.bytes? s.clock.unixMillis)) =
      names.map fun name => (name, s.backend.bytes? s.clock.unixMillis name) := by
    rw [← List.zip_map' (f := fun name => name), List.map_id']
  unfold scanValues
  rw [Action.runOn_bind, hscan]
  dsimp only
  rw [Action.runOn_bind, hread]
  dsimp only
  rw [hzip]
  refine congrArg (fun f => (List.filterMapM f _ >>= fun found =>
    pure (Std.ExtTreeMap.ofList (found : List (String × Value))) :
      Action (Store Keyspace) (Found Value)).runOn s) (funext ?_)
  rintro ⟨name, _ | raw⟩ <;> rfl

theorem runOn_entryOf {name : String} {raw : Option Bytes} :
    (h.entryOf space (name, raw)).runOn s =
      (match raw with
        | some raw => ((s.openBytes raw).mapError (.inContext "scan" name)).map fun v =>
            some (Namespace.strip name (space.or h.space), v)
        | none => .ok none, s) := by
  cases raw with
  | none => rfl
  | some raw =>
    unfold entryOf
    rw [Action.runOn_bind, Action.runOn_mapError, Store.runOn_decode]
    dsimp only
    cases s.openBytes raw with
    | error e => rfl
    | ok v => rfl

theorem keeps_entryOf (pair : String × Option Bytes) : (h.entryOf space pair).Keeps id := by
  intro s
  rw [runOn_entryOf]

/-- The entry of a name whose bytes can be opened. -/
def found? (h : Handle) (space : Option String) (s : Store Keyspace)
    (pair : String × Option Bytes) : Option (String × Value) :=
  pair.2.bind fun raw => (s.openBytes raw).toOption.map fun v =>
    (Namespace.strip pair.1 (space.or h.space), v)

/-- The entries of a scan. -/
def entries (h : Handle) (pattern : String) (space : Option String) (s : Store Keyspace) :
    List (String × Value) :=
  ((h.scanned pattern space s).map fun name =>
    (name, s.backend.bytes? s.clock.unixMillis name)).filterMap (h.found? space s)

theorem found?_eq_some {name key : String} {raw : Option Bytes} {v : Value} :
    h.found? space s (name, raw) = some (key, v) ↔
      Namespace.strip name (space.or h.space) = key ∧
        ∃ bytes, raw = some bytes ∧ s.openBytes bytes = .ok v := by
  unfold found?
  cases raw with
  | none => simp
  | some bytes =>
    cases hopen : s.openBytes bytes <;> simp [hopen, Except.toOption, and_comm]

/-- There is an entry for each key that is to be found, with the value of its bytes. -/
theorem mem_entries
    (hspace : ∀ name ∈ Namespace.effective? space h.space, Glob.IsLiteral name.toList)
    {key : String} {v : Value} :
    (key, v) ∈ h.entries pattern space s ↔
      ∃ raw, h.Selects pattern space s key raw ∧ s.openBytes raw = .ok v := by
  unfold entries
  simp only [List.mem_filterMap, List.mem_map, exists_exists_and_eq_and, found?_eq_some]
  constructor
  · rintro ⟨name, hname, hstrip, raw, hraw, hopen⟩
    obtain ⟨key', rfl, hselects⟩ := (mem_scanned hspace).1 ⟨hname, hraw⟩
    rw [fullName, Namespace.strip_resolve] at hstrip
    subst hstrip
    exact ⟨raw, hselects, hopen⟩
  · rintro ⟨raw, hselects, hopen⟩
    obtain ⟨hname, hraw⟩ := (mem_scanned hspace).2 ⟨key, rfl, hselects⟩
    exact ⟨_, hname, Namespace.strip_resolve key space h.space, raw, hraw, hopen⟩

/-- No two names make entries for one key. -/
theorem distinct_entries
    (hspace : ∀ name ∈ Namespace.effective? space h.space, Glob.IsLiteral name.toList) :
    (h.entries pattern space s).Pairwise fun a b => a.1 ≠ b.1 := by
  have hnames : (h.scanned pattern space s).Nodup := (Keyspace.nodup_scan _ _ _).filter _
  unfold entries
  rw [List.filterMap_map, List.pairwise_filterMap]
  refine hnames.imp_of_mem ?_
  rintro name name' hmem hmem' hne ⟨key, v⟩ hentry ⟨key', v'⟩ hentry' he
  obtain ⟨hstrip, raw, hraw, -⟩ := found?_eq_some.1 hentry
  obtain ⟨hstrip', raw', hraw', -⟩ := found?_eq_some.1 hentry'
  obtain ⟨k, rfl, -⟩ := (mem_scanned hspace).1 ⟨hmem, hraw⟩
  obtain ⟨k', rfl, -⟩ := (mem_scanned hspace).1 ⟨hmem', hraw'⟩
  rw [fullName, Namespace.strip_resolve] at hstrip hstrip'
  exact hne (congrArg (h.fullName · space) ((hstrip.trans he).trans hstrip'.symm))

/-- When all bytes that are read can be opened, a scan answers its entries. -/
theorem runOn_scanValues_of_opens
    (hopens : ∀ name ∈ h.scanned pattern space s, ∀ raw,
      s.backend.bytes? s.clock.unixMillis name = some raw → ∃ v, s.openBytes raw = .ok v) :
    (h.scanValues pattern space).runOn s = (.ok (.ofList (h.entries pattern space s)), s) := by
  rw [runOn_scanValues_eq, Action.runOn_bind,
    Action.runOn_filterMapM_eq_ok (g := h.found? space s) ?_]
  · rfl
  · intro pair hpair
    obtain ⟨name, hname, rfl⟩ := List.mem_map.1 hpair
    rw [runOn_entryOf]
    cases hraw : s.backend.bytes? s.clock.unixMillis name with
    | none => rfl
    | some raw =>
      obtain ⟨v, hopen⟩ := hopens name hname raw hraw
      simp only [found?, Option.bind_some, hopen]
      rfl

/-- When some bytes that are read cannot be opened, a scan fails. -/
theorem runOn_scanValues_of_fails {name : String} (hname : name ∈ h.scanned pattern space s)
    {raw : Bytes} (hraw : s.backend.bytes? s.clock.unixMillis name = some raw) {e : StoreError}
    (hopen : s.openBytes raw = .error e) :
    ∃ e', (h.scanValues pattern space).runOn s = (.error e', s) := by
  have hfails : ((h.entryOf space (name, s.backend.bytes? s.clock.unixMillis name)).runOn s).1 =
      .error (StoreError.inContext "scan" name e) := by
    rw [hraw, runOn_entryOf]
    simp only [hopen]
    rfl
  have hmem := List.mem_map_of_mem
    (f := fun name => (name, s.backend.bytes? s.clock.unixMillis name)) hname
  obtain ⟨e', hscan⟩ := Action.runOn_filterMapM_eq_error keeps_entryOf hmem hfails
  refine ⟨e', ?_⟩
  rw [runOn_scanValues_eq, Action.runOn_bind, hscan]

/-- When the bytes of all keys that are to be found can be opened, a scan answers its entries. -/
theorem runOn_scanValues_ok
    (hspace : ∀ name ∈ Namespace.effective? space h.space, Glob.IsLiteral name.toList)
    (hopens : ∀ key raw, h.Selects pattern space s key raw → ∃ v, s.openBytes raw = .ok v) :
    (h.scanValues pattern space).runOn s = (.ok (.ofList (h.entries pattern space s)), s) := by
  refine runOn_scanValues_of_opens fun name hname raw hraw => ?_
  obtain ⟨key, -, hselects⟩ := (mem_scanned hspace).1 ⟨hname, hraw⟩
  exact hopens key raw hselects

/-- When the bytes of a key that is to be found cannot be opened, a scan fails. -/
theorem runOn_scanValues_error
    (hspace : ∀ name ∈ Namespace.effective? space h.space, Glob.IsLiteral name.toList)
    {key : String} {raw : Bytes} (hselects : h.Selects pattern space s key raw) {e : StoreError}
    (hopen : s.openBytes raw = .error e) :
    ∃ e', (h.scanValues pattern space).runOn s = (.error e', s) := by
  obtain ⟨hname, hraw⟩ := (mem_scanned hspace).2 ⟨key, rfl, hselects⟩
  exact runOn_scanValues_of_fails hname hraw hopen

end Scan

end Handle

/-- A scan agrees with reading one by one and loses nothing, on every store, in every namespace
without special characters.  When all keys that are to be found can be decoded, the answer has an
entry for exactly these, under their names inside the namespace, with the values that reading them
gives; when one of them cannot, the scan fails. -/
theorem runOn_scanValues (h : Handle) (pattern : String) (space : Option String)
    (hspace : ∀ name ∈ Namespace.effective? space h.space, Glob.IsLiteral name.toList)
    (s : Store Keyspace) :
    ((∀ key raw, h.Selects pattern space s key raw →
        ∃ v, (Store.decode raw).runOn s = (.ok v, s)) →
      ∃ found, (h.scanValues pattern space).runOn s = (.ok found, s) ∧
        ∀ key v, found[key]? = some v ↔
          (∃ raw, h.Selects pattern space s key raw) ∧
            (h.getValue key space).runOn s = (.ok (some v), s)) ∧
    ∀ key raw e, h.Selects pattern space s key raw →
      (Store.decode raw).runOn s = (.error e, s) →
        ∃ e', (h.scanValues pattern space).runOn s = (.error e', s) := by
  simp only [Store.runOn_decode, Prod.mk.injEq, and_true]
  refine ⟨fun hopens => ⟨_, Handle.runOn_scanValues_ok hspace hopens, fun key v => ?_⟩, ?_⟩
  · rw [getElem?_ofList_eq_some (Handle.distinct_entries hspace), Handle.mem_entries hspace,
      Handle.getValue, Store.runOn_read_eq_some]
    constructor
    · rintro ⟨raw, hselects, hopen⟩
      exact ⟨⟨raw, hselects⟩, rfl, raw, hselects.stored, hopen⟩
    · rintro ⟨⟨raw, hselects⟩, -, raw', hget, hopen⟩
      obtain rfl : raw = raw' := by
        have hsame := hselects.stored.symm.trans hget
        exact Option.some.inj (Except.ok.inj hsame)
      exact ⟨raw, hselects, hopen⟩
  · intro key raw e hselects hopen
    exact Handle.runOn_scanValues_error hspace hselects hopen

/-- A name as it is stored. -/
def sealedName : Bytes := Utf8.encode
  "\x7b\"value_type\":\"string\",\"value\":\"Ada\",\"timestamp\":\"1970-01-01T00:00:00Z\"\x7d"

/-- A store with a user, the roles of users and their counter, and with an order. -/
def namedUsers : Store Keyspace where
  backend := ((({} : Keyspace).put "orders:name" ⟨.string sealedName, none⟩).put "users:name"
    ⟨.string sealedName, none⟩).put "users:roles" ⟨.hash ∅, none⟩ |>.put "users:sequence"
      ⟨.string [49], none⟩
  identifiers := fun _ => "id"

theorem live?_namedUsers (name : String) :
    namedUsers.backend.live? namedUsers.clock.unixMillis name =
      if name = "users:sequence" then some ⟨.string [49], none⟩
      else if name = "users:roles" then some ⟨.hash ∅, none⟩
      else if name = "users:name" then some ⟨.string sealedName, none⟩
      else if name = "orders:name" then some ⟨.string sealedName, none⟩
      else none := by
  have hempty : ({} : Keyspace).slots[name]? = none := rfl
  simp only [Keyspace.live?, namedUsers, Keyspace.slots_put, hempty]
  split_ifs <;> rfl

/-- A scan of the users finds the user, and neither the roles nor the counter. -/
theorem runOn_scanValues_users :
    (∀ name ∈ Namespace.effective? (some "users") ({} : Handle).space,
        Glob.IsLiteral name.toList) ∧
      ∃ found, (({} : Handle).scanValues "*" "users").runOn namedUsers = (.ok found, namedUsers) ∧
        found["name"]? = some (.text "Ada") ∧ found["roles"]? = none ∧
        found["sequence"]? = none := by
  have hspace : ∀ name ∈ Namespace.effective? (some "users") ({} : Handle).space,
      Glob.IsLiteral name.toList := by
    intro name hname
    obtain rfl : "users" = name := Option.some.inj hname
    decide
  have hopen : namedUsers.openBytes sealedName = .ok (.text "Ada") := by decide +kernel
  have hselects : ∀ key raw, ({} : Handle).Selects "*" "users" namedUsers key raw →
      key ≠ "roles" ∧ raw = sealedName := by
    intro key raw hselects
    obtain ⟨deadline, hlive⟩ := Keyspace.get_eq_some.1 hselects.stored
    rw [live?_namedUsers] at hlive
    split_ifs at hlive with hsequence hroles
    · have hcounter := hselects.uncounted
      rw [hsequence] at hcounter
      exact absurd hcounter (by decide)
    · cases hlive
    all_goals
      cases hlive
      exact ⟨fun he => hroles (by rw [he]; rfl), rfl⟩
  obtain ⟨hscan, -⟩ := runOn_scanValues {} "*" "users" hspace namedUsers
  obtain ⟨found, hrun, hfound⟩ := hscan fun key raw hraw => by
    rw [(hselects key raw hraw).2, Store.runOn_decode, hopen]
    exact ⟨_, rfl⟩
  refine ⟨hspace, found, hrun, ?_, ?_, ?_⟩
  · have hmatched : Glob.accepts "*" "name" = true := by
      simp [Glob.accepts, Glob.run, Glob.afterStar]
    have hget := Keyspace.get_eq_some.2 ⟨none, live?_namedUsers "users:name"⟩
    refine (hfound "name" (.text "Ada")).2 ⟨⟨sealedName, hmatched, by decide, hget⟩, ?_⟩
    exact Store.runOn_read_eq_some.2 ⟨rfl, sealedName, hget, hopen⟩
  · refine Option.eq_none_iff_forall_ne_some.2 fun v hv => ?_
    obtain ⟨⟨raw, hraw⟩, -⟩ := (hfound "roles" v).1 hv
    exact (hselects "roles" raw hraw).1 rfl
  · refine Option.eq_none_iff_forall_ne_some.2 fun v hv => ?_
    obtain ⟨⟨raw, hraw⟩, -⟩ := (hfound "sequence" v).1 hv
    exact absurd hraw.uncounted (by decide)

end SealedStore
