import SealedStore.Proofs.Store.RecordFrame
import SealedStore.Proofs.Store.TimedMap

set_option autoImplicit false

/-!
# Where the calls of a store write

A call that succeeds carries out commands: under the full names that it puts its value in place, for
the lookup entries of its record, and under the names that it removes (`perform_ok`).  Before that
it may have asked a counter, and a call that fails has done no more than that (`perform_error`).
-/

namespace SealedStore

namespace ValueCall

/-- The full names that the call puts its value under. -/
def places (h : Handle) : ValueCall → List String
  | .put key _ space => [h.fullName key space]
  | .putValue key _ space => [h.fullName key space]
  | .putWithExpiry key _ _ space => [h.fullName key space]
  | .putFanout key _ spaces => spaces.map fun space => h.fullName key (some space)
  | .delete _ _ => []
  | .deleteMany _ _ => []

/-- The full names that the call removes. -/
def removes (h : Handle) : ValueCall → List String
  | .delete key space => [h.fullName key space]
  | .deleteMany keys space => keys.map (h.fullName · space)
  | _ => []

end ValueCall

/-- A call that writes or deletes values, or writes a record. -/
inductive StoreCall
  | value (c : ValueCall)
  | putRecord (key : String) (j : Json) (scheme : Option Scheme) (space : Option String)

namespace StoreCall

/-- The call on a store; only a record tells where it landed. -/
def perform (h : Handle) : StoreCall → Action (Store Keyspace) (Option Landing)
  | .value c => (fun _ => none) <$> c.perform h
  | .putRecord key j scheme space => some <$> h.putRecord key j scheme space

/-- The full names that the call puts its value or its record under, once it has landed. -/
def places (h : Handle) (landing : Option Landing) : StoreCall → List String
  | .value c => c.places h
  | .putRecord .. => landing.toList.map Landing.fullName

/-- The full names that the call removes. -/
def removes (h : Handle) : StoreCall → List String
  | .value c => c.removes h
  | .putRecord .. => []

/-- The lookup entries that the call writes, each as the name of the hash and the key in it. -/
def entries : StoreCall → List (String × String)
  | .putRecord _ (.object r) (some scheme) _ => scheme.written r
  | _ => []

/-- The keyspace that the call finds when it comes to write. -/
def counted (s : Store Keyspace) : StoreCall → Keyspace
  | .putRecord key j (some scheme) _ => s.counted scheme key j
  | _ => s.backend

/-- A command that belongs to the call: it puts its value in place, removes what the call removes,
or writes an entry. -/
def Issues (h : Handle) (landing : Option Landing) (c : StoreCall) (d : Command) : Prop :=
  d.key ∈ c.places h landing ∨ d.key ∈ c.removes h ∨
    ∃ e ∈ c.entries, ∃ v, d = .hset e.1 [(e.2, v)]

/-- An entry goes into a lookup hash of the scheme of the call. -/
theorem lookupKey_of_entries {c : StoreCall} {name x : String} (h : (name, x) ∈ c.entries) :
    ∃ key j scheme space, c = .putRecord key j (some scheme) space ∧
      ∃ index, name = scheme.lookupKey index := by
  unfold entries at h
  split at h
  · rename_i key r scheme space
    unfold Scheme.written at h
    split at h
    · rw [Scheme.entries_eq_claims] at h
      obtain ⟨claim, -, heq⟩ := List.mem_map.1 h
      exact ⟨key, .object r, scheme, space, rfl, claim.1, (congrArg Prod.fst heq).symm⟩
    · exact absurd h List.not_mem_nil
  · exact absurd h List.not_mem_nil

end StoreCall

/-! ## Deletions as commands -/

theorem Keyspace.delete_eq_foldl (b : Keyspace) (now : Nat) (keys : List String) :
    (b.delete now keys).2 = (keys.map Command.del).foldl (fun b c => b.apply now c) b := by
  induction keys generalizing b with
  | nil => rfl
  | cons key rest ih =>
    rw [delete_cons, ih]
    rfl

namespace Store

variable {s s' : Store Keyspace} {h : Handle}

theorem field_callCounted (c : StoreCall) {name x : String} {v : Bytes}
    (hfield : s.backend.field s.clock.unixMillis name x = .ok (some v)) :
    (c.counted s).field s.clock.unixMillis name x = .ok (some v) := by
  unfold StoreCall.counted
  split
  · exact field_counted hfield
  · exact hfield

/-- Asking a counter shows under no name but that of a counter. -/
theorem slots_callCounted (c : StoreCall) {name : String}
    (hname : Namespace.isCounter name = false) :
    (c.counted s).slots[name]? = s.backend.slots[name]? := by
  unfold StoreCall.counted
  split
  · rename_i key j scheme space
    refine slots_counted_of_ne fun he => ?_
    exact Namespace.sequenceKey_ne_of_writable scheme.space_ne hname he.symm
  · rfl

/-! ## Calls that succeed -/

/-- What a call that succeeds did. -/
structure Performed (h : Handle) (c : StoreCall) (landing : Option Landing)
    (s s' : Store Keyspace) : Prop where
  clock : s'.clock = s.clock
  writable : ∀ name ∈ c.places h landing, Namespace.isCounter name = false
  removed : ∀ name ∈ c.removes h, s'.backend.slots[name]? = none
  commands : ∃ tx : Transaction, (∀ d ∈ tx, c.Issues h landing d) ∧
    s'.backend = tx.foldl (fun b d => b.apply s.clock.unixMillis d) (c.counted s)

theorem performed_write {key : String} {v : Value} {ttl : Option Nat} {space : Option String}
    {c : StoreCall} {landing : Option Landing}
    (hplaces : c.places h landing = [h.fullName key space]) (hremoves : c.removes h = [])
    (hcounted : c.counted s = s.backend)
    (hrun : (h.write key v ttl space).runOn s = (.ok (), s')) : Performed h c landing s s' := by
  obtain ⟨hwritable, raw, -, -, hs'⟩ := write_encoded hrun
  refine ⟨(clock_of_uncounted hs' :), ?_, ?_, [.set (h.fullName key space) raw ttl], ?_, ?_⟩
  · rw [hplaces]
    intro name hname
    rw [List.mem_singleton.1 hname]
    exact hwritable
  · rw [hremoves]
    exact fun name hname => absurd hname List.not_mem_nil
  · intro d hd
    rw [List.mem_singleton.1 hd]
    exact .inl (by rw [hplaces]; exact List.mem_singleton_self _)
  · rw [hcounted]
    exact (backend_of_uncounted hs' :)

theorem performed_putFanout {key : String} {j : Json} {spaces : List String}
    (hrun : (h.putFanout key j spaces).runOn s = (.ok (), s')) :
    Performed h (.value (.putFanout key j spaces)) none s s' := by
  obtain ⟨tx, htx, hs'⟩ := putFanout_staged hrun
  refine ⟨(clock_of_uncounted hs' :), ?_, fun name hname => absurd hname List.not_mem_nil, tx, ?_,
    (backend_of_uncounted hs' :)⟩
  · intro name hname
    obtain ⟨space, hspace, rfl⟩ := List.mem_map.1 hname
    obtain ⟨c, -, hwritable, -⟩ := (Action.exists_of_forall₂ htx).1 space hspace
    exact hwritable
  · intro d hd
    obtain ⟨space, hspace, -, raw, -, -, -, -, rfl⟩ := (Action.exists_of_forall₂ htx).2 d hd
    exact .inl (List.mem_map.2 ⟨space, hspace, rfl⟩)

theorem performed_delete {c : ValueCall} {keys : List String} {now : Nat}
    (hnow : now = s.clock.unixMillis) (hremoves : c.removes h = keys) (hplaces : c.places h = [])
    (hs' : s' = { s with backend := (s.backend.delete now keys).2 }) :
    Performed h (.value c) none s s' := by
  subst hs' hnow
  refine ⟨rfl, ?_, ?_, keys.map Command.del, ?_, Keyspace.delete_eq_foldl s.backend _ keys⟩
  · intro name hname
    rw [StoreCall.places, hplaces] at hname
    exact absurd hname List.not_mem_nil
  · intro name hname
    rw [StoreCall.removes, hremoves] at hname
    rw [Keyspace.slots_delete, if_pos hname]
  · intro d hd
    obtain ⟨key, hkey, rfl⟩ := List.mem_map.1 hd
    refine .inr (.inl ?_)
    rw [StoreCall.removes, hremoves]
    exact hkey

theorem performed_putRecord {key : String} {j : Json} {scheme : Scheme} {space : Option String}
    {landing : Landing} (hrun : (putRecord scheme key j).runOn s = (.ok landing, s')) :
    Performed h (.putRecord key j (some scheme) space) (some landing) s s' := by
  obtain ⟨r, rfl, hlands⟩ := putRecord_lands hrun
  obtain ⟨t, mid, tx, -, -, hstage, hcommit⟩ := hlands.committed
  refine ⟨(clock_of_uncounted hlands.unchanged :), ?_,
    fun name hname => absurd hname List.not_mem_nil, tx, ?_, (Keyspace.commit_ok hcommit).symm⟩
  · intro name hname
    rw [List.mem_singleton.1 hname]
    exact hlands.writable
  · intro d hd
    rcases command_of_stage hstage hd with hkey | ⟨e, he, rfl⟩
    · exact .inl (List.mem_singleton.2 hkey)
    · exact .inr (.inr ⟨e, he, _, rfl⟩)

/-- A call that succeeds carries out commands that belong to it, after it has asked a counter if it
has to.  It puts nothing in place under the name of a counter. -/
theorem perform_ok {c : StoreCall} {landing : Option Landing}
    (hrun : (c.perform h).runOn s = (.ok landing, s')) : Performed h c landing s s' := by
  cases c with
  | value c =>
    obtain ⟨_, hvalue, rfl⟩ := Action.runOn_map_eq_ok.1 hrun
    cases c with
    | put key j space => exact performed_write rfl rfl rfl hvalue
    | putValue key v space => exact performed_write rfl rfl rfl hvalue
    | putWithExpiry key j ttl space => exact performed_write rfl rfl rfl hvalue
    | putFanout key j spaces => exact performed_putFanout hvalue
    | delete key space =>
      cases hvalue
      exact performed_delete rfl rfl rfl rfl
    | deleteMany keys space =>
      cases hvalue
      exact performed_delete rfl rfl rfl rfl
  | putRecord key j scheme space =>
    obtain ⟨landed, hrecord, rfl⟩ := Action.runOn_map_eq_ok.1 hrun
    cases scheme with
    | none =>
      obtain ⟨_, mid, hput, hlanded⟩ := Action.runOn_bind_eq_ok.1 hrecord
      cases hlanded
      exact performed_write rfl rfl rfl hput
    | some scheme => exact performed_putRecord hrecord

/-! ## Calls that fail -/

/-- A call that fails has asked a counter at most. -/
theorem perform_error {c : StoreCall} {e : StoreError}
    (hrun : (c.perform h).runOn s = (.error e, s')) :
    s'.clock = s.clock ∧ s'.backend = c.counted s := by
  suffices hs' : s'.uncounted = uncounted { s with backend := c.counted s } from
    ⟨(clock_of_uncounted hs' :), (backend_of_uncounted hs' :)⟩
  cases c with
  | value c => exact keepsOnFailure_perform h c s e s' (Action.runOn_map_eq_error.1 hrun)
  | putRecord key j scheme space =>
    have hfails : (h.putRecord key j scheme space).runOn s = (.error e, s') :=
      Action.runOn_map_eq_error.1 hrun
    cases scheme with
    | none =>
      have hput := (keepsOnFailure_write h key (.ofJson j) none space).bind_pure
        fun _ => (⟨key, h.fullName key space⟩ : Landing)
      exact hput s e s' hfails
    | some scheme => exact putRecord_fails hfails

end Store

end SealedStore
