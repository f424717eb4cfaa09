import SealedStore.Proofs.Keyspace.Slots
import SealedStore.Proofs.Store.ValueWrites

set_option autoImplicit false

/-!
# A store is a timed map

A timed map keeps, under each full name, the value that was last written there and its deadline.
It knows nothing of envelopes, ciphers and slots.  Main statement: after any calls on a store that
began empty, reading a value and deleting keys answer what the timed map says (`answers_of_run`).
-/

namespace SealedStore

/-- A value that was written, with the millisecond from which on it counts as gone. -/
structure Writing where
  /-- The value. -/
  value : Value
  /-- The deadline; `none` for never. -/
  deadline : Option Nat

/-- What was written last under each full name and not deleted since. -/
abbrev TimedMap := String → Option Writing

namespace TimedMap

/-- Writes a value under a name, whatever was there. -/
def write (m : TimedMap) (name : String) (v : Value) (deadline : Option Nat) : TimedMap :=
  Function.update m name (some ⟨v, deadline⟩)

/-- Removes what lies under the names. -/
def erase (m : TimedMap) (names : List String) : TimedMap :=
  fun name => if name ∈ names then none else m name

/-- The value under a name, as long as its deadline has not come. -/
def value? (m : TimedMap) (now : Nat) (name : String) : Option Value :=
  match m name with
  | some ⟨v, some deadline⟩ => if now < deadline then some v else none
  | some ⟨v, none⟩ => some v
  | none => none

end TimedMap

/-! ## Runs -/

/-- A call that writes or deletes values. -/
inductive ValueCall
  | put (key : String) (j : Json) (space : Option String)
  | putValue (key : String) (v : Value) (space : Option String)
  | putWithExpiry (key : String) (j : Json) (ttl : Nat) (space : Option String)
  | putFanout (key : String) (j : Json) (spaces : List String)
  | delete (key : String) (space : Option String)
  | deleteMany (keys : List String) (space : Option String)

namespace ValueCall

/-- The call on a store; what a deletion answers is left out. -/
def perform (h : Handle) : ValueCall → Action (Store Keyspace) Unit
  | .put key j space => h.put key j space
  | .putValue key v space => h.putValue key v space
  | .putWithExpiry key j ttl space => h.putWithExpiry key j ttl space
  | .putFanout key j spaces => h.putFanout key j spaces
  | .delete key space => (fun _ => ()) <$> h.delete key space
  | .deleteMany keys space => (fun _ => ()) <$> h.deleteMany keys space

/-- What the call does to a timed map when it succeeds. -/
def effect (h : Handle) (now : Nat) (m : TimedMap) : ValueCall → TimedMap
  | .put key j space => m.write (h.fullName key space) (.ofJson j) none
  | .putValue key v space => m.write (h.fullName key space) v none
  | .putWithExpiry key j ttl space =>
    m.write (h.fullName key space) (.ofJson j) (some (deadlineAfter now ttl))
  | .putFanout key j spaces =>
    spaces.foldl (fun m space => m.write (h.fullName key (some space)) (.ofJson j) none) m
  | .delete key space => m.erase [h.fullName key space]
  | .deleteMany keys space => m.erase (keys.map (h.fullName · space))

end ValueCall

/-- A step of a run: a call through some handle, or time that goes by. -/
inductive ValueStep
  | call (h : Handle) (c : ValueCall)
  | wait (d : Duration)

namespace ValueStep

/-- A store and a timed map after a step.  A call that fails is none for the map. -/
def next (state : Store Keyspace × TimedMap) : ValueStep → Store Keyspace × TimedMap
  | .call h c =>
    match (c.perform h).runOn state.1 with
    | (.ok (), after) => (after, c.effect h state.1.clock.unixMillis state.2)
    | (.error _, after) => (after, state.2)
  | .wait d => ({ state.1 with clock := state.1.clock.later d }, state.2)

/-- A store and a timed map after steps in a row; at first the map is empty. -/
def run (s : Store Keyspace) (steps : List ValueStep) : Store Keyspace × TimedMap :=
  steps.foldl next (s, fun _ => none)

end ValueStep

namespace Store

/-! ## Slots that hold what was written -/

/-- A slot holds bytes that open to what was written, with the same deadline. -/
inductive Holds (s : Store Keyspace) : Option Slot → Option Writing → Prop
  | nothing : s.Holds none none
  | bytes {raw : Bytes} {v : Value} (deadline : Option Nat) :
      s.openBytes raw = .ok v.reread → s.Holds (some ⟨.string raw, deadline⟩) (some ⟨v, deadline⟩)

/-- A faithful store of which every slot holds what the map says. -/
structure Represents (s : Store Keyspace) (m : TimedMap) : Prop where
  faithful : s.Faithful
  holds : ∀ name, s.Holds s.backend.slots[name]? (m name)

section Represents

variable {s t : Store Keyspace} {m : TimedMap}

theorem Holds.congr {slot : Option Slot} {w : Option Writing} (h : s.Holds slot w)
    (ht : ∀ raw, t.openBytes raw = s.openBytes raw) : t.Holds slot w := by
  cases h with
  | nothing => exact .nothing
  | bytes deadline hopen => exact .bytes deadline ((ht _).trans hopen)

theorem represents_empty (hs : s.Faithful) (hempty : s.backend = {}) :
    s.Represents fun _ => none where
  faithful := hs
  holds name := by
    rw [hempty]
    exact .nothing

theorem Represents.of_uncounted (ht : t.uncounted = s.uncounted) (h : s.Represents m) :
    t.Represents m where
  faithful := h.faithful.of_settings (settings_of_uncounted ht)
  holds name := by
    rw [backend_of_uncounted ht]
    exact (h.holds name).congr (openBytes_of_settings (settings_of_uncounted ht))

theorem Represents.later (h : s.Represents m) (clock : Instant) :
    ({ s with clock } : Store Keyspace).Represents m where
  faithful := h.faithful.of_settings rfl
  holds name := (h.holds name).congr fun _ => rfl

/-- Bytes are put in place under a name, and the value that they open to is written there. -/
theorem Represents.put {raw : Bytes} {v : Value} (h : s.Represents m)
    (hopen : s.openBytes raw = .ok v.reread) (key : String) (deadline : Option Nat) :
    ({ s with backend := s.backend.put key ⟨.string raw, deadline⟩ } : Store Keyspace).Represents
      (m.write key v deadline) where
  faithful := h.faithful.of_settings rfl
  holds name := by
    simp only [Keyspace.slots_put, TimedMap.write, Function.update_apply]
    split
    · exact (Holds.bytes deadline hopen).congr fun _ => rfl
    · exact (h.holds name).congr fun _ => rfl

theorem Represents.delete (h : s.Represents m) (now : Nat) (keys : List String) :
    ({ s with backend := (s.backend.delete now keys).2 } : Store Keyspace).Represents
      (m.erase keys) where
  faithful := h.faithful.of_settings rfl
  holds name := by
    simp only [Keyspace.slots_delete, TimedMap.erase]
    split
    · exact .nothing
    · exact (h.holds name).congr fun _ => rfl

theorem Represents.copies {h : Handle} {key : String} {j : Json} {spaces : List String}
    {tx : Transaction} (htx : List.Forall₂ (s.IsCopy h key j) spaces tx) (now : Nat) {b : Keyspace}
    (hm : ({ s with backend := b } : Store Keyspace).Represents m) :
    ({ s with backend := tx.foldl (fun b c => b.apply now c) b } : Store Keyspace).Represents
      (ValueCall.effect h now m (.putFanout key j spaces)) := by
  induction htx generalizing b m with
  | nil => exact hm
  | @cons space c spaces tx hc htx ih =>
    obtain ⟨raw, rfl, hopen⟩ := hc
    have hone := hm.put hopen (h.fullName key (some space)) none
    exact ih hone

end Represents

/-! ## Steps -/

section Steps

variable {s s' : Store Keyspace} {m : TimedMap}

theorem represents_of_write {h : Handle} {key : String} {v : Value} {ttl : Option Nat}
    {space : Option String} (hm : s.Represents m)
    (hrun : (h.write key v ttl space).runOn s = (.ok (), s')) :
    s'.Represents (m.write (h.fullName key space) v
      (ttl.map (deadlineAfter s.clock.unixMillis))) := by
  obtain ⟨raw, hopen, hs'⟩ := write_ok hm.faithful hrun
  exact (hm.put hopen (h.fullName key space) _).of_uncounted hs'

/-- A call that succeeds does to the store what it does to the map. -/
theorem represents_of_perform {h : Handle} {c : ValueCall} (hm : s.Represents m)
    (hrun : (c.perform h).runOn s = (.ok (), s')) :
    s'.Represents (c.effect h s.clock.unixMillis m) := by
  cases c with
  | put key j space => exact represents_of_write hm hrun
  | putValue key v space => exact represents_of_write hm hrun
  | putWithExpiry key j ttl space => exact represents_of_write hm hrun
  | putFanout key j spaces =>
    obtain ⟨tx, htx, hs'⟩ := putFanout_ok hm.faithful hrun
    exact (Represents.copies htx s.clock.unixMillis hm).of_uncounted hs'
  | delete key space =>
    cases hrun
    exact hm.delete s.clock.unixMillis [h.fullName key space]
  | deleteMany keys space =>
    cases hrun
    exact hm.delete s.clock.unixMillis (keys.map (h.fullName · space))

/-- A call that fails leaves the slots alone. -/
theorem keepsOnFailure_perform (h : Handle) (c : ValueCall) :
    (c.perform h).KeepsOnFailure uncounted := by
  cases c with
  | put key j space => exact keepsOnFailure_write h key _ none space
  | putValue key v space => exact keepsOnFailure_write h key v none space
  | putWithExpiry key j ttl space => exact keepsOnFailure_write h key _ (some ttl) space
  | putFanout key j spaces => exact keepsOnFailure_putFanout h key j spaces
  | delete key space =>
    intro s e s' hrun
    cases hrun
  | deleteMany keys space =>
    intro s e s' hrun
    cases hrun

theorem represents_next {state : Store Keyspace × TimedMap} (hm : state.1.Represents state.2)
    (step : ValueStep) : (step.next state).1.Represents (step.next state).2 := by
  cases step with
  | wait d => exact hm.later _
  | call h c =>
    simp only [ValueStep.next]
    rcases hrun : (c.perform h).runOn state.1 with ⟨e | _, after⟩
    · exact hm.of_uncounted (keepsOnFailure_perform h c state.1 e after hrun)
    · exact represents_of_perform hm hrun

theorem represents_run (hs : s.Faithful) (hempty : s.backend = {}) (steps : List ValueStep) :
    (ValueStep.run s steps).1.Represents (ValueStep.run s steps).2 := by
  unfold ValueStep.run
  suffices hgo : ∀ state : Store Keyspace × TimedMap, state.1.Represents state.2 →
      (steps.foldl ValueStep.next state).1.Represents (steps.foldl ValueStep.next state).2 from
    hgo _ (represents_empty hs hempty)
  induction steps with
  | nil => exact fun _ hm => hm
  | cons step rest ih => exact fun state hm => ih _ (represents_next hm step)

end Steps

/-! ## Answers -/

section Answers

variable {s : Store Keyspace} {m : TimedMap}

/-- What is live in the store is what the map has a value for. -/
theorem live?_of_represents (hm : s.Represents m) (now : Nat) (name : String) :
    (s.backend.live? now name = none ∧ m.value? now name = none) ∨
      ∃ raw deadline v, s.backend.live? now name = some ⟨.string raw, deadline⟩ ∧
        m.value? now name = some v ∧ s.openBytes raw = .ok v.reread := by
  have hholds := hm.holds name
  unfold Keyspace.live? TimedMap.value?
  generalize s.backend.slots[name]? = slot at hholds
  generalize m name = w at hholds
  cases hholds with
  | nothing => exact .inl ⟨rfl, rfl⟩
  | @bytes raw v deadline hopen =>
    cases deadline with
    | none => exact .inr ⟨raw, none, v, rfl, rfl, hopen⟩
    | some d =>
      by_cases hd : now < d
      · refine .inr ⟨raw, some d, v, ?_, by simp [hd], hopen⟩
        simp [Slot.isExpired, hd]
      · refine .inl ⟨?_, by simp [hd]⟩
        simp [Slot.isExpired, Nat.le_of_not_lt hd]

theorem contains_of_represents (hm : s.Represents m) (now : Nat) (name : String) :
    s.backend.contains now name = (m.value? now name).isSome := by
  unfold Keyspace.contains
  rcases live?_of_represents hm now name with ⟨hlive, hvalue⟩ | ⟨raw, d, v, hlive, hvalue, -⟩
  · rw [hlive, hvalue]
    rfl
  · rw [hlive, hvalue]
    rfl

theorem runOn_getValue_of_represents (hm : s.Represents m) (h : Handle) (key : String)
    (space : Option String) :
    (h.getValue key space).runOn s =
      (.ok ((m.value? s.clock.unixMillis (h.fullName key space)).map Value.reread), s) := by
  unfold Handle.getValue
  rw [runOn_read]
  unfold Keyspace.get
  rcases live?_of_represents hm s.clock.unixMillis (h.fullName key space) with
    ⟨hlive, hvalue⟩ | ⟨raw, d, v, hlive, hvalue, hopen⟩
  · rw [hlive, hvalue]
    rfl
  · rw [hlive, hvalue]
    simp only [Option.map_some, Except.bind, hopen]
    rfl

theorem runOn_deleteMany_of_represents (hm : s.Represents m) (h : Handle) (keys : List String)
    (space : Option String) :
    ((h.deleteMany keys space).runOn s).1 =
      .ok ((keys.map (h.fullName · space)).toFinset.filter fun name =>
        (m.value? s.clock.unixMillis name).isSome).card := by
  have hcount := Keyspace.delete_fst s.backend s.clock.unixMillis (keys.map (h.fullName · space))
  simp only [contains_of_represents hm] at hcount
  exact congrArg Except.ok hcount

theorem runOn_delete_of_represents (hm : s.Represents m) (h : Handle) (key : String)
    (space : Option String) :
    ((h.delete key space).runOn s).1 =
      .ok (m.value? s.clock.unixMillis (h.fullName key space)).isSome := by
  have hrun : ((h.delete key space).runOn s).1 =
      .ok (decide (0 < (s.backend.delete s.clock.unixMillis [h.fullName key space]).1)) := rfl
  rw [hrun, Keyspace.delete_cons, contains_of_represents hm]
  cases (m.value? s.clock.unixMillis (h.fullName key space)).isSome <;> rfl

end Answers

end Store

/-- Whatever was written and deleted on a store that began empty, and whatever time went by: a key
reads as the value that was written last under its full name, unless that was deleted since or its
deadline has come, and reading never fails.  A deletion of one key tells whether it was there, and a
deletion of several how many different ones were. -/
theorem answers_of_run {s : Store Keyspace} (hs : s.Faithful) (hempty : s.backend = {})
    (steps : List ValueStep) :
    let t := (ValueStep.run s steps).1
    let value? := (ValueStep.run s steps).2.value? t.clock.unixMillis
    (∀ (h : Handle) key space, (h.getValue key space).runOn t =
      (.ok ((value? (h.fullName key space)).map Value.reread), t)) ∧
    (∀ (h : Handle) key space, ((h.delete key space).runOn t).1 =
      .ok (value? (h.fullName key space)).isSome) ∧
    (∀ (h : Handle) keys space, ((h.deleteMany keys space).runOn t).1 =
      .ok ((keys.map (h.fullName · space)).toFinset.filter fun name =>
        (value? name).isSome).card) := by
  intro t value?
  have hm : t.Represents (ValueStep.run s steps).2 := Store.represents_run hs hempty steps
  refine ⟨?_, ?_, ?_⟩
  · exact Store.runOn_getValue_of_represents hm
  · exact Store.runOn_delete_of_represents hm
  · exact Store.runOn_deleteMany_of_represents hm

/-- A lifetime that has run out, a reserved name among the calls, and a structured text. -/
theorem answers_of_run_lapsed :
    let s : Store Keyspace :=
      { backend := {}, encryption := some ⟨[1], .mask⟩, codec := Codec.json.checked
        identifiers := fun _ => "" }
    let h : Handle := { space := some "a" }
    let steps : List ValueStep :=
      [.call h (.putWithExpiry "k" (.text "x") 1 none), .call h (.put "sequence" .null none),
        .wait (.ofMillis 1500), .call h (.putValue "j" (.structured (.text "y")) none)]
    let t := (ValueStep.run s steps).1
    s.Faithful ∧ s.backend = {} ∧
      (h.getValue "j" none).runOn t = (.ok (some (.text "y")), t) ∧
      ((h.delete "k" none).runOn t).1 = .ok false ∧
      ((h.deleteMany ["j", "k", "j", "sequence"] none).runOn t).1 = .ok 1 := by
  intro s h steps t
  have hs : s.Faithful := by
    refine ⟨Codec.readsBack_checked _, ?_⟩
    rintro e ⟨⟩
    exact Encryption.undoes_mask [1]
  have hempty : s.backend = {} := rfl
  obtain ⟨hget, hdelete, hcount⟩ := answers_of_run hs hempty steps
  refine ⟨hs, hempty, ?_, ?_, ?_⟩
  · refine (hget h "j" none).trans (Prod.ext (congrArg Except.ok ?_) rfl)
    decide +kernel
  · refine (hdelete h "k" none).trans (congrArg Except.ok ?_)
    decide +kernel
  · refine (hcount h ["j", "k", "j", "sequence"] none).trans (congrArg Except.ok ?_)
    decide +kernel

end SealedStore
