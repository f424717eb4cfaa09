import SealedStore.Cache.Entry

set_option autoImplicit false

/-!
# What is noted of a cache

A log of what was done to a cache, the newest event first, and what it says about each key.  Main
statement: the entry that the events of a log lead to is the one that was published last, with a
use for each lookup since, unless it was taken away (`held?_eq_some_iff`).
-/

namespace SealedStore.Cache

/-- What is noted of an operation on a cache. -/
inductive Event (V : Type)
  /-- A lookup of a key, and whether there was an entry. -/
  | looked (key : String) (found : Bool)
  /-- A value put in place at a millisecond, and whether there was no entry before. -/
  | published (key : String) (value : V) (time : Nat) (fresh : Bool)
  /-- The removal of an entry that was there. -/
  | removed (key : String)
  /-- The removal of all entries, of which there were so many. -/
  | cleared (entries : Nat)
  /-- A pass that removed the entries of some keys for their age and of others for their rank. -/
  | swept (expired evicted : List String)

namespace Event

variable {V : Type}

/-- Whether a key was looked up. -/
def looksUp (key : String) : Event V → Bool
  | looked k _ => k = key
  | _ => false

/-- Whether a value was put in place for a key. -/
def publishes (key : String) : Event V → Bool
  | published k _ _ _ => k = key
  | _ => false

/-- Whether the entry of a key, if there was one, was taken away. -/
def ends (key : String) : Event V → Bool
  | removed k => k = key
  | cleared _ => true
  | swept expired evicted => key ∈ expired || key ∈ evicted
  | _ => false

/-- The entry of a key after an event. -/
def applyTo (key : String) (event : Event V) (before : Option (Entry V)) : Option (Entry V) :=
  match event with
  | looked k _ => if k = key then before.map Entry.used else before
  | published k value time _ => if k = key then some { value, populated := time } else before
  | removed k => if k = key then none else before
  | cleared _ => none
  | swept expired evicted => if key ∈ expired ∨ key ∈ evicted then none else before

end Event

/-- The events of a cache, the newest first. -/
abbrev Log (V : Type) := List (Event V)

namespace Log

variable {V : Type}

/-- The entry of a key after the events of a log. -/
def held? (key : String) (log : Log V) : Option (Entry V) := log.foldr (Event.applyTo key) none

/-- The events say that there is an entry of a key, and which: after it was published nothing took
it away or replaced it, and each lookup since was a use. -/
def Holds (log : Log V) (key : String) (e : Entry V) : Prop :=
  ∃ recent older fresh,
    log = recent ++ .published key e.value e.populated fresh :: older ∧
      (∀ event ∈ recent, event.publishes key = false ∧ event.ends key = false) ∧
      e.count = 1 + recent.countP (Event.looksUp key)

/-- Events are counted one by one. -/
theorem countP_cons (p : Event V → Bool) (event : Event V) (older : Log V) :
    (event :: older).countP p = older.countP p + [event].countP p := by
  rw [List.countP_cons, List.countP_singleton]

/-- An event that neither puts an entry in place nor takes it away counts a use or does nothing. -/
theorem applyTo_of_carries {key : String} {event : Event V} (hpub : event.publishes key = false)
    (hends : event.ends key = false) (before : Option (Entry V)) :
    event.applyTo key before =
      before.map fun e => { e with count := e.count + [event].countP (Event.looksUp key) } := by
  cases event with
  | looked k found =>
    by_cases hk : k = key
    · simp [Event.applyTo, Event.looksUp, hk]
      rfl
    · simp [Event.applyTo, Event.looksUp, hk]
  | published k value time fresh =>
    have hk : k ≠ key := by simpa [Event.publishes] using hpub
    simp [Event.applyTo, Event.looksUp, hk]
  | removed k =>
    have hk : k ≠ key := by simpa [Event.ends] using hends
    simp [Event.applyTo, Event.looksUp, hk]
  | cleared entries => simp [Event.ends] at hends
  | swept expired evicted =>
    have hnot : ¬ (key ∈ expired ∨ key ∈ evicted) := by simpa [Event.ends] using hends
    simp only [Event.applyTo, if_neg hnot]
    simp [Event.looksUp]

theorem applyTo_of_ends {key : String} {event : Event V} (h : event.ends key = true)
    (before : Option (Entry V)) : event.applyTo key before = none := by
  cases event <;> simp_all [Event.ends, Event.applyTo]

theorem exists_of_publishes {key : String} {event : Event V} (h : event.publishes key = true) :
    ∃ value time fresh, event = .published key value time fresh := by
  cases event <;> simp_all [Event.publishes]

/-- What an entry goes through while nothing replaces it or takes it away. -/
theorem held?_append {key : String} {recent : Log V}
    (h : ∀ event ∈ recent, event.publishes key = false ∧ event.ends key = false) (older : Log V) :
    held? key (recent ++ older) =
      (held? key older).map fun e =>
        { e with count := e.count + recent.countP (Event.looksUp key) } := by
  induction recent with
  | nil => simp
  | cons event rest ih =>
    obtain ⟨hpub, hends⟩ := h event List.mem_cons_self
    have hrest := ih fun e he => h e (List.mem_cons_of_mem _ he)
    have hcons : held? key (event :: rest ++ older) =
        event.applyTo key (held? key (rest ++ older)) := rfl
    rw [hcons, applyTo_of_carries hpub hends, hrest, Option.map_map, countP_cons _ event rest]
    simp only [Function.comp_def, Nat.add_assoc]

theorem held?_of_holds {log : Log V} {key : String} {e : Entry V} (h : log.Holds key e) :
    log.held? key = some e := by
  obtain ⟨recent, older, fresh, rfl, hcarry, hcount⟩ := h
  have hpublished : Log.held? key (.published key e.value e.populated fresh :: older) =
      some { value := e.value, populated := e.populated } := by
    simp [held?, Event.applyTo]
  rw [held?_append hcarry, hpublished, Option.map_some, ← hcount]

theorem holds_of_held? {log : Log V} {key : String} {e : Entry V} (h : log.held? key = some e) :
    log.Holds key e := by
  induction log generalizing e with
  | nil => cases h
  | cons event older ih =>
    have hcons : event.applyTo key (held? key older) = some e := h
    by_cases hpub : event.publishes key = true
    · obtain ⟨value, time, fresh, rfl⟩ := exists_of_publishes hpub
      obtain rfl : ({ value, populated := time } : Entry V) = e := by
        simpa [Event.applyTo] using hcons
      exact ⟨[], older, fresh, rfl, by simp, by simp⟩
    by_cases hends : event.ends key = true
    · rw [applyTo_of_ends hends] at hcons
      cases hcons
    -- The event carries the entry on, which was published further back.
    rw [Bool.not_eq_true] at hpub hends
    rw [applyTo_of_carries hpub hends, Option.map_eq_some_iff] at hcons
    obtain ⟨before, hbefore, rfl⟩ := hcons
    obtain ⟨recent, oldest, fresh, rfl, hcarry, hcount⟩ := ih hbefore
    refine ⟨event :: recent, oldest, fresh, rfl, ?_, ?_⟩
    · intro x hx
      rcases List.mem_cons.1 hx with rfl | hx
      · exact ⟨hpub, hends⟩
      · exact hcarry x hx
    · rw [countP_cons _ event recent, ← Nat.add_assoc, ← hcount]

/-- The entry of a key is the one that was published last, used once by that and once by each
lookup since, as long as nothing took it away. -/
theorem held?_eq_some_iff (log : Log V) (key : String) (e : Entry V) :
    log.held? key = some e ↔ log.Holds key e :=
  ⟨holds_of_held?, held?_of_holds⟩

end Log

end SealedStore.Cache
