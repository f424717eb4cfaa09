import SealedStore.Proofs.Cache.Log
import SealedStore.Proofs.Cache.Sweep

set_option autoImplicit false

/-!
# Runs of a cache

A run takes a cache through operations, through failing producers and through moves of the clock,
and notes what was done.  A producer may itself use the cache, and what it does is part of the run.
Each operation is made of a few elementary steps (`Run.steps`), so that what each step preserves
holds after every run.  Main statement: a cache that began without entries has those, with those
values, times and counts, that its log tells of, and it answers lookups accordingly
(`follows_of_run`).
-/

namespace SealedStore.Cache

variable {V : Type}

/-! ## Operations in terms of elementary steps -/

/-- The cache after a lookup that found an entry. -/
def afterHit (c : Cache V) (key : String) (e : Entry V) : Cache V :=
  { c with
    entries := c.entries.insert key e.used
    tally := { c.tally with hits := c.tally.hits + 1 } }

/-- The cache after a lookup that found none. -/
def afterMiss (c : Cache V) : Cache V :=
  { c with tally := { c.tally with misses := c.tally.misses + 1 } }

/-- What follows when a producer is done: its value is put in place, its error is passed on. -/
def settle (key : String) : Answer V × Cache V → Answer V × Cache V
  | (.ok value, after) => (.ok value, after.publish key value)
  | (.error e, after) => (.error e, after)

theorem contains_eq_isSome (c : Cache V) (key : String) :
    c.contains key = c.entries[key]?.isSome :=
  Std.ExtTreeMap.contains_eq_isSome_getElem?

theorem contains_of_getElem? {c : Cache V} {key : String} {found : Option (Entry V)}
    (h : c.entries[key]? = found) : c.contains key = found.isSome := by
  rw [contains_eq_isSome, h]

theorem getElem?_of_contains_eq_false {c : Cache V} {key : String} (h : c.contains key = false) :
    c.entries[key]? = none := by
  rwa [contains_eq_isSome, Option.isSome_eq_false_iff, Option.isNone_iff_eq_none] at h

section Operations

variable {c : Cache V} {key : String}

theorem runOn_lookup_of_some {e : Entry V} (h : c.entries[key]? = some e) :
    (lookup key).runOn c = (.ok (some e.value), c.afterHit key e) := by
  unfold lookup
  rw [Action.runOn_update, h]
  rfl

theorem runOn_lookup_of_none (h : c.entries[key]? = none) :
    (lookup key).runOn c = (.ok none, c.afterMiss) := by
  unfold lookup
  rw [Action.runOn_update, h]
  rfl

theorem runOn_setWith (c : Cache V) (key : String) (produce : String → Action (Cache V) V) :
    (setWith key produce).runOn c = settle key ((produce key).runOn c) := by
  unfold setWith
  rw [Action.runOn_bind]
  rcases (produce key).runOn c with ⟨e | value, after⟩ <;> rfl

theorem runOn_getOrCompute_of_some {e : Entry V} (h : c.entries[key]? = some e)
    (produce : String → Action (Cache V) V) :
    (getOrCompute key produce).runOn c = (.ok e.value, c.afterHit key e) := by
  unfold getOrCompute
  rw [Action.runOn_bind, runOn_lookup_of_some h]
  rfl

theorem runOn_getOrCompute_of_none (h : c.entries[key]? = none)
    (produce : String → Action (Cache V) V) :
    (getOrCompute key produce).runOn c = settle key ((produce key).runOn c.afterMiss) := by
  unfold getOrCompute
  rw [Action.runOn_bind, runOn_lookup_of_none h]
  exact runOn_setWith c.afterMiss key produce

/-- A value is fetched as one is computed, with the producer of the cache. -/
theorem runOn_fetch_of_producer {produce : String → Answer V} (h : c.producer = some produce)
    (key : String) :
    (fetch key).runOn c = (getOrCompute key fun key => .ofAnswer (produce key)).runOn c := by
  unfold fetch
  rw [Action.runOn_bind, Action.runOn_get]
  simp only [h]

/-- Without a producer a value is fetched as one is computed by a producer that always fails. -/
theorem runOn_fetch_of_no_producer (h : c.producer = none) (key : String) :
    (fetch key).runOn c = (getOrCompute key fun key => throw (.noProducer key)).runOn c := by
  unfold fetch
  rw [Action.runOn_bind, Action.runOn_get]
  simp only [h]
  rw [Action.runOn_bind]
  cases he : c.entries[key]? with
  | some e =>
    rw [runOn_getOrCompute_of_some he, runOn_lookup_of_some he]
    rfl
  | none =>
    rw [runOn_getOrCompute_of_none he, runOn_lookup_of_none he]
    rfl

/-- What the producer of a cache makes, if there is one. -/
def produced (c : Cache V) (key : String) : Answer V :=
  match c.producer with
  | some produce => produce key
  | none => .error (.noProducer key)

theorem runOn_fetch (c : Cache V) (key : String) :
    (fetch key).runOn c = (getOrCompute key fun key => .ofAnswer (c.produced key)).runOn c := by
  cases h : c.producer with
  | some produce =>
    rw [runOn_fetch_of_producer h]
    simp only [produced, h]
  | none =>
    rw [runOn_fetch_of_no_producer h]
    simp only [produced, h]
    rfl

/-- A value is inserted as one is computed by a producer that knows it. -/
theorem runOn_getOrInsert (c : Cache V) (key : String) (value : V) :
    (getOrInsert key value).runOn c = (getOrCompute key fun _ => pure value).runOn c := by
  unfold getOrInsert
  rw [Action.runOn_bind]
  cases he : c.entries[key]? with
  | some e =>
    rw [runOn_getOrCompute_of_some he, runOn_lookup_of_some he]
    rfl
  | none =>
    rw [runOn_getOrCompute_of_none he, runOn_lookup_of_none he]
    rfl

end Operations

/-! ## Elementary steps -/

/-- One elementary change of a cache, with what is noted of it. -/
inductive Step : Cache V → Event V → Cache V → Prop
  /-- A key is looked up. -/
  | look (c : Cache V) (key : String) :
    Step c (.looked key (c.contains key)) ((lookup key).runOn c).2
  /-- A value is put in place. -/
  | publish (c : Cache V) (key : String) (value : V) :
    Step c (.published key value c.clock.unixMillis (!c.contains key)) (c.publish key value)
  /-- An entry that is there is removed. -/
  | remove {c : Cache V} {key : String} (h : c.contains key = true) :
    Step c (.removed key) { c with entries := c.entries.erase key }
  /-- All entries are removed. -/
  | clear (c : Cache V) : Step c (.cleared c.size) { c with entries := ∅ }
  /-- A pass is made over the entries, in whatever order they are listed. -/
  | sweep {c : Cache V} {snapshot : List (String × Entry V)}
      (h : snapshot.Perm c.entries.toList) :
    Step c (.swept (keysOf (c.expired snapshot)) (keysOf (c.victims snapshot)))
      (c.swept snapshot)

/-- Elementary changes in a row, with moves of the clock in between. -/
inductive Steps : Cache V → Log V → Cache V → Prop
  /-- Nothing happens. -/
  | rest (c : Cache V) : Steps c [] c
  /-- The clock moves, in either direction. -/
  | wait {c d : Cache V} {log : Log V} (now : Instant) :
    Steps c log d → Steps c log { d with clock := now }
  /-- One more change is made. -/
  | step {c d e : Cache V} {log : Log V} {event : Event V} :
    Steps c log d → Step d event e → Steps c (event :: log) e

theorem Steps.trans {c d e : Cache V} {log more : Log V} (h : Steps c log d)
    (hmore : Steps d more e) : Steps c (more ++ log) e := by
  induction hmore with
  | rest => exact h
  | wait now _ ih => exact .wait now ih
  | step _ hstep ih => exact .step ih hstep

/-! ## Runs -/

/-- What is noted when a producer is done. -/
def publication (c : Cache V) (key : String) : Answer V → Log V
  | .ok value => [.published key value c.clock.unixMillis (!c.contains key)]
  | .error _ => []

/-- What is noted when a lookup is answered with an entry or else by a producer. -/
def resolution (c : Cache V) (key : String) (answer : Answer V) : Log V :=
  (if c.contains key then [] else c.publication key answer) ++ [.looked key (c.contains key)]

/-- Operations on a cache in a row, with what is noted of them, the newest event first.  A
computation may take its time: it begins with a lookup that finds nothing, other operations may come
in between, and it finishes when its value is put in place. -/
inductive Run : Cache V → Log V → Cache V → Prop
  /-- Nothing happens. -/
  | rest (c : Cache V) : Run c [] c
  /-- The clock moves, in either direction. -/
  | wait {c d : Cache V} {log : Log V} (now : Instant) :
    Run c log d → Run c log { d with clock := now }
  /-- A value is asked for that is there. -/
  | hit {c d : Cache V} {log : Log V} {key : String} (produce : String → Action (Cache V) V) :
    Run c log d → d.contains key = true →
      Run c (.looked key true :: log) ((getOrCompute key produce).runOn d).2
  /-- A value is asked for that is not there, and its producer does what is a run from there. -/
  | compute {c d after : Cache V} {log during : Log V} {key : String} {answer : Answer V}
      {produce : String → Action (Cache V) V} :
    Run c log d → d.contains key = false → (produce key).runOn d.afterMiss = (answer, after) →
      Run d.afterMiss during after →
      Run c (after.publication key answer ++ (during ++ .looked key false :: log))
        ((getOrCompute key produce).runOn d).2
  /-- A computation begins: a value is asked for that is not there. -/
  | begin {c d : Cache V} {log : Log V} {key : String} :
    Run c log d → d.contains key = false → Run c (.looked key false :: log) d.afterMiss
  /-- A computation that began before finishes with a value; one that fails changes nothing. -/
  | finish {c d : Cache V} {log : Log V} (key : String) (value : V) :
    Run c log d → Run c (d.publication key (.ok value) ++ log) (d.publish key value)
  /-- A value is fetched. -/
  | fetch {c d : Cache V} {log : Log V} (key : String) :
    Run c log d → Run c (d.resolution key (d.produced key) ++ log) ((fetch key).runOn d).2
  /-- A value is inserted unless one is there. -/
  | getOrInsert {c d : Cache V} {log : Log V} (key : String) (value : V) :
    Run c log d → Run c (d.resolution key (.ok value) ++ log) ((getOrInsert key value).runOn d).2
  /-- A value is overwritten. -/
  | set {c d : Cache V} {log : Log V} (key : String) (value : V) :
    Run c log d → Run c (d.publication key (.ok value) ++ log) ((set key value).runOn d).2
  /-- A value is overwritten with a produced one, and the producer does what is a run. -/
  | setWith {c d after : Cache V} {log during : Log V} {key : String} {answer : Answer V}
      {produce : String → Action (Cache V) V} :
    Run c log d → (produce key).runOn d = (answer, after) → Run d during after →
      Run c (after.publication key answer ++ (during ++ log)) ((setWith key produce).runOn d).2
  /-- An entry is removed if it is there. -/
  | remove {c d : Cache V} {log : Log V} (key : String) :
    Run c log d →
      Run c ((if d.contains key then [.removed key] else []) ++ log) ((remove key).runOn d).2
  /-- All entries are removed. -/
  | clear {c d : Cache V} {log : Log V} :
    Run c log d → Run c (.cleared d.size :: log) (clear.runOn d).2
  /-- The cache is optimized, its entries in whatever order they are listed. -/
  | optimize {c d : Cache V} {log : Log V} {snapshot : List (String × Entry V)} :
    Run c log d → snapshot.Perm d.entries.toList →
      Run c (.swept (keysOf (d.expired snapshot)) (keysOf (d.victims snapshot)) :: log)
        ((sweep snapshot).runOn d).2

/-- To optimize a cache is a pass over its entries in the order of their keys. -/
theorem runOn_optimize (c : Cache V) : optimize.runOn c = (sweep c.entries.toList).runOn c := by
  unfold optimize
  rw [Action.runOn_bind, Action.runOn_get]

namespace Steps

variable {c d : Cache V} {log : Log V} {key : String}

/-- Steps and a lookup that finds an entry. -/
theorem hit (h : Steps c log d) {e : Entry V} (he : d.entries[key]? = some e) :
    Steps c (.looked key true :: log) (d.afterHit key e) := by
  have hstep := Step.look d key
  have hcontains : d.contains key = true := contains_of_getElem? he
  rw [runOn_lookup_of_some he, hcontains] at hstep
  exact .step h hstep

/-- Steps and a lookup that finds nothing. -/
theorem miss (h : Steps c log d) (hnone : d.contains key = false) :
    Steps c (.looked key false :: log) d.afterMiss := by
  have hstep := Step.look d key
  rw [runOn_lookup_of_none (getElem?_of_contains_eq_false hnone), hnone] at hstep
  exact .step h hstep

/-- Steps up to the end of a producer, and what follows on it. -/
theorem settle (h : Steps c log d) (key : String) (answer : Answer V) :
    Steps c (d.publication key answer ++ log) (Cache.settle key (answer, d)).2 := by
  cases answer with
  | ok value => exact .step h (.publish d key value)
  | error e => exact h

/-- Steps and a value asked for that is there. -/
theorem found (h : Steps c log d) (hcontains : d.contains key = true)
    (produce : String → Action (Cache V) V) :
    Steps c (.looked key true :: log) ((getOrCompute key produce).runOn d).2 := by
  rw [contains_eq_isSome] at hcontains
  obtain ⟨e, he⟩ := Option.isSome_iff_exists.1 hcontains
  rw [runOn_getOrCompute_of_some he]
  exact h.hit he

/-- Steps and a value asked for, which a producer that leaves the cache alone makes if it is not
there. -/
theorem resolve (h : Steps c log d) {produce : String → Action (Cache V) V} {answer : Answer V}
    (hproduce : produce key = .ofAnswer answer) :
    Steps c (d.resolution key answer ++ log) ((getOrCompute key produce).runOn d).2 := by
  unfold resolution
  cases hcontains : d.contains key with
  | true => exact h.found hcontains produce
  | false =>
    rw [runOn_getOrCompute_of_none (getElem?_of_contains_eq_false hcontains), hproduce,
      Action.runOn_ofAnswer, if_neg Bool.false_ne_true, List.append_assoc]
    have hsame : d.afterMiss.publication key answer = d.publication key answer := by
      cases answer <;> rfl
    rw [← hsame]
    exact (h.miss hcontains).settle key answer

end Steps

/-- Every run is made of elementary steps. -/
theorem Run.steps {c d : Cache V} {log : Log V} (h : Run c log d) : Steps c log d := by
  induction h with
  | rest c => exact .rest c
  | wait now _ ih => exact .wait now ih
  | hit produce _ hcontains ih => exact ih.found hcontains produce
  | compute _ hnone hproduce _ ih ihduring =>
    rw [runOn_getOrCompute_of_none (getElem?_of_contains_eq_false hnone), hproduce]
    exact ((ih.miss hnone).trans ihduring).settle _ _
  | begin _ hnone ih => exact ih.miss hnone
  | finish key value _ ih => exact ih.settle key (.ok value)
  | fetch key _ ih =>
    rw [runOn_fetch]
    exact ih.resolve rfl
  | getOrInsert key value _ ih =>
    rw [runOn_getOrInsert]
    exact ih.resolve rfl
  | set key value _ ih => exact ih.settle key (.ok value)
  | setWith _ hproduce _ ih ihduring =>
    rw [runOn_setWith, hproduce]
    exact (ih.trans ihduring).settle _ _
  | @remove _ d _ key _ ih =>
    unfold Cache.remove
    rw [Action.runOn_attempt]
    cases hcontains : d.contains key with
    | true => exact .step ih (.remove hcontains)
    | false => exact ih
  | clear _ ih => exact .step ih (.clear _)
  | optimize _ hperm ih => exact .step ih (.sweep hperm)

/-! ## Entries after a run -/

theorem getElem?_insert (c : Cache V) (key other : String) (e : Entry V) :
    (c.entries.insert key e)[other]? = if key = other then some e else c.entries[other]? := by
  simp [Std.ExtTreeMap.getElem?_insert]

/-- What a step does to the entry of a key is what the noted event says. -/
theorem Step.getElem?_eq {c d : Cache V} {event : Event V} (h : Step c event d) (key : String) :
    d.entries[key]? = event.applyTo key c.entries[key]? := by
  cases h with
  | look k =>
    unfold Event.applyTo
    cases he : c.entries[k]? with
    | some e =>
      rw [runOn_lookup_of_some he]
      simp only [afterHit, getElem?_insert]
      split
      · rename_i hk
        rw [← hk, he]
        rfl
      · rfl
    | none =>
      rw [runOn_lookup_of_none he]
      simp only [afterMiss]
      split
      · rename_i hk
        rw [← hk, he]
        rfl
      · rfl
  | publish k value => exact getElem?_insert c k key _
  | @remove k h =>
    simp only [Event.applyTo, Std.ExtTreeMap.getElem?_erase]
    simp
  | clear => exact Std.ExtTreeMap.getElem?_empty
  | @sweep snapshot h => exact getElem?_swept c snapshot key

theorem Steps.getElem?_eq {c d : Cache V} {log : Log V} (h : Steps c log d) (key : String) :
    d.entries[key]? = log.foldr (Event.applyTo key) c.entries[key]? := by
  induction h with
  | rest => rfl
  | wait now _ ih => exact ih
  | step _ hstep ih => rw [hstep.getElem?_eq key, ih, List.foldr_cons]

/-- What there is in a cache after the events of a log, and how the cache answers from there. -/
structure Follows (c : Cache V) (log : Log V) : Prop where
  /-- A key has an entry exactly if no event since it was last published took it away. -/
  present : ∀ key, c.contains key = true ↔
    ∃ recent older value time fresh, log = recent ++ .published key value time fresh :: older ∧
      ∀ event ∈ recent, event.publishes key = false ∧ event.ends key = false
  /-- An entry has the value published last, the time of that, and a use for it and each lookup
  since. -/
  entry : ∀ key e, c.entries[key]? = some e ↔ log.Holds key e
  /-- A value that is there is answered, whatever its age, without the producer. -/
  hit : ∀ key e, c.entries[key]? = some e → ∀ produce : String → Action (Cache V) V,
    (getOrCompute key produce).runOn c = (.ok e.value, c.afterHit key e)
  /-- A value that is not there is produced once and put in place. -/
  miss : ∀ key, c.contains key = false → ∀ (produce : String → Action (Cache V) V) value after,
    (produce key).runOn c.afterMiss = (.ok value, after) →
      (getOrCompute key produce).runOn c = (.ok value, after.publish key value)
  /-- A producer that fails is run once as well, and nothing is put in place. -/
  failure : ∀ key, c.contains key = false → ∀ (produce : String → Action (Cache V) V) e after,
    (produce key).runOn c.afterMiss = (.error e, after) →
      (getOrCompute key produce).runOn c = (.error e, after)
  /-- To fetch is to compute with the producer of the cache. -/
  fetch : ∀ key produce, c.producer = some produce →
    (fetch key).runOn c = (getOrCompute key fun key => .ofAnswer (produce key)).runOn c
  /-- Without a producer, to fetch is to compute with one that always fails. -/
  noProducer : ∀ key, c.producer = none →
    (Cache.fetch key).runOn c = (getOrCompute key fun key => throw (.noProducer key)).runOn c
  /-- To insert is to compute with a constant. -/
  getOrInsert : ∀ key value,
    (getOrInsert key value).runOn c = (getOrCompute key fun _ => pure value).runOn c
  /-- A lookup that finds nothing leaves the entries as they are. -/
  kept : c.afterMiss.entries = c.entries

/-- A run from a cache without entries leads to the entries that its log tells of. -/
theorem follows_of_run {c d : Cache V} {log : Log V} (hempty : c.entries = ∅) (h : Run c log d) :
    Follows d log := by
  have hentry : ∀ key, d.entries[key]? = log.held? key := by
    intro key
    rw [h.steps.getElem?_eq key, hempty, Std.ExtTreeMap.getElem?_empty]
    rfl
  have hholds : ∀ key e, d.entries[key]? = some e ↔ log.Holds key e := by
    intro key e
    rw [hentry, Log.held?_eq_some_iff]
  constructor
  case present =>
    intro key
    rw [contains_eq_isSome, Option.isSome_iff_exists]
    constructor
    · rintro ⟨e, he⟩
      obtain ⟨recent, older, fresh, hlog, hcarry, -⟩ := (hholds key e).1 he
      exact ⟨recent, older, e.value, e.populated, fresh, hlog, hcarry⟩
    · rintro ⟨recent, older, value, time, fresh, hlog, hcarry⟩
      let e : Entry V := ⟨value, 1 + recent.countP (Event.looksUp key), time⟩
      exact ⟨e, (hholds key e).2 ⟨recent, older, fresh, hlog, hcarry, rfl⟩⟩
  case entry => exact hholds
  case hit =>
    intro key e he produce
    exact runOn_getOrCompute_of_some he produce
  case miss =>
    intro key hnone produce value after hproduce
    rw [runOn_getOrCompute_of_none (getElem?_of_contains_eq_false hnone), hproduce]
    rfl
  case failure =>
    intro key hnone produce e after hproduce
    rw [runOn_getOrCompute_of_none (getElem?_of_contains_eq_false hnone), hproduce]
    rfl
  case fetch =>
    intro key produce hproducer
    exact runOn_fetch_of_producer hproducer key
  case noProducer =>
    intro key hproducer
    exact runOn_fetch_of_no_producer hproducer key
  case getOrInsert =>
    intro key value
    exact runOn_getOrInsert d key value
  case kept => rfl

/-- A value outlives a failing computation of another one and is then found. -/
theorem follows_after_failure_and_hit :
    ∃ (d : Cache Nat) (log : Log Nat), Run {} log d ∧ Follows d log ∧
      d.entries["a"]? = some { value := 7, count := 2, populated := 0 } := by
  let c : Cache Nat := Cache.publish {} "a" 7
  let failing : String → Action (Cache Nat) Nat := fun key => throw (.notFound key)
  have hset : Run {} _ c := .set "a" 7 (.rest {})
  have hwait : Run {} _ { c with clock := ⟨5000000⟩ } := .wait ⟨5000000⟩ hset
  have hother : Cache.contains { c with clock := ⟨5000000⟩ } "b" = false := by
    simp [c, Cache.contains, Cache.publish]
  have hfailed : Run {} _ (afterMiss { c with clock := ⟨5000000⟩ }) :=
    @Run.compute _ _ _ _ _ _ _ _ failing hwait hother rfl (.rest _)
  have hthere : (afterMiss { c with clock := ⟨5000000⟩ }).contains "a" = true := by
    simp [c, afterMiss, Cache.contains, Cache.publish]
  have hfound := Run.hit failing hfailed hthere
  have hfollows := follows_of_run rfl hfound
  refine ⟨_, _, hfound, hfollows, (hfollows.entry "a" _).2 ?_⟩
  refine ⟨[.looked "a" true, .looked "b" false], [], true, ?_, ?_, rfl⟩
  · simp [publication, Cache.contains, Instant.unixMillis]
  · simp [Event.publishes, Event.ends]

end SealedStore.Cache
