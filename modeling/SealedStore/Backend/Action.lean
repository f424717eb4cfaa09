import SealedStore.Error

set_option autoImplicit false

/-!
# Actions

Operations on a state that answer a value or an error.  What an operation did to the state before
it failed stays done.
-/

namespace SealedStore

/-- An operation on states of a type. -/
abbrev Action (σ α : Type) := ExceptT StoreError (StateM σ) α

namespace Action

variable {σ τ α : Type}

/-- What an operation answers from a state, and the state after it. -/
def runOn (a : Action σ α) (s : σ) : Answer α × σ := a.run.run s

/-- An operation that only looks. -/
def query (f : σ → Answer α) : Action σ α := ExceptT.mk fun s => (f s, s)

/-- An operation that always succeeds. -/
def update (f : σ → α × σ) : Action σ α := ExceptT.mk fun s => ((.ok (f s).1), (f s).2)

/-- An operation that changes nothing when it fails. -/
def attempt (f : σ → Answer (α × σ)) : Action σ α := ExceptT.mk fun s =>
  match f s with
  | .ok (a, after) => (.ok a, after)
  | .error e => (.error e, s)

/-- An operation on a part of a larger state. -/
def within (part : τ → σ) (place : σ → τ → τ) (a : Action σ α) : Action τ α := ExceptT.mk fun t =>
  let (answer, after) := a.runOn (part t)
  (answer, place after t)

/-- What an operation answers, be it a value or an error, as a value. -/
def observe (a : Action σ α) : Action σ (Answer α) := update a.runOn

/-- Passes on an answer. -/
def ofAnswer (r : Answer α) : Action σ α := ExceptT.mk fun s => (r, s)

/-- Changes the error of an operation that fails. -/
def mapError (f : StoreError → StoreError) (a : Action σ α) : Action σ α := ExceptT.mk fun s =>
  let (answer, after) := a.runOn s
  (match answer with
    | .ok x => .ok x
    | .error e => .error (f e), after)

@[simp] theorem runOn_query (f : σ → Answer α) (s : σ) : (query f).runOn s = (f s, s) := rfl

@[simp] theorem runOn_update (f : σ → α × σ) (s : σ) :
    (update f).runOn s = (.ok (f s).1, (f s).2) := rfl

@[simp] theorem runOn_ofAnswer (r : Answer α) (s : σ) :
    (ofAnswer r : Action σ α).runOn s = (r, s) := rfl

@[simp] theorem runOn_pure (x : α) (s : σ) : (pure x : Action σ α).runOn s = (.ok x, s) := rfl

theorem runOn_bind {β : Type} (a : Action σ α) (f : α → Action σ β) (s : σ) :
    (a >>= f).runOn s =
      match a.runOn s with
      | (.ok x, after) => (f x).runOn after
      | (.error e, after) => (.error e, after) := by
  simp only [runOn, ExceptT.run, bind, ExceptT.bind, ExceptT.mk, StateT.bind, StateT.run]
  generalize a s = r
  rcases r with ⟨x | x, after⟩ <;> rfl

end Action

end SealedStore
