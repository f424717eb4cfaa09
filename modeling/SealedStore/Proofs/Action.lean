import Mathlib.Data.List.Forall2
import SealedStore.Backend.Action

set_option autoImplicit false

/-!
# What actions leave alone

An action *keeps* a view of the state when the view is the same after it, whatever the action
answers.  It keeps the view *on failure* when that holds of every run that ends in an error.  Both
notions go through sequences and traversals, so each operation of a store is judged from its parts.
-/

namespace SealedStore

/-! ## Answers -/

namespace Answer

variable {α β : Type} {a : Answer α}

theorem bind_eq_ok {f : α → Answer β} {y : β} :
    a.bind f = .ok y ↔ ∃ x, a = .ok x ∧ f x = .ok y := by
  cases a <;> simp [Except.bind]

theorem map_eq_ok {f : α → β} {y : β} : a.map f = .ok y ↔ ∃ x, a = .ok x ∧ f x = y := by
  cases a <;> simp [Except.map]

theorem mapError_eq_ok {f : StoreError → StoreError} {x : α} :
    a.mapError f = .ok x ↔ a = .ok x := by
  cases a <;> simp [Except.mapError]

end Answer

namespace Action

variable {σ τ α β γ δ : Type}

/-! ## Running one step -/

@[simp] theorem runOn_get (s : σ) : (get : Action σ σ).runOn s = (.ok s, s) := rfl

@[simp] theorem runOn_throw (e : StoreError) (s : σ) :
    (throw e : Action σ α).runOn s = (.error e, s) := rfl

@[simp] theorem ofAnswer_ok (x : α) : (ofAnswer (.ok x) : Action σ α) = pure x := rfl

theorem runOn_mapError (f : StoreError → StoreError) (a : Action σ α) (s : σ) :
    (a.mapError f).runOn s = ((a.runOn s).1.mapError f, (a.runOn s).2) := by
  unfold Action.mapError
  rcases h : a.runOn s with ⟨answer | answer, after⟩ <;>
    simp [runOn, ExceptT.run, ExceptT.mk, StateT.run, Except.mapError] at h ⊢ <;> simp [h]

theorem runOn_attempt (f : σ → Answer (α × σ)) (s : σ) :
    (attempt f).runOn s =
      match f s with
      | .ok (a, after) => (.ok a, after)
      | .error e => (.error e, s) := by
  unfold attempt
  rcases h : f s with e | ⟨a, after⟩ <;>
    simp [runOn, ExceptT.run, ExceptT.mk, StateT.run, h]

theorem runOn_map (f : α → β) (a : Action σ α) (s : σ) :
    (f <$> a).runOn s = ((a.runOn s).1.map f, (a.runOn s).2) := by
  rw [map_eq_pure_bind, runOn_bind]
  rcases a.runOn s with ⟨answer | answer, after⟩ <;> rfl

theorem runOn_mapError_eq_ok {f : StoreError → StoreError} {a : Action σ α} {s s' : σ} {x : α} :
    (a.mapError f).runOn s = (.ok x, s') ↔ a.runOn s = (.ok x, s') := by
  rw [runOn_mapError]
  rcases a.runOn s with ⟨e | y, after⟩ <;> simp [Except.mapError]

theorem runOn_map_eq_ok {f : α → β} {a : Action σ α} {s s' : σ} {y : β} :
    (f <$> a).runOn s = (.ok y, s') ↔ ∃ x, a.runOn s = (.ok x, s') ∧ f x = y := by
  rw [runOn_map]
  rcases a.runOn s with ⟨e | x, after⟩
  · simp [Except.map]
  · simp [Except.map, and_comm]

theorem runOn_map_eq_error {f : α → β} {a : Action σ α} {s s' : σ} {e : StoreError} :
    (f <$> a).runOn s = (.error e, s') ↔ a.runOn s = (.error e, s') := by
  rw [runOn_map]
  rcases a.runOn s with ⟨e' | x, after⟩ <;> simp [Except.map]

/-- A sequence that answers a value went through a value of its first part. -/
theorem runOn_bind_eq_ok {a : Action σ α} {f : α → Action σ β} {s s' : σ} {y : β} :
    (a >>= f).runOn s = (.ok y, s') ↔
      ∃ x mid, a.runOn s = (.ok x, mid) ∧ (f x).runOn mid = (.ok y, s') := by
  rw [runOn_bind]
  rcases a.runOn s with ⟨e | x, mid⟩
  · simp
  · constructor
    · intro h
      exact ⟨x, mid, rfl, h⟩
    · rintro ⟨_, _, h, hf⟩
      cases h
      exact hf

/-- A sequence that fails did so in its first part, or after it. -/
theorem runOn_bind_eq_error {a : Action σ α} {f : α → Action σ β} {s s' : σ} {e : StoreError} :
    (a >>= f).runOn s = (.error e, s') ↔
      a.runOn s = (.error e, s') ∨
        ∃ x mid, a.runOn s = (.ok x, mid) ∧ (f x).runOn mid = (.error e, s') := by
  rw [runOn_bind]
  rcases a.runOn s with ⟨e' | x, mid⟩
  · simp
  · constructor
    · intro h
      exact .inr ⟨x, mid, rfl, h⟩
    · rintro (h | ⟨_, _, h, hf⟩)
      · cases h
      · cases h
        exact hf

/-! ## Keeping a view -/

/-- The view of the state is the same after the action. -/
def Keeps (view : σ → γ) (a : Action σ α) : Prop := ∀ s, view (a.runOn s).2 = view s

section Keeps

variable {view : σ → γ}

theorem keeps_pure (x : α) : (pure x : Action σ α).Keeps view := fun _ => rfl

theorem keeps_get : (get : Action σ σ).Keeps view := fun _ => rfl

theorem keeps_throw (e : StoreError) : (throw e : Action σ α).Keeps view := fun _ => rfl

theorem keeps_query (f : σ → Answer α) : (query f).Keeps view := fun _ => rfl

theorem keeps_ofAnswer (r : Answer α) : (ofAnswer r : Action σ α).Keeps view := fun _ => rfl

theorem Keeps.mapError {a : Action σ α} (h : a.Keeps view) (f : StoreError → StoreError) :
    (a.mapError f).Keeps view := by
  intro s
  rw [runOn_mapError]
  exact h s

theorem Keeps.bind {a : Action σ α} {f : α → Action σ β} (ha : a.Keeps view)
    (hf : ∀ x, (f x).Keeps view) : (a >>= f).Keeps view := by
  intro s
  have h := ha s
  rw [runOn_bind]
  rcases hr : a.runOn s with ⟨e | x, mid⟩
  · rw [hr] at h
    exact h
  · rw [hr] at h
    exact (hf x mid).trans h

theorem Keeps.map {a : Action σ α} (h : a.Keeps view) (f : α → β) : (f <$> a).Keeps view := by
  intro s
  rw [runOn_map]
  exact h s

theorem keeps_forM {l : List α} {f : α → Action σ Unit} (h : ∀ x ∈ l, (f x).Keeps view) :
    (l.forM f).Keeps view := by
  induction l with
  | nil => exact keeps_pure ()
  | cons x rest ih =>
    have hx : (f x).Keeps view := h x List.mem_cons_self
    exact hx.bind fun _ => ih fun y hy => h y (List.mem_cons_of_mem x hy)

theorem keeps_mapM {l : List α} {f : α → Action σ β} (h : ∀ x ∈ l, (f x).Keeps view) :
    (l.mapM f).Keeps view := by
  induction l with
  | nil => exact keeps_pure []
  | cons x rest ih =>
    have hx : (f x).Keeps view := h x List.mem_cons_self
    rw [List.mapM_cons]
    refine hx.bind fun _ => Keeps.bind ?_ fun _ => keeps_pure _
    exact ih fun y hy => h y (List.mem_cons_of_mem x hy)

/-- Looking at several things in a row succeeds if looking at each of them does. -/
theorem runOn_forM_eq_ok {l : List α} {f : α → Action σ Unit} {s : σ}
    (h : ∀ x ∈ l, (f x).Keeps id) :
    ((l.forM f).runOn s).1 = .ok () ↔ ∀ x ∈ l, ((f x).runOn s).1 = .ok () := by
  induction l with
  | nil => exact ⟨fun _ x hx => absurd hx List.not_mem_nil, fun _ => rfl⟩
  | cons x rest ih =>
    have hx : ((f x).runOn s).2 = s := h x List.mem_cons_self s
    have hrest := ih fun y hy => h y (List.mem_cons_of_mem x hy)
    have hcons : (x :: rest).forM f = (f x >>= fun _ => rest.forM f) := rfl
    rw [hcons, runOn_bind]
    rcases hr : (f x).runOn s with ⟨e | _, mid⟩
    · simp [hr]
    · rw [hr] at hx
      obtain rfl : mid = s := hx
      simp only [List.mem_cons, forall_eq_or_imp, hr, true_and]
      exact hrest

/-- Looking at several things in a row gathers what looking at each of them answers. -/
theorem runOn_filterMapM_eq_ok {l : List α} {f : α → Action σ (Option β)} {g : α → Option β} {s : σ}
    (h : ∀ x ∈ l, (f x).runOn s = (.ok (g x), s)) :
    (l.filterMapM f).runOn s = (.ok (l.filterMap g), s) := by
  induction l with
  | nil => rfl
  | cons x rest ih =>
    have hrest := ih fun y hy => h y (List.mem_cons_of_mem x hy)
    rw [List.filterMapM_cons, runOn_bind, h x List.mem_cons_self, List.filterMap_cons]
    cases g x with
    | none => exact hrest
    | some y =>
      change ((rest.filterMapM f) >>= fun ys => pure (y :: ys)).runOn s = _
      rw [runOn_bind, hrest]
      rfl

/-- Looking at several things in a row fails if looking at one of them does. -/
theorem runOn_filterMapM_eq_error {l : List α} {f : α → Action σ (Option β)} {s : σ}
    (hkeeps : ∀ x, (f x).Keeps id) {x : α} (hx : x ∈ l) {e : StoreError}
    (h : ((f x).runOn s).1 = .error e) : ∃ e', (l.filterMapM f).runOn s = (.error e', s) := by
  induction l with
  | nil => exact absurd hx List.not_mem_nil
  | cons y rest ih =>
    have hy : ((f y).runOn s).2 = s := hkeeps y s
    rw [List.filterMapM_cons, runOn_bind]
    rcases hr : (f y).runOn s with ⟨e' | found, mid⟩
    · rw [hr] at hy
      exact ⟨e', congrArg _ hy⟩
    · rw [hr] at hy
      obtain rfl : mid = s := hy
      have hrest : x ∈ rest := by
        rcases List.mem_cons.1 hx with rfl | hx
        · rw [hr] at h
          cases h
        · exact hx
      obtain ⟨e', hfails⟩ := ih hrest
      refine ⟨e', ?_⟩
      cases found with
      | none => exact hfails
      | some z =>
        change ((rest.filterMapM f) >>= fun ys => pure (z :: ys)).runOn mid = _
        rw [runOn_bind, hfails]

/-- What a view determines is kept with it. -/
theorem Keeps.comp {a : Action σ α} (h : a.Keeps view) (g : γ → δ) :
    a.Keeps fun s => g (view s) :=
  fun s => congrArg g (h s)

/-- The view after a run whose outcome is known. -/
theorem Keeps.of_runOn {a : Action σ α} (h : a.Keeps view) {s s' : σ} {r : Answer α}
    (hr : a.runOn s = (r, s')) : view s' = view s := by
  have := h s
  rw [hr] at this
  exact this

/-- What holds of every answer of a part, as long as the view is what it was, holds of the answers
of a traversal one by one. -/
theorem forall₂_of_mapM {f : α → Action σ β} {P : α → β → Prop} {l : List α} {ys : List β}
    {s s' : σ}
    (hkeeps : ∀ x, (f x).Keeps view)
    (hP : ∀ x t t' y, view t = view s → (f x).runOn t = (.ok y, t') → P x y)
    (h : (l.mapM f).runOn s = (.ok ys, s')) : List.Forall₂ P l ys := by
  suffices hgo : ∀ t, view t = view s → (l.mapM f).runOn t = (.ok ys, s') → List.Forall₂ P l ys from
    hgo s rfl h
  clear h
  induction l generalizing ys with
  | nil =>
    intro t _ h
    cases h
    exact .nil
  | cons x rest ih =>
    intro t ht h
    rw [List.mapM_cons] at h
    obtain ⟨y, mid, hy, h⟩ := runOn_bind_eq_ok.1 h
    obtain ⟨zs, after, hzs, h⟩ := runOn_bind_eq_ok.1 h
    cases h
    have hmid : view mid = view s := ((hkeeps x).of_runOn hy).trans ht
    exact .cons (hP x t mid y ht hy) (ih mid hmid hzs)

/-- A traversal answers what its parts answer, if none of them changes the state. -/
theorem runOn_mapM_eq_ok {f : α → Action σ β} {l : List α} {ys : List β} {s : σ}
    (h : List.Forall₂ (fun x y => (f x).runOn s = (.ok y, s)) l ys) :
    (l.mapM f).runOn s = (.ok ys, s) := by
  induction h with
  | nil => rfl
  | cons hxy htail ih =>
    rw [List.mapM_cons]
    refine runOn_bind_eq_ok.2 ⟨_, s, hxy, ?_⟩
    exact runOn_bind_eq_ok.2 ⟨_, s, ih, rfl⟩

/-- In a traversal each part has its answer and each answer its part. -/
theorem exists_of_forall₂ {P : α → β → Prop} {l : List α} {ys : List β}
    (h : List.Forall₂ P l ys) : (∀ x ∈ l, ∃ y ∈ ys, P x y) ∧ ∀ y ∈ ys, ∃ x ∈ l, P x y := by
  induction h with
  | nil => simp
  | @cons x y l ys hxy htail ih =>
    obtain ⟨hparts, hanswers⟩ := ih
    constructor
    · intro z hz
      rcases List.mem_cons.1 hz with rfl | hz
      · exact ⟨y, List.mem_cons_self, hxy⟩
      · obtain ⟨w, hw, hzw⟩ := hparts z hz
        exact ⟨w, List.mem_cons_of_mem y hw, hzw⟩
    · intro w hw
      rcases List.mem_cons.1 hw with rfl | hw
      · exact ⟨x, List.mem_cons_self, hxy⟩
      · obtain ⟨z, hz, hzw⟩ := hanswers w hw
        exact ⟨z, List.mem_cons_of_mem x hz, hzw⟩

end Keeps

/-! ## Keeping a view on failure -/

/-- The view of the state is the same after every run that fails. -/
def KeepsOnFailure (view : σ → γ) (a : Action σ α) : Prop :=
  ∀ s e s', a.runOn s = (.error e, s') → view s' = view s

section KeepsOnFailure

variable {view : σ → γ}

theorem keepsOnFailure_attempt (f : σ → Answer (α × σ)) : (attempt f).KeepsOnFailure view := by
  intro s e s' h
  rw [runOn_attempt] at h
  rcases hf : f s with e' | ⟨a, after⟩
  · rw [hf] at h
    cases h
    rfl
  · rw [hf] at h
    cases h

theorem keepsOnFailure_update (f : σ → α × σ) : (update f).KeepsOnFailure view := by
  intro s e s' h
  cases h

theorem KeepsOnFailure.mapError {a : Action σ α} (h : a.KeepsOnFailure view)
    (f : StoreError → StoreError) : (a.mapError f).KeepsOnFailure view := by
  intro s e s' hr
  rw [runOn_mapError] at hr
  rcases ha : a.runOn s with ⟨e' | x, after⟩
  · rw [ha] at hr
    cases hr
    exact h s e' after ha
  · rw [ha] at hr
    cases hr

theorem KeepsOnFailure.comp {a : Action σ α} (h : a.KeepsOnFailure view) (g : γ → δ) :
    a.KeepsOnFailure fun s => g (view s) :=
  fun s e s' hr => congrArg g (h s e s' hr)

/-- A part that keeps the view may come before one that keeps it on failure. -/
theorem Keeps.bind_onFailure {a : Action σ α} {f : α → Action σ β} (ha : a.Keeps view)
    (hf : ∀ x, (f x).KeepsOnFailure view) : (a >>= f).KeepsOnFailure view := by
  intro s e s' h
  rcases runOn_bind_eq_error.1 h with h | ⟨x, mid, hx, h⟩
  · exact ha.of_runOn h
  · exact (hf x mid e s' h).trans (ha.of_runOn hx)

/-- What follows a part that keeps the view on failure must not fail. -/
theorem KeepsOnFailure.bind_pure {a : Action σ α} (h : a.KeepsOnFailure view) (f : α → β) :
    (a >>= fun x => pure (f x)).KeepsOnFailure view := by
  intro s e s' hr
  rcases runOn_bind_eq_error.1 hr with hr | ⟨x, mid, -, hr⟩
  · exact h s e s' hr
  · cases hr

end KeepsOnFailure

end Action

end SealedStore
