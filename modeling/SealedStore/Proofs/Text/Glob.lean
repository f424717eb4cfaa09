import SealedStore.Text.Glob

set_option autoImplicit false

/-!
# Literal text in glob patterns

Text without special characters stands for itself at the start of a pattern: what is accepted is
that text followed by what the rest of the pattern accepts (`accepts_append`).  Text with special
characters does not: the shortest text that is accepted then begins otherwise
(`isLiteral_of_prefix_shortest`).
-/

namespace SealedStore.Glob

/-- Text without special characters. -/
def IsLiteral (cs : List Char) : Prop := ∀ c ∈ cs, c ≠ '*' ∧ c ≠ '?' ∧ c ≠ '\\'

instance (cs : List Char) : Decidable (IsLiteral cs) :=
  List.decidableBAll (fun c => c ≠ '*' ∧ c ≠ '?' ∧ c ≠ '\\') cs

theorem run_cons_cons {c : Char} (hc : c ≠ '*' ∧ c ≠ '?' ∧ c ≠ '\\') (p : List Char) (d : Char)
    (t : List Char) : run (c :: p) (d :: t) = if c = d then run p t else .stuck := by
  obtain ⟨hstar, hany, hescape⟩ := hc
  rw [run]
  · exact hstar
  · exact hany
  · rintro c' p' rfl
    exact absurd rfl hescape
  · exact hescape

theorem run_cons_nil {c : Char} (hc : c ≠ '*' ∧ c ≠ '?' ∧ c ≠ '\\') (p : List Char) :
    run (c :: p) [] = .stuck := by
  obtain ⟨hstar, -, hescape⟩ := hc
  rw [run]
  · exact hstar
  · exact hescape

/-- A run over literal text goes on behind it, or is stuck in it. -/
theorem run_append {lit : List Char} (hlit : IsLiteral lit) (p t : List Char) :
    run (lit ++ p) t = if lit.isPrefixOf t then run p (t.drop lit.length) else .stuck := by
  induction lit generalizing t with
  | nil => simp
  | cons c lit ih =>
    have hc := hlit c List.mem_cons_self
    cases t with
    | nil => exact run_cons_nil hc (lit ++ p)
    | cons d t =>
      rw [List.cons_append, run_cons_cons hc, ih fun c' hc' => hlit c' (List.mem_cons_of_mem c hc')]
      by_cases hd : c = d
      · simp [hd]
      · simp [hd]

/-- A pattern that begins with literal text accepts that text followed by what its rest accepts. -/
theorem accepts_append {pattern rest text : String} {lit : List Char} (hlit : IsLiteral lit)
    (hpattern : pattern.toList = lit ++ rest.toList) :
    accepts pattern text = true ↔
      ∃ tail : String, text.toList = lit ++ tail.toList ∧ accepts rest tail = true := by
  unfold accepts
  rw [hpattern, run_append hlit]
  constructor
  · intro h
    cases hbegins : lit.isPrefixOf text.toList with
    | false =>
      rw [hbegins] at h
      cases h
    | true =>
      obtain ⟨tail, htail⟩ := List.isPrefixOf_iff_prefix.1 hbegins
      refine ⟨String.ofList tail, ?_, ?_⟩
      · rw [String.toList_ofList, htail]
      · rw [hbegins, ← htail, List.drop_left] at h
        rw [String.toList_ofList]
        exact h
  · rintro ⟨tail, htext, h⟩
    have hbegins : lit.isPrefixOf text.toList = true :=
      List.isPrefixOf_iff_prefix.2 ⟨tail.toList, htext.symm⟩
    rw [if_pos hbegins, htext, List.drop_left]
    exact h

/-! ## Texts that are accepted -/

/-- A run that fits, or fits behind the stars that it reaches. -/
def fits (p t : List Char) : Bool :=
  match run p t with
  | .done => true
  | .star p' t' => afterStar p' t'
  | .stuck => false

/-- A star may stand for nothing. -/
theorem afterStar_of_fits {p t : List Char} (h : fits p t = true) : afterStar p t = true := by
  unfold fits at h
  unfold afterStar
  split at h
  · rename_i hrun
    split <;> simp_all
  · rename_i hrun
    split <;> simp_all
  · cases h

theorem afterStar_nil (t : List Char) : afterStar [] t = true := by
  induction t with
  | nil => simp [afterStar, run]
  | cons c t ih =>
    unfold afterStar
    simpa [run] using ih

/-- A star accepts every text. -/
theorem accepts_star (text : String) : accepts "*" text = true :=
  afterStar_nil text.toList

/-- The shortest text that a pattern followed by a colon and a star stands for: stars stand for
nothing, and a question mark stands for the filler. -/
def shortest (filler : Char) : List Char → List Char
  | [] => [':']
  | '*' :: p => shortest filler p
  | '?' :: p => filler :: shortest filler p
  | ['\\'] => [':']
  | '\\' :: c :: p => c :: shortest filler p
  | c :: p => c :: shortest filler p

section Shortest

variable {filler : Char} {p : List Char}

/-- A character that none of the special cases is about. -/
theorem ordinary_of_not {c : Char} {p : List Char} (hstar : c ≠ '*') (hany : c ≠ '?')
    (hlone : c = '\\' → p ≠ []) (hescape : ∀ d q, c = '\\' → p ≠ d :: q) :
    c ≠ '*' ∧ c ≠ '?' ∧ c ≠ '\\' := by
  refine ⟨hstar, hany, ?_⟩
  rintro rfl
  cases p with
  | nil => exact hlone rfl rfl
  | cons d q => exact hescape d q rfl rfl

/-- The shortest text is accepted. -/
theorem fits_shortest : fits (p ++ [':', '*']) (shortest filler p) = true := by
  fun_induction shortest filler p with
  | case1 => exact afterStar_nil []
  | case2 p ih => exact afterStar_of_fits ih
  | case3 p ih => exact ih
  | case4 => exact afterStar_nil []
  | case5 c p ih =>
    unfold fits
    rw [List.cons_append, List.cons_append, run, if_pos rfl]
    exact ih
  | case6 c p hstar hany hlone hescape ih =>
    unfold fits
    rw [List.cons_append, run_cons_cons (ordinary_of_not hstar hany hlone hescape), if_pos rfl]
    exact ih

theorem length_shortest : (shortest filler p).length ≤ p.length + 1 := by
  fun_induction shortest filler p with
  | case1 => exact Nat.le_refl 1
  | case2 p ih => exact Nat.le_succ_of_le ih
  | case3 p ih => exact Nat.succ_le_succ ih
  | case4 => exact Nat.le_succ 1
  | case5 c p ih => exact Nat.le_succ_of_le (Nat.succ_le_succ ih)
  | case6 c p _ _ _ _ ih => exact Nat.succ_le_succ ih

theorem length_le_of_begins {q : List Char} (h : q ++ [':'] <+: shortest filler p) :
    q.length ≤ p.length := by
  have hlong := h.length_le
  have hshort : (shortest filler p).length ≤ p.length + 1 := length_shortest
  rw [List.length_append, List.length_singleton] at hlong
  omega

theorem shortest_eq_append (filler : Char) (p : List Char) :
    ∃ before, shortest filler p = before ++ [':'] := by
  fun_induction shortest filler p with
  | case1 => exact ⟨[], rfl⟩
  | case2 p ih => exact ih
  | case4 => exact ⟨[], rfl⟩
  | case3 p ih | case5 c p ih | case6 c p _ _ _ _ ih =>
    obtain ⟨before, hbefore⟩ := ih
    exact ⟨_ :: before, by rw [hbefore, List.cons_append]⟩

/-- Only literal text begins the shortest text that it stands for. -/
theorem isLiteral_of_prefix_shortest (hfiller : filler ≠ '?')
    (h : p ++ [':'] <+: shortest filler p) : IsLiteral p := by
  fun_induction shortest filler p with
  | case1 => exact nofun
  | case2 p ih => exact absurd (length_le_of_begins h) (Nat.not_succ_le_self _)
  | case3 p ih => exact absurd (List.cons_prefix_cons.1 h).1.symm hfiller
  | case4 => exact absurd h (by decide)
  | case5 c p ih =>
    obtain ⟨-, hrest⟩ := List.cons_prefix_cons.1 h
    exact absurd (length_le_of_begins hrest) (Nat.not_succ_le_self _)
  | case6 c p hstar hany hlone hescape ih =>
    obtain ⟨-, hrest⟩ := List.cons_prefix_cons.1 h
    intro d hd
    rcases List.mem_cons.1 hd with rfl | hd
    · exact ordinary_of_not hstar hany hlone hescape
    · exact ih hrest d hd

end Shortest

end SealedStore.Glob
