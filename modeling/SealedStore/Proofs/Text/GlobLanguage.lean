import SealedStore.Proofs.Text.Glob

set_option autoImplicit false

/-!
# What glob patterns stand for

The matcher goes back to the last star only.  That is enough: between two stars a pattern takes one
character for each of its own, so whatever an earlier star could leave to be matched, the last one
can leave too (`matches_after_run`).  Main statement: exactly the texts that a pattern stands for
are accepted (`accepts_iff_matches`).
-/

namespace SealedStore.Glob

/-! ## Patterns read from the front -/

section Front

variable {c : Char} {p t : List Char}

theorem matches_nil_iff : Matches [] t ↔ t = [] := by
  constructor
  · rintro ⟨⟩
    rfl
  · rintro rfl
    exact .nil

theorem matches_star_iff : Matches ('*' :: p) t ↔ ∃ rest, rest <:+ t ∧ Matches p rest := by
  constructor
  · intro h
    cases h with
    | star swallowed h => exact ⟨_, List.suffix_append _ _, h⟩
    | literal _ hs => exact absurd rfl hs
  · rintro ⟨rest, ⟨swallowed, rfl⟩, h⟩
    exact .star swallowed h

theorem matches_any_iff : Matches ('?' :: p) t ↔ ∃ d rest, t = d :: rest ∧ Matches p rest := by
  constructor
  · intro h
    cases h with
    | any d h => exact ⟨d, _, rfl, h⟩
    | literal _ _ hq => exact absurd rfl hq
  · rintro ⟨d, rest, rfl, h⟩
    exact .any d h

/-- A backslash at the end of a pattern stands for nothing. -/
theorem matches_escape_iff :
    Matches ('\\' :: p) t ↔ ∃ d q rest, p = d :: q ∧ t = d :: rest ∧ Matches q rest := by
  constructor
  · intro h
    cases h with
    | escaped d h => exact ⟨d, _, _, rfl, rfl, h⟩
    | literal _ _ _ hb => exact absurd rfl hb
  · rintro ⟨d, q, rest, rfl, rfl, h⟩
    exact .escaped d h

theorem matches_literal_iff (hc : c ≠ '*' ∧ c ≠ '?' ∧ c ≠ '\\') :
    Matches (c :: p) t ↔ ∃ rest, t = c :: rest ∧ Matches p rest := by
  obtain ⟨hs, hq, hb⟩ := hc
  constructor
  · intro h
    cases h with
    | star => exact absurd rfl hs
    | any => exact absurd rfl hq
    | escaped => exact absurd rfl hb
    | literal _ _ _ _ h => exact ⟨_, rfl, h⟩
  · rintro ⟨rest, rfl, h⟩
    exact .literal c hs hq hb h

theorem eq_star_of_matches_nil (h : Matches (c :: p) []) : c = '*' := by
  generalize hempty : ([] : List Char) = t at h
  cases h with
  | star => rfl
  | any | escaped | literal => cases hempty

end Front

/-! ## Runs -/

/-- What is left to be matched at the end of a run can be matched. -/
def Run.CanGoOn : Run → Prop
  | .star p t => ∃ rest, rest <:+ t ∧ Matches p rest
  | .done => True
  | .stuck => False

/-- A run loses nothing: the text matches exactly if what the run left can be matched. -/
theorem matches_iff_canGoOn (p t : List Char) : Matches p t ↔ (run p t).CanGoOn := by
  fun_induction run p t with
  | case1 => exact iff_of_true .nil trivial
  | case2 d t => exact iff_of_false (fun h => List.cons_ne_nil d t (matches_nil_iff.1 h)) id
  | case3 p t => exact matches_star_iff
  | case4 p d t ih =>
    rw [← ih, matches_any_iff]
    constructor
    · rintro ⟨e, rest, ht, h⟩
      cases ht
      exact h
    · exact fun h => ⟨d, t, rfl, h⟩
  | case5 p d t ih =>
    rw [← ih, matches_escape_iff]
    constructor
    · rintro ⟨e, q, rest, hp, ht, h⟩
      cases hp
      cases ht
      exact h
    · exact fun h => ⟨d, p, t, rfl, rfl, h⟩
  | case6 c p d t hne =>
    refine iff_of_false ?_ id
    rw [matches_escape_iff]
    rintro ⟨e, q, rest, hp, ht, -⟩
    cases hp
    cases ht
    exact hne rfl
  | case7 p t hshort =>
    refine iff_of_false ?_ id
    rw [matches_escape_iff]
    rintro ⟨e, q, rest, hp, ht, -⟩
    exact hshort e q e rest ht hp
  | case8 p d t hs hq _ hb ih =>
    rw [← ih, matches_literal_iff ⟨hs, hq, hb⟩]
    constructor
    · rintro ⟨rest, ht, h⟩
      cases ht
      exact h
    · exact fun h => ⟨t, rfl, h⟩
  | case9 c p d t hs hq _ hb hne =>
    refine iff_of_false ?_ id
    rw [matches_literal_iff ⟨hs, hq, hb⟩]
    rintro ⟨rest, ht, -⟩
    cases ht
    exact hne rfl
  | case10 c p hs hb => exact iff_of_false (fun h => hs (eq_star_of_matches_nil h)) id

theorem suffix_of_cons_suffix {d e : Char} {r t : List Char} (h : e :: r <:+ d :: t) : r <:+ t := by
  rcases List.suffix_cons_iff.1 h with h | h
  · cases h
    exact List.suffix_rfl
  · exact (List.suffix_cons e r).trans h

/-- Earlier stars need not be tried again.  If the pattern matches where an earlier star would leave
more of the text to it, what follows its own star matches at some place that its own star reaches
anyway. -/
theorem matches_after_run {p t p' t' r : List Char} (hrun : run p t = .star p' t') (hr : r <:+ t)
    (h : Matches p r) : ∃ rest, rest <:+ t' ∧ Matches p' rest := by
  fun_induction run p t generalizing r with
  | case3 p t =>
    cases hrun
    obtain ⟨rest, hrest, hp'⟩ := matches_star_iff.1 h
    exact ⟨rest, hrest.trans hr, hp'⟩
  | case4 p d t ih =>
    obtain ⟨e, r', rfl, hp⟩ := matches_any_iff.1 h
    exact ih hrun (suffix_of_cons_suffix hr) hp
  | case5 p d t ih =>
    obtain ⟨e, q, r', hpattern, rfl, hp⟩ := matches_escape_iff.1 h
    cases hpattern
    exact ih hrun (suffix_of_cons_suffix hr) hp
  | case8 p d t hs hq _ hb ih =>
    obtain ⟨r', rfl, hp⟩ := (matches_literal_iff ⟨hs, hq, hb⟩).1 h
    exact ih hrun (suffix_of_cons_suffix hr) hp
  | case1 | case2 | case6 | case7 | case9 | case10 => cases hrun

/-- After a star, a pattern is found wherever it matches an end of the text. -/
theorem afterStar_iff (p t : List Char) :
    afterStar p t = true ↔ ∃ rest, rest <:+ t ∧ Matches p rest := by
  fun_induction afterStar p t with
  | case1 p t hrun =>
    refine iff_of_true rfl ⟨t, List.suffix_rfl, ?_⟩
    rw [matches_iff_canGoOn, hrun]
    trivial
  | case2 p t p' t' hrun ih =>
    rw [ih]
    constructor
    · intro h
      refine ⟨t, List.suffix_rfl, ?_⟩
      rw [matches_iff_canGoOn, hrun]
      exact h
    · rintro ⟨rest, hrest, h⟩
      exact matches_after_run hrun hrest h
  | case3 p hrun =>
    refine iff_of_false (by decide) ?_
    rintro ⟨rest, hrest, h⟩
    rw [List.suffix_nil.1 hrest, matches_iff_canGoOn, hrun] at h
    exact h
  | case4 p c t hrun ih =>
    rw [ih]
    constructor
    · rintro ⟨rest, hrest, h⟩
      exact ⟨rest, hrest.trans (List.suffix_cons c t), h⟩
    · rintro ⟨rest, hrest, h⟩
      rcases List.suffix_cons_iff.1 hrest with rfl | hrest
      · rw [matches_iff_canGoOn, hrun] at h
        cases h
      · exact ⟨rest, hrest, h⟩

/-- Exactly the texts that a pattern stands for are accepted. -/
theorem accepts_iff_matches (pattern text : String) :
    accepts pattern text = true ↔ Matches pattern.toList text.toList := by
  rw [matches_iff_canGoOn]
  unfold accepts
  cases run pattern.toList text.toList with
  | done => exact iff_of_true rfl trivial
  | star p t => exact afterStar_iff p t
  | stuck => exact iff_of_false nofun id

end SealedStore.Glob
