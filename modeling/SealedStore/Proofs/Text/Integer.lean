import SealedStore.Text.Integer

set_option autoImplicit false

/-!
# Digits read back

The decimal digits of a number read as the number, also behind zeros that pad them
(`natural?_replicate_append`), and only zero begins with a zero.  A signed integer is read back from
what it was written as (`signed?_render`).
-/

namespace SealedStore.Integer

theorem digit_range {c : Char} (h : c.isDigit = true) : '0' ≤ c ∧ c ≤ '9' := by
  simpa [Char.isDigit, Char.le_def] using h

theorem digit?_eq_some {c : Char} (h : c.isDigit = true) :
    digit? c = some (c.toNat - '0'.toNat) :=
  if_pos (digit_range h)

theorem digit?_eq_none {c : Char} (h : c.isDigit = false) : digit? c = none := by
  have hrange : ¬ ('0' ≤ c ∧ c ≤ '9') := by
    intro hc
    simp [Char.isDigit, Char.le_def] at h hc
    exact absurd (h hc.1) (by simpa using hc.2)
  exact if_neg hrange

theorem isDigit_toDigits {n : Nat} : ∀ c ∈ Nat.toDigits 10 n, c.isDigit = true :=
  fun _ hc => Nat.isDigit_of_mem_toDigits (by decide) (by decide) hc

theorem digitsFrom?_eq {cs : List Char} (h : ∀ c ∈ cs, c.isDigit = true) (acc : Nat) :
    digitsFrom? acc cs = some (Nat.ofDigitChars 10 cs acc) := by
  induction cs generalizing acc with
  | nil => rfl
  | cons c cs ih =>
    rw [digitsFrom?, digit?_eq_some (h c List.mem_cons_self), Option.bind_some,
      ih fun d hd => h d (List.mem_cons_of_mem c hd), Nat.ofDigitChars_cons, Nat.mul_comm]

/-- The digits of a number read as the number, whatever zeros stand before them. -/
theorem natural?_replicate_append (zeros n : Nat) :
    natural? (List.replicate zeros '0' ++ Nat.toDigits 10 n) = some n := by
  have hne : List.replicate zeros '0' ++ Nat.toDigits 10 n ≠ [] :=
    List.append_ne_nil_of_right_ne_nil _ Nat.toDigits_ne_nil
  have hdigits : ∀ c ∈ List.replicate zeros '0' ++ Nat.toDigits 10 n, c.isDigit = true := by
    intro c hc
    rcases List.mem_append.1 hc with hc | hc
    · rw [List.eq_of_mem_replicate hc]
      decide
    · exact isDigit_toDigits c hc
  unfold natural?
  split
  · contradiction
  · rw [digitsFrom?_eq hdigits, Nat.ofDigitChars_append, Nat.ofDigitChars_replicate_zero,
      Nat.mul_zero, Nat.ofDigitChars_ten_toDigits]

/-- No superfluous zero leads. -/
theorem toDigits_eq_zero_of_head {n : Nat} (h : (Nat.toDigits 10 n).head? = some '0') : n = 0 := by
  induction n using Nat.strongRecOn with
  | ind n ih =>
    by_cases hn : n < 10
    · have hzero : ∀ d ∈ List.range 10, Nat.digitChar d = '0' → d = 0 := by decide
      rw [Nat.toDigits_of_lt_base hn, List.head?_cons, Option.some_inj] at h
      exact hzero n (List.mem_range.2 hn) h
    · obtain ⟨c, cs, hcs⟩ :=
        List.exists_cons_of_ne_nil (Nat.toDigits_ne_nil (n := n / 10) (b := 10))
      have hhead : (Nat.toDigits 10 (n / 10)).head? = some '0' := by
        rw [Nat.toDigits_of_base_le (by decide) (by omega), hcs] at h
        rw [hcs]
        exact h
      have := ih (n / 10) (by omega) hhead
      omega

/-! ## Signed integers -/

/-- Digits carry no sign. -/
theorem signed?_of_toDigits {low high : Int} {s : String} {n : Nat}
    (h : s.toList = Nat.toDigits 10 n) :
    signed? low high s =
      (some (n : Int)).filter fun i => decide (low ≤ i ∧ i ≤ high) := by
  have hread : natural? (Nat.toDigits 10 n) = some n := natural?_replicate_append 0 n
  obtain ⟨c, cs, hcs⟩ := List.exists_cons_of_ne_nil (Nat.toDigits_ne_nil (n := n) (b := 10))
  have hdigit : c.isDigit = true := isDigit_toDigits c (by rw [hcs]; exact List.mem_cons_self)
  unfold signed?
  rw [h, hcs]
  split
  · rename_i heq
    obtain ⟨rfl, -⟩ := List.cons.inj heq
    exact absurd hdigit (by decide)
  · rename_i heq
    obtain ⟨rfl, -⟩ := List.cons.inj heq
    exact absurd hdigit (by decide)
  · rw [← hcs, hread]
    rfl

theorem signed?_render {low high i : Int} (hlow : low ≤ i) (hhigh : i ≤ high) :
    signed? low high (render i) = some i := by
  have hchars : (render i).toList = chars i := String.toList_ofList
  by_cases hneg : i < 0
  · have hread : natural? (Nat.toDigits 10 i.natAbs) = some i.natAbs :=
      natural?_replicate_append 0 i.natAbs
    have hsign : -Int.ofNat i.natAbs = i := by
      rw [Int.ofNat_eq_natCast]
      omega
    rw [chars, if_pos hneg] at hchars
    unfold signed?
    rw [hchars]
    change ((natural? (Nat.toDigits 10 i.natAbs)).map fun n : Nat => -Int.ofNat n).filter _ = some i
    rw [hread, Option.map_some, hsign, Option.filter_some,
      if_pos (decide_eq_true ⟨hlow, hhigh⟩)]
  · rw [chars, if_neg hneg] at hchars
    have hsign : (i.natAbs : Int) = i := by omega
    rw [signed?_of_toDigits hchars, hsign, Option.filter_some,
      if_pos (decide_eq_true ⟨hlow, hhigh⟩)]

/-- An integer that is read lies in the range that was asked for. -/
theorem range_of_signed? {low high i : Int} {s : String} (h : signed? low high s = some i) :
    low ≤ i ∧ i ≤ high :=
  of_decide_eq_true (Option.filter_eq_some_iff.1 h).2

theorem render_injective {i k : Int} (h : render i = render k) : i = k := by
  have hi := signed?_render (Int.min_le_left i k) (Int.le_max_left i k)
  have hk := signed?_render (Int.min_le_right i k) (Int.le_max_right i k)
  rw [h, hk] at hi
  exact (Option.some.inj hi).symm

end SealedStore.Integer
