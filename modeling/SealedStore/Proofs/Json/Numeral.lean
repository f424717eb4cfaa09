import Mathlib.Data.List.TakeWhile
import Mathlib.Data.Option.Basic
import SealedStore.Json.Numeral
import SealedStore.Json.Printer
import SealedStore.Proofs.Text.Integer

set_option autoImplicit false

/-!
# Integers as numerals

An integer is written as a numeral without fraction and exponent (`read?_chars`), and that numeral
stands for the integer as long as it fits 64 bits (`toNumber?_ofInt`).
-/

namespace SealedStore.Numeral

/-- The digits of a natural number, as numbers. -/
def digitsOf (n : Nat) : List Nat :=
  (Nat.toDigits 10 n).map fun c => (Integer.digit? c).getD 0

/-- The numeral of an integer. -/
def ofInt (i : Int) : Numeral := ⟨decide (i < 0), digitsOf i.natAbs, none, none⟩

/-! ## Reading the digits -/

/-- Digits at the end of a text are all taken. -/
theorem digits_of_isDigit {cs : List Char} (h : ∀ c ∈ cs, c.isDigit = true) :
    digits cs = (cs.map fun c => (Integer.digit? c).getD 0, []) := by
  have hsome : ∀ c ∈ cs, (Integer.digit? c).isSome = true := by
    intro c hc
    rw [Integer.digit?_eq_some (h c hc)]
    rfl
  have hall : (cs.map Integer.digit?).takeWhile Option.isSome = cs.map Integer.digit? := by
    rw [List.takeWhile_eq_self_iff]
    intro d hd
    obtain ⟨c, hc, rfl⟩ := List.mem_map.1 hd
    exact hsome c hc
  unfold digits
  rw [hall, List.dropWhile_eq_nil_iff.2 hsome, List.map_map]
  rfl

theorem digitsOf_ne_nil (n : Nat) : digitsOf n ≠ [] := by
  simp [digitsOf]

/-- The digits of a number go without superfluous zeros. -/
theorem length_digitsOf {n : Nat} (h : (digitsOf n).head? = some 0) : (digitsOf n).length = 1 := by
  obtain ⟨c, cs, hcs⟩ := List.exists_cons_of_ne_nil (Nat.toDigits_ne_nil (n := n) (b := 10))
  have hc : c.isDigit = true := Integer.isDigit_toDigits c (by rw [hcs]; exact List.mem_cons_self)
  have hzero : c = '0' := by
    unfold digitsOf at h
    rw [hcs, List.map_cons, List.head?_cons, Integer.digit?_eq_some hc] at h
    have hlow : '0'.toNat ≤ c.toNat := by
      simp only [Char.isDigit, Bool.and_eq_true, decide_eq_true_eq] at hc
      exact hc.1
    have hvalue : c.toNat - '0'.toNat = 0 := Option.some.inj h
    exact Char.toNat_inj.1 (by omega)
  have hn : n = 0 := Integer.toDigits_eq_zero_of_head (by rw [hcs, hzero]; rfl)
  subst hn
  rfl

/-- What an integer is written as reads as its numeral. -/
theorem read?_chars (i : Int) : read? (Integer.chars i) = some (ofInt i) := by
  have hdigits : digits (Nat.toDigits 10 i.natAbs) = (digitsOf i.natAbs, []) :=
    digits_of_isDigit Integer.isDigit_toDigits
  have hsign : ∀ rest, Nat.toDigits 10 i.natAbs ≠ '-' :: rest := by
    intro rest h
    have := Integer.isDigit_toDigits '-' (by rw [h]; exact List.mem_cons_self)
    exact absurd this (by decide)
  unfold Integer.chars ofInt
  by_cases hneg : i < 0
  · simp only [hneg, ↓reduceIte, decide_true]
    simp [read?, hdigits, fraction?, exponent?, guard, digitsOf_ne_nil]
    rw [if_pos length_digitsOf, Option.bind_some]
  · simp only [hneg, ↓reduceIte, decide_false]
    simp [read?, hdigits, fraction?, exponent?, guard, digitsOf_ne_nil]
    rw [if_pos length_digitsOf, Option.bind_some]

/-! ## The number of the digits -/

theorem le_ofDigitChars (cs : List Char) (acc : Nat) : acc ≤ Nat.ofDigitChars 10 cs acc := by
  rw [Nat.ofDigitChars_eq_ofDigitChars_zero]
  have : acc ≤ 10 ^ cs.length * acc := Nat.le_mul_of_pos_left acc (Nat.pow_pos (by decide))
  omega

/-- Digits are taken up one by one as long as their number fits. -/
theorem significandFrom_of_le {cs : List Char} (h : ∀ c ∈ cs, c.isDigit = true) {acc : Nat}
    (hfits : Nat.ofDigitChars 10 cs acc ≤ greatest) :
    significandFrom acc (cs.map fun c => (Integer.digit? c).getD 0) =
      (Nat.ofDigitChars 10 cs acc, []) := by
  induction cs generalizing acc with
  | nil => rfl
  | cons c cs ih =>
    rw [Nat.ofDigitChars_cons, Nat.mul_comm] at hfits ⊢
    have hstep : acc * 10 + (c.toNat - '0'.toNat) ≤ greatest :=
      (le_ofDigitChars cs _).trans hfits
    rw [List.map_cons, Integer.digit?_eq_some (h c List.mem_cons_self), Option.getD_some,
      significandFrom, if_pos hstep, ih (fun d hd => h d (List.mem_cons_of_mem c hd)) hfits]

theorem significandFrom_digitsOf {n : Nat} (h : n ≤ greatest) :
    significandFrom 0 (digitsOf n) = (n, []) := by
  have hvalue : Nat.ofDigitChars 10 (Nat.toDigits 10 n) 0 = n := Nat.ofDigitChars_ten_toDigits
  unfold digitsOf
  rw [significandFrom_of_le Integer.isDigit_toDigits (by rw [hvalue]; exact h), hvalue]

/-- The numeral of an integer of 64 bits stands for the integer. -/
theorem toNumber?_ofInt {i : Int} (inRange : -0x8000000000000000 ≤ i ∧ i < 0x10000000000000000) :
    (ofInt i).toNumber? = some (.integer i inRange) := by
  have hfits : i.natAbs ≤ greatest := by
    unfold greatest
    omega
  have hsigned : (if i < 0 then -Int.ofNat i.natAbs else (i.natAbs : Int)) = i := by
    split
    · simp only [Int.ofNat_eq_natCast]
      omega
    · omega
  have hzero : ¬ (i < 0 ∧ i.natAbs = 0) := by omega
  have hint : Number.ofInt? i = some (.integer i inRange) := dif_pos inRange
  simp only [toNumber?, ofInt, significandFrom_digitsOf hfits, decide_eq_true_eq, hsigned, hzero,
    ↓reduceIte, hint]

end SealedStore.Numeral
