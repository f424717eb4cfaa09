import Mathlib.Data.Option.Basic
import SealedStore.Proofs.Text.Integer
import SealedStore.Proofs.Time.Calendar
import SealedStore.Time.Timestamp

set_option autoImplicit false

/-!
# Timestamps read back

What a clock shows is written as a text that reads as the same moment, to the nanosecond
(`read?_render`).  Each reader takes its part off the front of the text and leaves the rest.
-/

namespace SealedStore

namespace Timestamp

variable {α β : Type}

/-- A reader goes on where the reader before it stopped. -/
theorem run_bind_of {r : Reader α} {f : α → Reader β} {cs rest : List Char} {x : α}
    (h : r.run cs = some (x, rest)) : (r >>= f).run cs = (f x).run rest := by
  rw [StateT.run_bind, h]
  rfl

theorem get_run (cs : List Char) : (get : Reader (List Char)).run cs = some (cs, cs) := rfl

theorem run_guard_of {p : Prop} [Decidable p] (h : p) (cs : List Char) :
    (guard p : Reader Unit).run cs = some ((), cs) := by
  change (if p then pure () else failure : Reader Unit).run cs = _
  rw [if_pos h]
  rfl

/-! ## Marks and blanks -/

theorem mark_run (c : Char) (rest : List Char) : (mark c).run (c :: rest) = some ((), rest) :=
  if_pos rfl

/-- No blanks are passed over where another character stands. -/
theorem blanks_run {c : Char} (h : isBlank c = false) (rest : List Char) :
    blanks.run (c :: rest) = some ((), c :: rest) := by
  have hkeep : dropBlanks (c :: rest) = c :: rest :=
    List.dropWhile_cons_of_neg (by rw [h]; exact Bool.false_ne_true)
  change some ((), dropBlanks (c :: rest)) = _
  rw [hkeep]

theorem isBlank_of_isDigit {c : Char} (h : c.isDigit = true) : isBlank c = false := by
  obtain ⟨hlow, hhigh⟩ := Integer.digit_range h
  have hlow' : 48 ≤ c.toNat := hlow
  have hhigh' : c.toNat ≤ 57 := hhigh
  simp only [isBlank, decide_eq_false_iff_not]
  omega

/-! ## Digits -/

theorem isDigit_padded {width n : Nat} : ∀ c ∈ padded width n, c.isDigit = true := by
  intro c hc
  rcases List.mem_append.1 hc with hc | hc
  · rw [List.eq_of_mem_replicate hc]
    rfl
  · exact Integer.isDigit_toDigits c hc

theorem natural?_padded (width n : Nat) : Integer.natural? (padded width n) = some n :=
  Integer.natural?_replicate_append _ n

/-- A number that fits takes exactly the digits it is padded to. -/
theorem length_padded {width n : Nat} (hwidth : 0 < width) (h : n < Nat.pow 10 width) :
    (padded width n).length = width := by
  have hle : (Nat.toDigits 10 n).length ≤ width :=
    (Nat.length_toDigits_le_iff (by decide) hwidth).2 h
  simp only [padded, List.length_append, List.length_replicate]
  omega

/-- A padded number begins with a digit. -/
theorem padded_eq_cons (width n : Nat) :
    ∃ c cs, padded width n = c :: cs ∧ c.isDigit = true := by
  have hne : padded width n ≠ [] :=
    List.append_ne_nil_of_right_ne_nil _ Nat.toDigits_ne_nil
  obtain ⟨c, cs, hcs⟩ := List.exists_cons_of_ne_nil hne
  exact ⟨c, cs, hcs, isDigit_padded c (by rw [hcs]; exact List.mem_cons_self)⟩

/-- Nothing that could be one more digit follows. -/
def Ends (rest : List Char) : Prop := ∀ c ∈ rest.head?, c.isDigit = false

theorem ends_cons {c : Char} (h : c.isDigit = false) (rest : List Char) : Ends (c :: rest) := by
  intro d hd
  rw [List.head?_cons, Option.mem_def, Option.some_inj] at hd
  exact hd ▸ h

theorem takeWhile_digits {cs rest : List Char} (h : ∀ c ∈ cs, c.isDigit = true)
    (hrest : Ends rest) :
    (cs ++ rest).takeWhile (fun c => (Integer.digit? c).isSome) = cs := by
  have hcs : ∀ c ∈ cs, (Integer.digit? c).isSome = true := by
    intro c hc
    rw [Integer.digit?_eq_some (h c hc)]
    rfl
  have hnil : rest.takeWhile (fun c => (Integer.digit? c).isSome) = [] := by
    cases rest with
    | nil => rfl
    | cons c rest =>
      rw [List.takeWhile_cons_of_neg]
      rw [Integer.digit?_eq_none (hrest c rfl)]
      exact Bool.false_ne_true
  rw [List.takeWhile_append_of_pos hcs, hnil, List.append_nil]

/-- Digits are read as their number, when no more are wanted or no more are there. -/
theorem digits_run {most width n : Nat} {rest : List Char}
    (hmost : (padded width n).length ≤ most)
    (hrest : (padded width n).length = most ∨ Ends rest) :
    (digits most).run (padded width n ++ rest) = some (n, rest) := by
  have hends : Ends (rest.take (most - (padded width n).length)) := by
    rcases hrest with hexact | hends
    · rw [hexact, Nat.sub_self]
      exact nofun
    · intro c hc
      rw [List.head?_take] at hc
      split at hc
      · cases hc
      · exact hends c hc
  have htake : ((padded width n ++ rest).take most).takeWhile
      (fun c => (Integer.digit? c).isSome) = padded width n := by
    rw [List.take_append, List.take_of_length_le hmost, takeWhile_digits isDigit_padded hends]
  change (Integer.natural? _).map _ = _
  rw [htake, natural?_padded, Option.map_some, List.drop_left]

/-- Two digits are read as their number. -/
theorem twoDigits_run {low high n : Nat} (hlow : low ≤ n) (hhigh : n ≤ high) (htwo : n < 100)
    (rest : List Char) : (twoDigits low high).run (padded 2 n ++ rest) = some (n, rest) := by
  obtain ⟨c, cs, hcs, hc⟩ := padded_eq_cons 2 n
  have hblanks : blanks.run (padded 2 n ++ rest) = some ((), padded 2 n ++ rest) := by
    rw [hcs]
    exact blanks_run (isBlank_of_isDigit hc) _
  have hlength : (padded 2 n).length = 2 := length_padded (by decide) htwo
  unfold twoDigits
  rw [run_bind_of hblanks, run_bind_of (digits_run (Nat.le_of_eq hlength) (.inl hlength)),
    run_bind_of (run_guard_of ⟨hlow, hhigh⟩ rest)]
  rfl

/-! ## The parts -/

theorem year_minus_run (rest : List Char) :
    year.run ('-' :: rest) = (digits rest.length >>= fun n => pure (-Int.ofNat n)).run rest :=
  rfl

theorem year_plus_run (rest : List Char) :
    year.run ('+' :: rest) = (digits rest.length >>= fun n => pure (Int.ofNat n)).run rest :=
  rfl

/-- A year is read up to the mark behind it. -/
theorem year_run (y : Int) (rest : List Char) :
    year.run (yearChars y ++ '-' :: rest) = some (y, '-' :: rest) := by
  have hends : Ends ('-' :: rest) := ends_cons rfl rest
  have hsigned : ∀ n, (digits (padded 4 n ++ '-' :: rest).length).run (padded 4 n ++ '-' :: rest) =
      some (n, '-' :: rest) := by
    intro n
    exact digits_run (by rw [List.length_append]; omega) (.inr hends)
  fun_cases yearChars y with
  | case1 hplain =>
    obtain ⟨c, cs, hcs, hc⟩ := padded_eq_cons 4 y.toNat
    have hlength : (padded 4 y.toNat).length = 4 := by
      have hsmall : y.toNat < 10000 := by omega
      exact length_padded (by decide) hsmall
    have hdigits : (digits 4).run (padded 4 y.toNat ++ '-' :: rest) =
        some (y.toNat, '-' :: rest) := digits_run (Nat.le_of_eq hlength) (.inl hlength)
    rw [hcs, List.cons_append] at hdigits ⊢
    unfold year
    rw [run_bind_of (blanks_run (isBlank_of_isDigit hc) _), run_bind_of (get_run _)]
    split
    · rename_i heq
      cases heq
      exact absurd hc (by decide)
    · rename_i heq
      cases heq
      exact absurd hc (by decide)
    · rw [run_bind_of hdigits]
      have hvalue : Int.ofNat y.toNat = y := Int.toNat_of_nonneg hplain.1
      rw [hvalue]
      rfl
  | case2 hout =>
    by_cases hneg : y < 0
    · have hvalue : -Int.ofNat y.natAbs = y := by rw [Int.ofNat_eq_natCast]; omega
      rw [if_pos hneg, List.cons_append, year_minus_run, run_bind_of (hsigned _), hvalue]
      rfl
    · have hvalue : Int.ofNat y.natAbs = y := by rw [Int.ofNat_eq_natCast]; omega
      rw [if_neg hneg, List.cons_append, year_plus_run, run_bind_of (hsigned _), hvalue]
      rfl

theorem fraction_point_run {cs ds : List Char}
    (h : cs.takeWhile (fun c => (Integer.digit? c).isSome) = ds) :
    fraction.run ('.' :: cs) = (Integer.natural? (ds.take 9)).map fun n =>
      (n * Nat.pow 10 (9 - (ds.take 9).length), cs.drop ds.length) := by
  subst h
  rw [Option.map_eq_bind]
  unfold fraction
  rw [run_bind_of (get_run _)]
  change ((liftM (Integer.natural? _) : Reader Nat).run _).bind _ = _
  cases Integer.natural? ((cs.takeWhile fun c => (Integer.digit? c).isSome).take 9) <;> rfl

/-- A point and a number of digits are read as nanoseconds. -/
theorem point_run {width n : Nat} (hwidth : 0 < width) (hnine : width ≤ 9)
    (h : n < Nat.pow 10 width) {rest : List Char} (hrest : Ends rest) :
    fraction.run ('.' :: padded width n ++ rest) = some (n * Nat.pow 10 (9 - width), rest) := by
  have hlength : (padded width n).length = width := length_padded hwidth h
  have hdigits : (padded width n ++ rest).takeWhile (fun c => (Integer.digit? c).isSome) =
      padded width n := takeWhile_digits isDigit_padded hrest
  have hcounted : (padded width n).take 9 = padded width n := List.take_of_length_le (by omega)
  rw [List.cons_append, fraction_point_run hdigits, hcounted, natural?_padded, Option.map_some,
    hlength, List.drop_left' hlength]

theorem fraction_run {nanos : Nat} (h : nanos < 1000000000) (rest : List Char) :
    fraction.run (fractionChars nanos ++ 'Z' :: rest) = some (nanos, 'Z' :: rest) := by
  have hends : Ends ('Z' :: rest) := ends_cons rfl rest
  fun_cases fractionChars nanos with
  | case1 hzero =>
    subst hzero
    rfl
  | case2 _ hmilli =>
    have hsmall : nanos / 1000000 < 1000 := by omega
    have hvalue : nanos / 1000000 * Nat.pow 10 (9 - 3) = nanos := Nat.div_mul_cancel
      (Nat.dvd_of_mod_eq_zero hmilli)
    rw [point_run (by decide) (by decide) hsmall hends, hvalue]
  | case3 _ _ hmicro =>
    have hsmall : nanos / 1000 < 1000000 := by omega
    have hvalue : nanos / 1000 * Nat.pow 10 (9 - 6) = nanos := Nat.div_mul_cancel
      (Nat.dvd_of_mod_eq_zero hmicro)
    rw [point_run (by decide) (by decide) hsmall hends, hvalue]
  | case4 =>
    have hvalue : nanos * Nat.pow 10 (9 - 9) = nanos := Nat.mul_one nanos
    rw [point_run (by decide) (by decide) h hends, hvalue]

theorem offset_run (rest : List Char) : offset.run ('Z' :: rest) = some (0, rest) := by
  unfold offset
  rw [run_bind_of (get_run _), if_neg]
  · rfl
  · simp

/-- A date that exists is read from its parts. -/
theorem date_run {d : Date} (hvalid : d.isValid = true)
    (hyear : firstYear ≤ d.year ∧ d.year ≤ lastYear) (rest : List Char) :
    date.run (yearChars d.year ++ '-' :: (padded 2 d.month ++ '-' :: (padded 2 d.day ++ rest))) =
      some (d, rest) := by
  have hdash : isBlank '-' = false := by decide
  obtain ⟨hm1, hm12, hd1, hdays⟩ : 1 ≤ d.month ∧ d.month ≤ 12 ∧ 1 ≤ d.day ∧
      d.day ≤ Date.daysInMonth d.year d.month := by
    simpa [Date.isValid] using hvalid
  have hd31 : d.day ≤ 31 := Nat.le_trans hdays (Date.daysInMonth_le d.year d.month)
  have hguard : (d.isValid && decide (firstYear ≤ d.year ∧ d.year ≤ lastYear)) = true := by
    rw [hvalid, decide_eq_true hyear, Bool.and_self]
  unfold date
  rw [run_bind_of (year_run d.year _), run_bind_of (blanks_run hdash _), run_bind_of (mark_run _ _),
    run_bind_of (twoDigits_run hm1 hm12 (by omega) _), run_bind_of (blanks_run hdash _),
    run_bind_of (mark_run _ _), run_bind_of (twoDigits_run hd1 hd31 (by omega) _),
    run_bind_of (run_guard_of hguard _)]
  rfl

theorem separator_run (rest : List Char) : separator.run ('T' :: rest) = some ((), rest) := rfl

/-- The year of a timestamp. -/
def calendarYear (t : Timestamp) : Int := (Date.ofDays (t.seconds / 86400)).year

/-- A written moment is read from its characters. -/
theorem timestamp_run {t : Timestamp} (hnanos : t.nanos < 1000000000)
    (hyear : firstYear ≤ t.calendarYear ∧ t.calendarYear ≤ lastYear) :
    timestamp.run t.chars = some (t, []) := by
  unfold calendarYear at hyear
  have hcolon : isBlank ':' = false := by decide
  have hvalid := Date.isValid_ofDays (t.seconds / 86400)
  have hdays := Date.toDays_ofDays (t.seconds / 86400)
  have htime : (t.seconds % 86400).toNat < 86400 := by omega
  have hsecond : (t.seconds % 86400).toNat % 60 ≠ 60 := by omega
  have hseconds : t.seconds / 86400 * 86400 +
      ((t.seconds % 86400).toNat / 3600 * 3600 + (t.seconds % 86400).toNat / 60 % 60 * 60 +
        (t.seconds % 86400).toNat % 60 : Nat) - 0 = t.seconds := by
    omega
  have hblanks : ∀ rest, blanks.run ('Z' :: rest) = some ((), 'Z' :: rest) :=
    blanks_run (by decide)
  unfold chars timestamp
  simp only [Nat.not_le.2 hnanos, ↓reduceIte, Nat.add_zero, List.append_assoc, List.cons_append]
  rw [run_bind_of (date_run hvalid hyear _), run_bind_of (separator_run _),
    run_bind_of (twoDigits_run (by omega) (by omega) (by omega) _),
    run_bind_of (blanks_run hcolon _), run_bind_of (mark_run _ _),
    run_bind_of (twoDigits_run (by omega) (by omega) (by omega) _),
    run_bind_of (blanks_run hcolon _), run_bind_of (mark_run _ _),
    run_bind_of (twoDigits_run (by omega) (by omega) (by omega) _),
    run_bind_of (fraction_run hnanos _), run_bind_of (hblanks _), run_bind_of (offset_run _)]
  simp only [hsecond, ↓reduceIte, hdays, hseconds, Nat.add_zero]
  rw [run_bind_of (run_guard_of hyear _)]
  rfl

/-- A moment is read from its written form. -/
theorem read?_render {t : Timestamp} (hnanos : t.nanos < 1000000000)
    (hyear : firstYear ≤ t.calendarYear ∧ t.calendarYear ≤ lastYear) :
    read? t.render = some t := by
  unfold read? render
  rw [String.toList_ofList, timestamp_run hnanos hyear]
  rfl

end Timestamp

/-- The instant falls in a year that a timestamp can have. -/
def Instant.Datable (t : Instant) : Prop :=
  Timestamp.firstYear ≤ (Timestamp.ofInstant t).calendarYear ∧
    (Timestamp.ofInstant t).calendarYear ≤ Timestamp.lastYear

instance (t : Instant) : Decidable t.Datable := inferInstanceAs (Decidable (_ ∧ _))

/-- What a clock shows is read from its written form. -/
theorem Timestamp.read?_render_ofInstant {t : Instant} (h : t.Datable) :
    read? (ofInstant t).render = some (ofInstant t) :=
  read?_render (by simp only [ofInstant]; omega) h

end SealedStore
