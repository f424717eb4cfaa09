set_option autoImplicit false

/-!
# Binary64

Finite binary floating-point numbers with 53 significant bits, held by sign and encoded magnitude.
All arithmetic is exact on natural numbers and rounded once, to the nearest number and to the even
one of two equally near; a result too large to be finite is `none`.
-/

namespace SealedStore

/-- A finite binary64 number.  `word` is the encoding without the sign bit, so larger words are
larger magnitudes. -/
structure Binary64 where
  /-- Whether the sign bit is set; zero has a sign too. -/
  negative : Bool
  /-- Exponent field and fraction. -/
  word : Nat
  /-- The exponent field is not the one of infinities. -/
  finite : word < 0x7FF0000000000000
  deriving DecidableEq, Repr

namespace Binary64

/-- Zero with the given sign. -/
def zero (negative : Bool) : Binary64 := ⟨negative, 0, by decide⟩

instance : Inhabited Binary64 := ⟨zero false⟩

/-- The magnitude is `significand * 2 ^ (shift - 1074)`. -/
def significand (x : Binary64) : Nat :=
  if x.word < 0x10000000000000 then x.word else 0x10000000000000 + x.word % 0x10000000000000

/-- How far the significand is shifted above the least positive magnitude. -/
def shift (x : Binary64) : Nat := x.word >>> 52 - 1

/-- The magnitude in units of the least positive one, `2 ^ (-1074)`. -/
def units (x : Binary64) : Nat := x.significand <<< x.shift

/-- The quotient rounded to the nearest integer, ties to the even one. -/
def roundDiv (num den : Nat) : Nat :=
  let q := num / den
  let twice := 2 * (num % den)
  if twice < den then q
  else if den < twice then q + 1
  else q + q % 2

/-- The number nearest to `num / den`, `none` when that is beyond the finite numbers. -/
def ofRatio? (negative : Bool) (num den : Nat) : Option Binary64 :=
  let scaled := num <<< 1074
  let shift := Nat.log2 (scaled / den) + 1 - 53
  let word := shift <<< 52 + roundDiv scaled (den <<< shift)
  if h : word < 0x7FF0000000000000 then some ⟨negative, word, h⟩ else none

/-- The number nearest to an integer; integers of 64 bits are always within reach. -/
def ofInt (i : Int) : Binary64 :=
  (ofRatio? (decide (i < 0)) i.natAbs 1).getD (zero false)

/-- The rounded product. -/
def mul? (x y : Binary64) : Option Binary64 :=
  ofRatio? (x.negative != y.negative) (x.units * y.units) (1 <<< 2148)

/-- The rounded quotient; the divisor is not zero. -/
def div? (x y : Binary64) : Option Binary64 :=
  ofRatio? (x.negative != y.negative) x.units y.units

/-- The number nearest to a power of ten. -/
def powerOfTen? (k : Nat) : Option Binary64 := ofRatio? false (Nat.pow 10 k) 1

/-- The number with its sign set. -/
def withSign (x : Binary64) (negative : Bool) : Binary64 := { x with negative }

end Binary64

end SealedStore
