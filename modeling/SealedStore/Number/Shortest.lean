import SealedStore.Number.Binary64

set_option autoImplicit false

/-!
# Shortest decimals

The decimal with the fewest digits that reads back as a given binary64 number; of several such the
nearest to the number, and of two equally near the even one.
-/

namespace SealedStore

/-- A positive decimal: `digits` is written without trailing zeros and its first digit stands for
`10 ^ exponent`. -/
structure Decimal where
  /-- The significant digits, most significant first. -/
  digits : List Char
  /-- The power of ten of the first digit. -/
  exponent : Int
  deriving DecidableEq, Repr, Inhabited

namespace Binary64

/-- A positive magnitude with the interval of reals that round to it, all in units of
`2 ^ (-1076)`. -/
structure Rounding where
  /-- The magnitude itself. -/
  value : Nat
  /-- The distance to the lower end. -/
  below : Nat
  /-- The distance to the upper end. -/
  above : Nat
  /-- Whether the ends belong to the interval. -/
  closed : Bool
  deriving DecidableEq, Repr, Inhabited

/-- The reals that round to a number: half-way to both neighbours, and the ends are included when
the significand is even. -/
def rounding (x : Binary64) : Rounding where
  value := 4 * x.units
  below := if x.significand = 0x10000000000000 ∧ 0 < x.shift then 1 <<< x.shift else 2 <<< x.shift
  above := 2 <<< x.shift
  closed := x.significand % 2 = 0

/-- The power of ten of the first digit of a positive magnitude. -/
def decimalExponent (r : Rounding) : Int :=
  Int.ofNat (Nat.toDigits 10 ((r.value * Nat.pow 10 400) >>> 1076)).length - 401

/-- The point of the grid `10 ^ place` that reads back, if one does; `place` may be negative. -/
def Rounding.gridPoint? (r : Rounding) (place : Int) : Option Nat :=
  let unit := Nat.pow 10 place.toNat <<< 1076
  let scale := Nat.pow 10 (-place).toNat
  let inside (d : Nat) : Bool :=
    let point := d * unit
    let low := (r.value - r.below) * scale
    let high := (r.value + r.above) * scale
    if r.closed then low ≤ point ∧ point ≤ high else low < point ∧ point < high
  let floor := r.value * scale / unit
  match inside floor, inside (floor + 1) with
  | true, true =>
    let twice := 2 * (r.value * scale)
    let middle := (2 * floor + 1) * unit
    if twice < middle then some floor
    else if middle < twice then some (floor + 1)
    else some (floor + floor % 2)
  | true, false => some floor
  | false, true => some (floor + 1)
  | false, false => none

/-- The first grid with a point that reads back, from the coarsest of `count` further grids on. -/
def Rounding.search (r : Rounding) (place : Int) : (count : Nat) → Option (Nat × Int)
  | 0 => none
  | count + 1 =>
    match r.gridPoint? place with
    | some d => some (d, place)
    | none => r.search (place - 1) count

/-- The shortest decimal that reads back as the magnitude of `x`, `none` for zero. -/
def shortest? (x : Binary64) : Option Decimal :=
  if x.word = 0 then none
  else
    let r := x.rounding
    match r.search (decimalExponent r) 17 with
    | none => none
    | some (d, place) =>
      let digits := Nat.toDigits 10 d
      some
        { digits := (digits.reverse.dropWhile (· = '0')).reverse
          exponent := place + Int.ofNat digits.length - 1 }

end Binary64

end SealedStore
