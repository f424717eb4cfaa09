import SealedStore.Number.Shortest

set_option autoImplicit false

/-!
# Layout of decimals

How a decimal is set out: positionally with a point, or with an exponent.
-/

namespace SealedStore.Decimal

/-- The decisions of a format. -/
structure Layout where
  /-- The least exponent of a first digit that is written positionally. -/
  positionalFrom : Int
  /-- The exponent of a first digit from which on an exponent is written. -/
  positionalBelow : Int
  /-- What stands before an exponent that is not negative. -/
  exponentSign : List Char
  deriving DecidableEq, Repr, Inhabited

/-- Digits with a point, and at least one digit on either side of it. -/
def positional (d : Decimal) : List Char :=
  if 0 ≤ d.exponent then
    let whole := d.exponent.toNat + 1
    let rest := d.digits.drop whole
    d.digits.take whole ++ List.replicate (whole - d.digits.length) '0' ++
      '.' :: (if rest.isEmpty then ['0'] else rest)
  else '0' :: '.' :: (List.replicate (-d.exponent - 1).toNat '0' ++ d.digits)

/-- One digit, the others behind a point, and an exponent. -/
def scientific (l : Layout) (d : Decimal) : List Char :=
  let rest := d.digits.drop 1
  let sign := if d.exponent < 0 then ['-'] else l.exponentSign
  d.digits.take 1 ++ (if rest.isEmpty then [] else '.' :: rest) ++
    'e' :: (sign ++ Nat.toDigits 10 d.exponent.natAbs)

/-- A decimal in a layout. -/
def chars (l : Layout) (d : Decimal) : List Char :=
  if l.positionalFrom ≤ d.exponent ∧ d.exponent < l.positionalBelow then d.positional
  else d.scientific l

end SealedStore.Decimal
