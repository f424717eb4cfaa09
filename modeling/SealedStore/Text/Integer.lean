set_option autoImplicit false

/-!
# Integers in text

Decimal integers as counters and settings hold them: an optional sign and ASCII digits, nothing
else, and a range that the value must keep when it is read.
-/

namespace SealedStore.Integer

/-- The value of an ASCII digit. -/
def digit? (c : Char) : Option Nat :=
  if '0' ≤ c ∧ c ≤ '9' then some (c.toNat - '0'.toNat) else none

/-- The value of a run of digits that goes on from `acc`. -/
def digitsFrom? (acc : Nat) : List Char → Option Nat
  | [] => some acc
  | c :: rest => (digit? c).bind fun d => digitsFrom? (acc * 10 + d) rest

/-- The value of a non-empty run of digits. -/
def natural? : List Char → Option Nat
  | [] => none
  | cs => digitsFrom? 0 cs

/-- Reads an unsigned integer up to `high`; a single plus sign may lead. -/
def unsigned? (high : Nat) (s : String) : Option Nat :=
  let body := match s.toList with
    | '+' :: rest => rest
    | cs => cs
  (natural? body).filter (· ≤ high)

/-- Reads a signed integer between `low` and `high`; a single sign may lead. -/
def signed? (low high : Int) (s : String) : Option Int :=
  let value : Option Int := match s.toList with
    | '+' :: rest => (natural? rest).map Int.ofNat
    | '-' :: rest => (natural? rest).map fun n => -Int.ofNat n
    | cs => (natural? cs).map Int.ofNat
  value.filter fun i => decide (low ≤ i ∧ i ≤ high)

/-- An integer in decimal, with a minus sign below zero. -/
def chars (i : Int) : List Char :=
  if i < 0 then '-' :: Nat.toDigits 10 i.natAbs else Nat.toDigits 10 i.natAbs

/-- Writes an integer in decimal. -/
def render (i : Int) : String := String.ofList (chars i)

/-- The least signed 64-bit integer. -/
def least64 : Int := -0x8000000000000000

/-- The greatest signed 64-bit integer. -/
def greatest64 : Int := 0x7FFFFFFFFFFFFFFF

/-- The greatest unsigned 64-bit integer. -/
def greatestUnsigned64 : Nat := 0xFFFFFFFFFFFFFFFF

end SealedStore.Integer
