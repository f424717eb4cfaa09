import SealedStore.Json.Basic

set_option autoImplicit false

/-!
# Numerals

Numbers as JSON text writes them, and the numbers they stand for.  A numeral without fraction and
exponent that fits 64 bits is an integer.  Any other is a floating-point number: as many leading
digits as fit an unsigned 64-bit significand count, and the significand is scaled by a power of
ten.
-/

namespace SealedStore

/-- The parts of a written number. -/
structure Numeral where
  /-- Whether a minus sign leads. -/
  negative : Bool
  /-- The digits before the point. -/
  whole : List Nat
  /-- The digits behind the point, `none` without a point. -/
  fraction : Option (List Nat)
  /-- The sign and the digits of the exponent, `none` without one. -/
  exponent : Option (Bool × List Nat)
  deriving DecidableEq, Repr, Inhabited

namespace Numeral

/-- The digits that a text starts with, and the rest. -/
def digits (cs : List Char) : List Nat × List Char :=
  (cs.map Integer.digit? |>.takeWhile Option.isSome |>.map fun d => d.getD 0,
    cs.dropWhile fun c => (Integer.digit? c).isSome)

/-- A point and digits, if a point comes next; `none` when no digit follows the point. -/
def fraction? : List Char → Option (Option (List Nat) × List Char)
  | '.' :: rest =>
    match digits rest with
    | ([], _) => none
    | (ds, rest) => some (some ds, rest)
  | cs => some (none, cs)

/-- An exponent, if a letter E comes next; `none` when no digit follows. -/
def exponent? : List Char → Option (Option (Bool × List Nat) × List Char)
  | [] => some (none, [])
  | c :: rest =>
    if c = 'e' ∨ c = 'E' then
      let (negative, rest) := match rest with
        | '+' :: rest => (false, rest)
        | '-' :: rest => (true, rest)
        | rest => (false, rest)
      match digits rest with
      | ([], _) => none
      | (ds, rest) => some (some (negative, ds), rest)
    else some (none, c :: rest)

/-- Reads a whole text as a numeral: no superfluous zero leads, and nothing follows. -/
def read? (cs : List Char) : Option Numeral := do
  let (negative, cs) := match cs with
    | '-' :: rest => (true, rest)
    | cs => (false, cs)
  let (whole, cs) := digits cs
  guard (whole ≠ [] ∧ (whole.head? = some 0 → whole.length = 1))
  let (fraction, cs) ← fraction? cs
  let (exponent, cs) ← exponent? cs
  guard cs.isEmpty
  pure ⟨negative, whole, fraction, exponent⟩

/-- The greatest significand. -/
def greatest : Nat := 0xFFFFFFFFFFFFFFFF

/-- Takes up digits as long as the significand fits 64 bits; what is left over comes second. -/
def significandFrom (acc : Nat) : List Nat → Nat × List Nat
  | [] => (acc, [])
  | d :: rest =>
    if acc * 10 + d ≤ greatest then significandFrom (acc * 10 + d) rest else (acc, d :: rest)

/-- The greatest exponent that is taken at its value. -/
def greatestExponent : Nat := 0x7FFFFFFF

/-- The value of the digits of an exponent, `none` beyond the greatest one. -/
def exponentFrom? (acc : Nat) : List Nat → Option Nat
  | [] => some acc
  | d :: rest =>
    if acc * 10 + d ≤ greatestExponent then exponentFrom? (acc * 10 + d) rest else none

/-- Scales a significand by a power of ten: by one multiplication or division as far as `10 ^ 308`
goes, and by division in steps below that; `none` beyond the finite numbers. -/
def scale? (x : Binary64) (exponent : Int) : Option Binary64 :=
  if 0 ≤ exponent then
    if exponent ≤ 308 then (Binary64.powerOfTen? exponent.toNat).bind x.mul?
    else if x.word = 0 then some x
    else none
  else down x (-exponent).toNat 4
where
  /-- Divides by a power of ten.  Four steps take every significand to zero. -/
  down (x : Binary64) (power : Nat) : (steps : Nat) → Option Binary64
    | 0 => some x
    | steps + 1 =>
      if power ≤ 308 then (Binary64.powerOfTen? power).bind x.div?
      else if x.word = 0 then some x
      else do
        let ten ← Binary64.powerOfTen? 308
        let y ← x.div? ten
        down y (power - 308) steps

/-- The floating-point number of a numeral. -/
def toDouble? (n : Numeral) : Option Binary64 := do
  let (s, left) := significandFrom 0 n.whole
  let (s, shift) := match n.fraction with
    | none => (s, (left.length : Int))
    | some ds =>
      let (t, unused) := significandFrom s ds
      (t, (left.length : Int) - ((ds.length - unused.length : Nat) : Int))
  match n.exponent with
  | none => finish s shift
  | some (below, ds) =>
    match exponentFrom? 0 ds with
    | some e => finish s (if below then shift - e else shift + e)
    | none => if s ≠ 0 ∧ ¬ below then none else some (.zero n.negative)
where
  /-- The signed number of a scaled significand. -/
  finish (s : Nat) (exponent : Int) : Option Binary64 :=
    (scale? (.ofInt s) exponent).map (·.withSign n.negative)

/-- The number that a numeral stands for, `none` beyond the finite numbers.  Minus zero and
integers beyond 64 bits are floating-point numbers. -/
def toNumber? (n : Numeral) : Option Number :=
  match n.fraction, n.exponent, significandFrom 0 n.whole with
  | none, none, (s, []) =>
    let i : Int := if n.negative then -Int.ofNat s else s
    if n.negative ∧ s = 0 then some (.double (.zero true))
    else
      match Number.ofInt? i with
      | some integer => some integer
      | none => some (.double ((Binary64.ofInt s).withSign n.negative))
  | _, _, _ => n.toDouble?.map .double

end Numeral

end SealedStore
