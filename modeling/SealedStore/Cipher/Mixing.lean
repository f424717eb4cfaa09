import SealedStore.Number.Octets

set_option autoImplicit false

/-!
# Mixing words

Sixteen 64-bit words seen as a square of four rows, and the round that mixes its columns and then
its diagonals.  The hash function and the key derivation differ in how they mix four words.
-/

namespace SealedStore

/-- Two words that lie next to each other. -/
structure Pair where
  /-- The first word. -/
  low : UInt64
  /-- The second word. -/
  high : UInt64
  deriving DecidableEq, Repr, Inhabited

namespace Pair

/-- The exclusive or of the words. -/
def xor (p q : Pair) : Pair := ⟨p.low ^^^ q.low, p.high ^^^ q.high⟩

/-- The sixteen bytes of a pair, each word with its lowest byte first. -/
def toBytes (p : Pair) : Bytes :=
  Octets.little 8 p.low.toNat ++ Octets.little 8 p.high.toNat

/-- The pair of sixteen bytes. -/
def ofBytes (bs : Bytes) : Pair :=
  ⟨.ofNat (Octets.ofLittle (bs.take 8)), .ofNat (Octets.ofLittle ((bs.drop 8).take 8))⟩

end Pair

/-- Four words that are mixed. -/
structure Quad where
  /-- The first word. -/
  a : UInt64
  /-- The second word. -/
  b : UInt64
  /-- The third word. -/
  c : UInt64
  /-- The last word. -/
  d : UInt64
  deriving DecidableEq, Repr, Inhabited

/-- A word turned right by some bits. -/
@[inline] def turnRight (w n : UInt64) : UInt64 := (w >>> n) ||| (w <<< (64 - n))

/-- Sixteen words. -/
abbrev Square := Vector Pair 8

/-- Mixes the four columns of a square and then its four diagonals.  The mixing is told which of the
eight it is. -/
@[inline] def Square.round (mix : (place : Fin 8) → (a b c d : UInt64) → Quad) (s : Square) :
    Square :=
  let p := s.get 0
  let q := s.get 1
  let r := s.get 2
  let t := s.get 3
  let u := s.get 4
  let v := s.get 5
  let w := s.get 6
  let x := s.get 7
  let column₀ := mix 0 p.low r.low u.low w.low
  let column₁ := mix 1 p.high r.high u.high w.high
  let column₂ := mix 2 q.low t.low v.low x.low
  let column₃ := mix 3 q.high t.high v.high x.high
  let diagonal₀ := mix 4 column₀.a column₁.b column₂.c column₃.d
  let diagonal₁ := mix 5 column₁.a column₂.b column₃.c column₀.d
  let diagonal₂ := mix 6 column₂.a column₃.b column₀.c column₁.d
  let diagonal₃ := mix 7 column₃.a column₀.b column₁.c column₂.d
  ⟨#[⟨diagonal₀.a, diagonal₁.a⟩, ⟨diagonal₂.a, diagonal₃.a⟩,
      ⟨diagonal₃.b, diagonal₀.b⟩, ⟨diagonal₁.b, diagonal₂.b⟩,
      ⟨diagonal₂.c, diagonal₃.c⟩, ⟨diagonal₀.c, diagonal₁.c⟩,
      ⟨diagonal₁.d, diagonal₂.d⟩, ⟨diagonal₃.d, diagonal₀.d⟩], rfl⟩

end SealedStore
