import SealedStore.Cipher.Blake2b

set_option autoImplicit false

/-!
# Key derivation

Argon2id, version 1.3, with one lane, for keys of 32 bytes.  A memory of grids is filled pass by
pass; which earlier grid goes into the next one depends on a list of addresses at first and on the
contents of the memory from the middle of the first pass on.
-/

namespace SealedStore.Argon2

/-! ## Grids -/

/-- The unit of memory: eight squares of sixteen words, 1024 bytes. -/
abbrev Grid := Vector Square 8

namespace Grid

/-- The grid of 1024 bytes. -/
def ofBytes (bs : Bytes) : Grid :=
  .ofFn fun i => .ofFn fun j => .ofBytes ((bs.drop (128 * i + 16 * j)).take 16)

/-- The bytes of a grid. -/
def toBytes (g : Grid) : Bytes := g.toList.flatMap fun s => s.toList.flatMap Pair.toBytes

/-- A word of a grid. -/
def word (g : Grid) (n : Fin 128) : UInt64 :=
  let pair := (g.get ⟨n / 16, by omega⟩).get ⟨n % 16 / 2, by omega⟩
  if n.val % 2 = 0 then pair.low else pair.high

/-- The exclusive or of two grids. -/
def xor (g h : Grid) : Grid := g.zipWith (fun s t => s.zipWith Pair.xor t) h

/-- The grid with rows for columns. -/
def transpose (g : Grid) : Grid := .ofFn fun i => .ofFn fun j => (g.get j).get i

/-- The grid of zeros. -/
def zero : Grid := .replicate 8 (.replicate 8 ⟨0, 0⟩)

end Grid

/-! ## Compression -/

/-- The sum of two words and twice the product of their lower halves. -/
@[inline] def plus (a b : UInt64) : UInt64 :=
  a + b + 2 * ((a &&& 0xFFFFFFFF) * (b &&& 0xFFFFFFFF))

/-- Mixes four words. -/
@[inline] def mix (a b c d : UInt64) : Quad :=
  let a := plus a b
  let d := turnRight (d ^^^ a) 32
  let c := plus c d
  let b := turnRight (b ^^^ c) 24
  let a := plus a b
  let d := turnRight (d ^^^ a) 16
  let c := plus c d
  let b := turnRight (b ^^^ c) 63
  ⟨a, b, c, d⟩

/-- Mixes a square. -/
def permute (s : Square) : Square := s.round fun _ a b c d => mix a b c d

/-- Makes one grid of two: their exclusive or is mixed by rows and by columns and added again. -/
def compress (g h : Grid) : Grid :=
  let sum := g.xor h
  let byRows : Grid := sum.map permute
  let byColumns : Grid := byRows.transpose.map permute
  byColumns.transpose.xor sum

/-! ## Digests of any length -/

/-- The first halves of a chain of digests, so many more, and a last digest in full. -/
def chain (digest : Bytes) (last : Nat) : (more : Nat) → Bytes
  | 0 => digest.take 32 ++ Blake2b.digest last digest
  | more + 1 => digest.take 32 ++ chain (Blake2b.digest 64 digest) last more

/-- A digest of any length. -/
def longDigest (length : Nat) (message : Bytes) : Bytes :=
  let input := Octets.little 4 length ++ message
  if length ≤ 64 then Blake2b.digest length input
  else
    let halves := (length + 31) / 32 - 2
    chain (Blake2b.digest 64 input) (length - 32 * halves) (halves - 1)

/-! ## Filling the memory -/

/-- How much work a derivation is. -/
structure Cost where
  /-- The size of the memory in units of 1024 bytes. -/
  memory : Nat
  /-- How often the memory is gone through. -/
  passes : Nat
  /-- The memory has two grids for each quarter. -/
  le_memory : 8 ≤ memory
  /-- There is a first pass. -/
  passes_pos : 0 < passes
  deriving DecidableEq, Repr

namespace Cost

/-- The grids of a quarter of the memory. -/
def quarter (c : Cost) : Nat := c.memory / 4

/-- The grids in use: four equal quarters. -/
def grids (c : Cost) : Nat := 4 * c.quarter

end Cost

/-- A memory that is being filled. -/
structure Filling where
  /-- The grids. -/
  memory : Array Grid
  /-- The addresses for the next grids, as far as they do not depend on the memory. -/
  addresses : Grid

/-- The position of a grid in the filling order. -/
structure Position where
  /-- The pass. -/
  pass : Nat
  /-- The quarter of the memory. -/
  quarter : Nat
  /-- The place in the quarter. -/
  index : Nat
  deriving DecidableEq, Repr, Inhabited

namespace Position

/-- Whether addresses come from a list of their own. -/
def isListed (p : Position) : Bool := p.pass = 0 && p.quarter < 2

/-- Whether the grid comes from the initial digest. -/
def isInitial (p : Position) : Bool := p.pass = 0 && p.quarter = 0 && p.index < 2

/-- A list of 128 addresses. -/
def addresses (p : Position) (c : Cost) : Grid :=
  let input := [p.pass, 0, p.quarter, c.grids, c.passes, 2, p.index / 128 + 1]
  compress .zero (compress .zero (.ofBytes (input.flatMap (Octets.little 8))))

/-- How many grids the next one may go back to. -/
def reach (p : Position) (c : Cost) : Nat :=
  (if p.pass = 0 then p.quarter else 3) * c.quarter + p.index - 1

/-- The first grid that the next one may go back to: in later passes the oldest quarter. -/
def origin (p : Position) (c : Cost) : Nat :=
  if p.pass = 0 then 0 else (p.quarter + 1) * c.quarter

/-- The grid that a random word points to; near grids are more likely. -/
def reference (p : Position) (c : Cost) (random : UInt64) : Nat :=
  let low := random.toNat % 0x100000000
  let back := p.reach c * (low * low / 0x100000000) / 0x100000000
  (p.origin c + (p.reach c - 1 - back)) % c.grids

end Position

/-- Fills the grid at a position. -/
def fillAt (c : Cost) (f : Filling) (p : Position) : Filling :=
  let ⟨memory, addresses⟩ := f
  let addresses :=
    if p.isListed && p.index % 128 = 0 then p.addresses c else addresses
  if p.isInitial then ⟨memory, addresses⟩
  else
    let here := p.quarter * c.quarter + p.index
    let last := memory.getD ((here + c.grids - 1) % c.grids) .zero
    let random :=
      if p.isListed then addresses.word ⟨p.index % 128, by omega⟩ else last.word 0
    let next := compress last (memory.getD (p.reference c random) .zero)
    let next := if p.pass = 0 then next else next.xor (memory.getD here .zero)
    ⟨memory.setIfInBounds here next, addresses⟩

/-- The positions of a pass, in order. -/
def positions (c : Cost) (pass : Nat) : List Position :=
  (List.range 4).flatMap fun quarter =>
    (List.range c.quarter).map fun index => ⟨pass, quarter, index⟩

/-- Fills the memory in all passes. -/
def fill (c : Cost) (f : Filling) : Filling :=
  (List.range c.passes).foldl (fun f pass => (positions c pass).foldl (fillAt c) f) f

/-! ## Keys -/

/-- The length of a key in bytes. -/
def keyLength : Nat := 32

/-- A text behind its length. -/
def counted (bs : Bytes) : Bytes := Octets.little 4 bs.length ++ bs

/-- The digest of all that goes into a key. -/
def initialDigest (c : Cost) (secret salt : Bytes) : Bytes :=
  Blake2b.digest 64 <|
    [1, keyLength, c.memory, c.passes, 0x13, 2].flatMap (Octets.little 4) ++
      counted secret ++ counted salt ++ counted [] ++ counted []

/-- The key of a secret and a salt. -/
def derive (c : Cost) (secret salt : Bytes) : Bytes :=
  let start := initialDigest c secret salt
  let initial (i : Nat) : Grid :=
    .ofBytes (longDigest 1024 (start ++ Octets.little 4 i ++ Octets.little 4 0))
  let memory := ((Array.replicate c.grids Grid.zero).setIfInBounds 0 (initial 0)).setIfInBounds 1
    (initial 1)
  let filled := fill c ⟨memory, .zero⟩
  longDigest keyLength (filled.memory.getD (c.grids - 1) .zero).toBytes

end SealedStore.Argon2
