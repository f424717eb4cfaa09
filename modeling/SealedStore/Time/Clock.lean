set_option autoImplicit false

/-!
# Clock readings

Instants as the wall clock shows them and spans of time.  Deadlines and ages are counted in whole
milliseconds since 1970, held in 64 bits.
-/

namespace SealedStore

/-- A span of time. -/
structure Duration where
  /-- Its length in nanoseconds. -/
  nanos : Nat
  deriving DecidableEq, Repr, Inhabited

namespace Duration

/-- A span of whole seconds. -/
def ofSeconds (s : Nat) : Duration := ⟨s * 1000000000⟩

/-- A span of whole milliseconds. -/
def ofMillis (ms : Nat) : Duration := ⟨ms * 1000000⟩

/-- The whole milliseconds of a span. -/
def millis (d : Duration) : Nat := d.nanos / 1000000

/-- The whole milliseconds of a span, as far as 64 bits hold them: higher bits are lost. -/
def millis64 (d : Duration) : Nat := d.millis % 0x10000000000000000

/-- The milliseconds until a timer has counted a span: a part of one counts as a whole. -/
def ticks (d : Duration) : Nat := (d.nanos + 999999) / 1000000

/-- The whole seconds of a span. -/
def seconds (d : Duration) : Nat := d.nanos / 1000000000

@[simp] theorem millis_ofMillis (ms : Nat) : (ofMillis ms).millis = ms := by
  simp [ofMillis, millis]

end Duration

/-- A reading of the wall clock. -/
structure Instant where
  /-- Nanoseconds since the start of 1970, UTC. -/
  nanos : Int
  deriving DecidableEq, Repr, Inhabited

namespace Instant

/-- The instant a number of milliseconds, and some nanoseconds more, after the start of 1970. -/
def ofMillis (ms : Int) (ns : Nat) : Instant := ⟨ms * 1000000 + ns⟩

/-- The whole milliseconds since the start of 1970; a clock before that reads zero. -/
def unixMillis (t : Instant) : Nat := (t.nanos / 1000000).toNat

/-- The instant a span later. -/
def later (t : Instant) (d : Duration) : Instant := ⟨t.nanos + d.nanos⟩

end Instant

/-- The last millisecond that a 64-bit clock can show. -/
def endOfTime : Nat := 0xFFFFFFFFFFFFFFFF

end SealedStore
