import SealedStore.Text.Blank
import SealedStore.Text.Integer
import SealedStore.Time.Calendar
import SealedStore.Time.Clock

set_option autoImplicit false

/-!
# Timestamps

Instants in UTC as date and time of day, in the text form `YYYY-MM-DDTHH:MM:SSZ`.  Writing uses
the fewest of 0, 3, 6 or 9 fraction digits; reading is lenient about blanks, letter case and
offsets.
-/

namespace SealedStore

/-- A moment in UTC.  A leap second counts as the second before it with a thousand million
nanoseconds more. -/
structure Timestamp where
  /-- Seconds since the start of 1970. -/
  seconds : Int
  /-- Nanoseconds within the second. -/
  nanos : Nat
  deriving DecidableEq, Repr, Inhabited

namespace Timestamp

/-- The moment that a clock reading shows. -/
def ofInstant (t : Instant) : Timestamp :=
  ⟨t.nanos / 1000000000, (t.nanos % 1000000000).toNat⟩

/-- A number in decimal with at least `width` digits. -/
def padded (width n : Nat) : List Char :=
  let ds := Nat.toDigits 10 n
  List.replicate (width - ds.length) '0' ++ ds

/-- A year: four digits from 0 to 9999, otherwise a sign and at least four digits. -/
def yearChars (year : Int) : List Char :=
  if 0 ≤ year ∧ year ≤ 9999 then padded 4 year.toNat
  else (if year < 0 then '-' else '+') :: padded 4 year.natAbs

/-- The fraction of a second, with the fewest of 0, 3, 6 or 9 digits that are exact. -/
def fractionChars (nanos : Nat) : List Char :=
  if nanos = 0 then []
  else if nanos % 1000000 = 0 then '.' :: padded 3 (nanos / 1000000)
  else if nanos % 1000 = 0 then '.' :: padded 6 (nanos / 1000)
  else '.' :: padded 9 nanos

/-- The written form. -/
def chars (t : Timestamp) : List Char :=
  let date := Date.ofDays (t.seconds / 86400)
  let time := (t.seconds % 86400).toNat
  let leap := 1000000000 ≤ t.nanos
  let second := time % 60 + if leap then 1 else 0
  let nanos := if leap then t.nanos - 1000000000 else t.nanos
  yearChars date.year ++ '-' :: padded 2 date.month ++ '-' :: padded 2 date.day ++
    'T' :: padded 2 (time / 3600) ++ ':' :: padded 2 (time / 60 % 60) ++
    ':' :: padded 2 second ++ fractionChars nanos ++ ['Z']

/-- Writes a timestamp. -/
def render (t : Timestamp) : String := String.ofList t.chars

/-- The first year that a timestamp can fall in. -/
def firstYear : Int := -262143

/-- The last year that a timestamp can fall in. -/
def lastYear : Int := 262142

/-! ## Reading -/

/-- A reader takes a value off the front of a text. -/
abbrev Reader (α : Type) := StateT (List Char) Option α

/-- Passes over blanks. -/
def blanks : Reader Unit := modify dropBlanks

/-- Passes over one given character. -/
def mark (c : Char) : Reader Unit := fun cs =>
  match cs with
  | d :: rest => if c = d then some ((), rest) else none
  | [] => none

/-- One to `most` digits, as many as there are. -/
def digits (most : Nat) : Reader Nat := fun cs =>
  let ds := (cs.take most).takeWhile fun c => (Integer.digit? c).isSome
  (Integer.natural? ds).map fun n => (n, cs.drop ds.length)

/-- A number of at most two digits that lies between `low` and `high`; blanks may lead. -/
def twoDigits (low high : Nat) : Reader Nat := do
  blanks
  let n ← digits 2
  guard (low ≤ n ∧ n ≤ high)
  pure n

/-- A year: up to four digits, or a sign and any number of digits; blanks may lead. -/
def year : Reader Int := do
  blanks
  match ← get with
  | '-' :: rest => set rest; let n ← digits rest.length; pure (-Int.ofNat n)
  | '+' :: rest => set rest; let n ← digits rest.length; pure (Int.ofNat n)
  | _ => let n ← digits 4; pure (Int.ofNat n)

/-- A point and digits, of which nine count, or nothing; in nanoseconds. -/
def fraction : Reader Nat := do
  match ← get with
  | '.' :: rest =>
    let ds := rest.takeWhile fun c => (Integer.digit? c).isSome
    set (rest.drop ds.length)
    let counted := ds.take 9
    let n ← (Integer.natural? counted : Option Nat)
    pure (n * Nat.pow 10 (9 - counted.length))
  | _ => pure 0

/-- Two digits of which the first is at most `most`. -/
def pair (most : Nat) : Reader Nat := fun cs =>
  match cs with
  | a :: b :: rest => do
    let x ← Integer.digit? a
    let y ← Integer.digit? b
    if x ≤ most then some (x * 10 + y, rest) else none
  | _ => none

/-- An offset from UTC in seconds: `UTC` in any case, `Z` in any case, or a sign, hours and
minutes, with colons and blanks between them. -/
def offset : Reader Int := do
  let cs ← get
  if (cs.take 3).map Char.toUpper = ['U', 'T', 'C'] then
    set (cs.drop 3); pure 0
  else
    match cs with
    | 'Z' :: rest | 'z' :: rest => set rest; pure 0
    | '+' :: rest => set rest; hoursAndMinutes
    | '-' :: rest | '\u2212' :: rest => set rest; let s ← hoursAndMinutes; pure (-s)
    | _ => failure
where
  /-- Hours, separators and minutes; less than a day in all. -/
  hoursAndMinutes : Reader Int := do
    let hours ← pair 9
    modify fun cs => cs.dropWhile fun c => c = ':' || isBlank c
    let minutes ← pair 5
    guard (hours < 24)
    pure (Int.ofNat (hours * 3600 + minutes * 60))

/-- A date, `year-month-day`. -/
def date : Reader Date := do
  let y ← year
  blanks; mark '-'
  let m ← twoDigits 1 12
  blanks; mark '-'
  let d ← twoDigits 1 31
  let date : Date := ⟨y, m, d⟩
  guard (date.isValid && decide (firstYear ≤ y ∧ y ≤ lastYear))
  pure date

/-- What separates the date from the time. -/
def separator : Reader Unit := fun cs =>
  match cs with
  | 'T' :: rest | 't' :: rest | ' ' :: rest => some ((), rest)
  | _ => none

/-- A timestamp with its offset, converted to UTC. -/
def timestamp : Reader Timestamp := do
  let day ← date
  separator
  let hour ← twoDigits 0 23
  blanks; mark ':'
  let minute ← twoDigits 0 59
  blanks; mark ':'
  let second ← twoDigits 0 60
  let nanos ← fraction
  blanks
  let shift ← offset
  let leap := second = 60
  let ofDay : Nat := hour * 3600 + minute * 60 + if leap then 59 else second
  let seconds := day.toDays * 86400 + ofDay - shift
  let utcYear := (Date.ofDays (seconds / 86400)).year
  guard (firstYear ≤ utcYear ∧ utcYear ≤ lastYear)
  pure ⟨seconds, nanos + if leap then 1000000000 else 0⟩

/-- Reads a timestamp; blanks may follow it and nothing else. -/
def read? (s : String) : Option Timestamp :=
  match timestamp.run s.toList with
  | some (t, rest) => if (dropBlanks rest).isEmpty then some t else none
  | none => none

end Timestamp

end SealedStore
