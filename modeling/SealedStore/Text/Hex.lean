import SealedStore.Text.Utf8

set_option autoImplicit false

/-!
# Hexadecimal text

Bytes as pairs of hexadecimal digits: written in lower case, read in either case.
-/

namespace SealedStore.Hex

/-- The sixteen digits in order. -/
def digits : List Char := "0123456789abcdef".toList

/-- The digit of a number below sixteen. -/
def digit (n : Nat) : Char := digits.getD n '0'

/-- The value of a hexadecimal digit in either case. -/
def value? (c : Char) : Option Nat :=
  if '0' ≤ c ∧ c ≤ '9' then some (c.toNat - '0'.toNat)
  else if 'a' ≤ c ∧ c ≤ 'f' then some (c.toNat - 'a'.toNat + 10)
  else if 'A' ≤ c ∧ c ≤ 'F' then some (c.toNat - 'A'.toNat + 10)
  else none

/-- The two digits of each byte in turn. -/
def encodeChars : Bytes → List Char
  | [] => []
  | b :: rest => digit (b.toNat / 16) :: digit (b.toNat % 16) :: encodeChars rest

/-- Writes bytes as lower-case hexadecimal text. -/
def encode (bs : Bytes) : String := String.ofList (encodeChars bs)

/-- Why a text is no hexadecimal text. -/
inductive Fault
  /-- The text has an odd number of bytes. -/
  | oddLength
  /-- The byte at `index` is no digit; it is shown as the character of that code. -/
  | notDigit (c : Char) (index : Nat)
  deriving DecidableEq, Repr, Inhabited

/-- A character below U+0100 as it stands between single quotes: quotes and backslashes are
escaped, and so is what does not print. -/
def quotedChar (c : Char) : String :=
  if c = '\x00' then "\\0"
  else if c = '\t' then "\\t"
  else if c = '\n' then "\\n"
  else if c = '\r' then "\\r"
  else if c = '\'' then "\\'"
  else if c = '\\' then "\\\\"
  else
    let n := c.toNat
    if n < 0x20 ∨ (0x7F ≤ n ∧ n ≤ 0xA0) ∨ n = 0xAD then
      "\\u\x7b" ++ String.ofList (Nat.toDigits 16 n) ++ "\x7d"
    else c.toString

/-- The wording of a fault. -/
def Fault.message : Fault → String
  | .oddLength => "Odd number of digits"
  | .notDigit c index =>
    "Invalid character '" ++ quotedChar c ++ "' at position " ++ toString index

/-- Reads pairs of digits; `index` is the position of the first one. -/
def decodeBytes (index : Nat) : Bytes → Except Fault Bytes
  | high :: low :: rest => do
    let h ← digitAt index high
    let l ← digitAt (index + 1) low
    let tail ← decodeBytes (index + 2) rest
    pure (UInt8.ofNat (h * 16 + l) :: tail)
  | _ => pure []
where
  /-- The value of the digit at a position. -/
  digitAt (index : Nat) (b : UInt8) : Except Fault Nat :=
    let c := Char.ofNat b.toNat
    match value? c with
    | some n => .ok n
    | none => .error (.notDigit c index)

/-- Reads hexadecimal text; its length is judged before its digits. -/
def decode (s : String) : Except Fault Bytes :=
  let bs := Utf8.encode s
  if bs.length % 2 = 1 then .error .oddLength else decodeBytes 0 bs

end SealedStore.Hex
