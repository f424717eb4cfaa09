import SealedStore.Json.Basic
import SealedStore.Number.Layout
import SealedStore.Text.Hex

set_option autoImplicit false

/-!
# Writing JSON

Compact text without blanks.  Quotes, backslashes and control characters are escaped and nothing
else; a floating-point number is written with the fewest digits that read back.
-/

namespace SealedStore

/-- Floating-point numbers are positional from `0.00001` on and below `1e+16`. -/
def Number.layout : Decimal.Layout := ⟨-5, 16, ['+']⟩

namespace Number

/-- A floating-point number; zero has one digit on either side of the point. -/
def doubleChars (x : Binary64) : List Char :=
  let magnitude := match x.shortest? with
    | some d => d.chars layout
    | none => ['0', '.', '0']
  if x.negative then '-' :: magnitude else magnitude

/-- The written form of a number. -/
def chars : Number → List Char
  | .integer i _ => Integer.chars i
  | .double x => doubleChars x

end Number

namespace Json

/-- A character as it stands inside quotes. -/
def escapedChar (c : Char) : List Char :=
  if c = '"' then ['\\', '"']
  else if c = '\\' then ['\\', '\\']
  else if c = '\x08' then ['\\', 'b']
  else if c = '\x0C' then ['\\', 'f']
  else if c = '\n' then ['\\', 'n']
  else if c = '\r' then ['\\', 'r']
  else if c = '\t' then ['\\', 't']
  else if c.toNat < 0x20 then
    ['\\', 'u', '0', '0', Hex.digit (c.toNat / 16), Hex.digit (c.toNat % 16)]
  else [c]

/-- A text in quotes. -/
def quoted (s : String) : List Char := '"' :: (s.toList.flatMap escapedChar ++ ['"'])

mutual

/-- The written form of a value. -/
def chars : Json → List Char
  | .null => ['n', 'u', 'l', 'l']
  | .bool true => ['t', 'r', 'u', 'e']
  | .bool false => ['f', 'a', 'l', 's', 'e']
  | .number n => n.chars
  | .text s => quoted s
  | .array items => '[' :: itemsChars items
  | .object members => '{' :: membersChars members
termination_by structural j => j

/-- The items of an array and its closing bracket. -/
def itemsChars : List Json → List Char
  | [] => [']']
  | j :: rest => j.chars ++ moreItemsChars rest
termination_by structural js => js

/-- The items after the first one, each behind a comma, and the closing bracket. -/
def moreItemsChars : List Json → List Char
  | [] => [']']
  | j :: rest => ',' :: (j.chars ++ moreItemsChars rest)
termination_by structural js => js

/-- The members of an object and its closing brace. -/
def membersChars : List (String × Json) → List Char
  | [] => ['}']
  | m :: rest => memberChars m ++ moreMembersChars rest
termination_by structural ms => ms

/-- The members after the first one, each behind a comma, and the closing brace. -/
def moreMembersChars : List (String × Json) → List Char
  | [] => ['}']
  | m :: rest => ',' :: (memberChars m ++ moreMembersChars rest)
termination_by structural ms => ms

/-- A name, a colon and a value. -/
def memberChars : String × Json → List Char
  | (name, j) => quoted name ++ ':' :: j.chars
termination_by structural m => m

end

/-- Writes a value as text. -/
def render (j : Json) : String := String.ofList j.chars

/-- Writes a value as bytes. -/
def toBytes (j : Json) : Bytes := Utf8.encode j.render

end Json

end SealedStore
