import SealedStore.Text.Hex

set_option autoImplicit false

/-!
# Percent escapes

A percent sign and two hexadecimal digits stand for one byte.  A percent sign that no two digits
follow stands for itself.
-/

namespace SealedStore.Url.Percent

/-- The bytes that a text with escapes stands for. -/
def decode : List Char → Bytes
  | '%' :: h :: l :: rest =>
    match Hex.value? h, Hex.value? l with
    | some high, some low => UInt8.ofNat (high * 16 + low) :: decode rest
    | _, _ => 0x25 :: decode (h :: l :: rest)
  | c :: rest => String.utf8EncodeChar c ++ decode rest
  | [] => []

/-- The bytes that a part of a form stands for, in which a plus sign is a space. -/
def decodeForm (cs : List Char) : Bytes := decode (cs.map fun c => if c = '+' then ' ' else c)

end SealedStore.Url.Percent
