set_option autoImplicit false

/-!
# Splitting text

The parts of a text between its separators.  Putting the separators back between the parts gives
the text again.
-/

namespace SealedStore.Text

/-- The parts of a text before, between and after the separators; always at least one. -/
def split (separator : Char) : List Char → List (List Char)
  | [] => [[]]
  | c :: cs =>
    if c = separator then [] :: split separator cs
    else
      match split separator cs with
      | [] => [[c]]
      | part :: parts => (c :: part) :: parts

/-- The parts with a separator between every two of them. -/
def join (separator : Char) : List (List Char) → List Char
  | [] => []
  | [part] => part
  | part :: next :: parts => part ++ separator :: join separator (next :: parts)

end SealedStore.Text
