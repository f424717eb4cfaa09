import SealedStore.Text.Split

set_option autoImplicit false

/-!
# Paths

The path of a URL, with its dots resolved: a segment of one dot is passed over, and one of two dots
takes back the segment before it.
-/

namespace SealedStore.Url.Path

/-- A segment with the escapes of its dots undone. -/
def dots : List Char → List Char
  | '%' :: '2' :: c :: rest =>
    if c = 'e' ∨ c = 'E' then '.' :: dots rest else '%' :: dots ('2' :: c :: rest)
  | c :: rest => c :: dots rest
  | [] => []

/-- Whether a segment stands for the place where it is. -/
def isHere (segment : List Char) : Bool := dots segment = ['.']

/-- Whether a segment takes back the one before it. -/
def isUp (segment : List Char) : Bool := dots segment = ['.', '.']

/-- Whether a segment begins with a drive: a letter and a colon or a bar. -/
def isDrive : List Char → Bool
  | c :: mark :: rest => c.isAlpha && (mark = ':' || mark = '|') && (rest.head?.all (· = '\\'))
  | _ => false

/-- Goes through one segment, the segments so far being given last first.  A drive is never taken
back. -/
def enter (segments : List (List Char)) (segment : List Char) : List (List Char) :=
  if isUp segment then
    match segments with
    | last :: before => if isDrive last then segments else before
    | [] => []
  else if isHere segment then segments
  else segment :: segments

/-- The segments that are left.  A path that ends in dots ends at the place that they lead to. -/
def resolve (segments : List (List Char)) : List (List Char) :=
  let entered := segments.foldl enter []
  (if segments.getLast?.any fun s => isUp s || isHere s then [] :: entered else entered).reverse

/-- The path with its dots resolved; one that is not empty begins with a slash. -/
def read : List Char → List Char
  | [] => []
  | '/' :: cs | cs => '/' :: Text.join '/' (resolve (Text.split '/' cs))

end SealedStore.Url.Path
