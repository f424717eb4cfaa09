import SealedStore.Url.Host
import SealedStore.Url.Path
import SealedStore.Url.Percent

set_option autoImplicit false

/-!
# URLs

A URL by its parts: scheme, user and password, host, port, path and query.  The schemes of the web
(`http` and the like) and `file` have rules of their own and are not read here.  Blanks and control
characters around a URL do not count, and neither do tabs and line ends anywhere in it.
-/

namespace SealedStore

/-- A URL.  Its texts still have their escapes. -/
structure Url where
  /-- The scheme, in lower case. -/
  scheme : String
  /-- The user, empty if there is none. -/
  user : String := ""
  /-- The password, if there is one. -/
  password : Option String := none
  /-- The host, if there is one. -/
  host : Option Url.Host := none
  /-- The port, if one is given. -/
  port : Option Nat := none
  /-- The path, with its dots resolved. -/
  path : String
  /-- What stands between the question mark and the number sign. -/
  query : Option String := none
  deriving DecidableEq, Repr, Inhabited

namespace Url

/-! ## Parts -/

/-- A text without blanks and control characters at its ends, and without tabs and line ends. -/
def clean (cs : List Char) : List Char :=
  let outer (c : Char) : Bool := c ≤ ' '
  ((cs.dropWhile outer).reverse.dropWhile outer).reverse.filter fun c =>
    c ≠ '\t' ∧ c ≠ '\n' ∧ c ≠ '\r'

/-- A character of a scheme. -/
def isSchemeChar (c : Char) : Bool := c.isAlphanum || c = '+' || c = '-' || c = '.'

/-- The schemes that have rules of their own. -/
def special : List String := ["http", "https", "ws", "wss", "ftp", "file"]

/-- The scheme, which ends with a colon, and what comes after it. -/
def scheme? (cs : List Char) : Option (String × List Char) :=
  let name := cs.takeWhile isSchemeChar
  match cs.dropWhile isSchemeChar with
  | ':' :: rest =>
    let scheme := String.ofList (name.map Char.toLower)
    if name.head?.any Char.isAlpha && !special.contains scheme then some (scheme, rest) else none
  | _ => none

/-- Whether a character ends the part that names the host. -/
def endsAuthority (c : Char) : Bool := c = '/' || c = '?' || c = '#'

/-- Whether a character ends the path. -/
def endsPath (c : Char) : Bool := c = '?' || c = '#'

/-- The query that follows a path. -/
def query? (cs : List Char) : Option String :=
  match cs.dropWhile (!endsPath ·) with
  | '?' :: query => some (String.ofList (query.takeWhile (· ≠ '#')))
  | _ => none

/-- What stands before the last at sign, if there is one, and what stands after it. -/
def credentials (cs : List Char) : Option (List Char) × List Char :=
  let host := (cs.reverse.takeWhile (· ≠ '@')).reverse
  if host.length = cs.length then (none, cs)
  else (some (cs.take (cs.length - host.length - 1)), host)

/-- The port, if there is one, and what comes after it: nothing, or a path that a backslash begins.
-/
def port? : List Char → Option (Option Nat × List Char)
  | ':' :: cs =>
    let digits := cs.takeWhile Char.isDigit
    let rest := cs.dropWhile Char.isDigit
    if rest.head?.any (· ≠ '\\') then none
    else if digits = [] then some (none, rest)
    else ((Integer.natural? digits).filter (· < 0x10000)).map fun n => (some n, rest)
  | _ => some (none, [])

/-! ## Reading -/

/-- Reads what comes after two slashes.  Without a host there can be no port, and no user but the
empty one. -/
def withAuthority? (scheme : String) (cs : List Char) : Option Url := do
  let (login, place) := credentials (cs.takeWhile (!endsAuthority ·))
  let (name, port) := Host.span false place
  let host ←
    if name ≠ [] then (Host.read? name).map some
    else if port = [] ∧ (login = none ∨ login = some [':']) then some none
    else none
  let (port, rest) ← port? port
  let rest := rest ++ cs.dropWhile (!endsAuthority ·)
  let login := login.getD []
  return {
    scheme, host, port
    user := String.ofList (login.takeWhile (· ≠ ':'))
    password := ((login.dropWhile (· ≠ ':')).tail?.filter (· ≠ [])).map String.ofList
    path := String.ofList (Path.read (rest.takeWhile (!endsPath ·)))
    query := query? rest }

/-- Reads what comes after the scheme. -/
def afterScheme? (scheme : String) : List Char → Option Url
  | '/' :: '/' :: cs => withAuthority? scheme cs
  | cs =>
    let path := cs.takeWhile (!endsPath ·)
    let path := if path.head? = some '/' then Path.read path else path
    some { scheme, path := String.ofList path, query := query? cs }

/-- Reads a URL. -/
def read? (s : String) : Option Url :=
  (scheme? (clean s.toList)).bind fun (scheme, rest) => afterScheme? scheme rest

/-! ## Queries -/

/-- A name and a value, with an equals sign between them; a part without one is a name alone. -/
def pair (cs : List Char) : String × String :=
  (Utf8.decodeLossy (Percent.decodeForm (cs.takeWhile (· ≠ '='))),
    Utf8.decodeLossy (Percent.decodeForm ((cs.dropWhile (· ≠ '=')).drop 1)))

/-- The names and values of the query. -/
def pairs (u : Url) : List (String × String) :=
  ((Text.split '&' (u.query.getD "").toList).filter (· ≠ [])).map pair

/-- The value of a name; of several the last one counts. -/
def value? (u : Url) (name : String) : Option String := u.pairs.reverse.lookup name

end Url

end SealedStore
