import SealedStore.Url.Basic

set_option autoImplicit false

/-!
# Server addresses

The address of a server as a URL: `redis://`, a host and a port, a user and a password and the
number of a database, or `unix://` and the path of a socket.
-/

namespace SealedStore.Server

/-- Where a server listens. -/
inductive Endpoint
  /-- On a port of a host. -/
  | host (host : Url.Host) (port : Nat)
  /-- On a socket, which has a path. -/
  | socket (path : Bytes)
  deriving DecidableEq, Repr, Inhabited

/-- The two versions of the protocol. -/
inductive Protocol
  | second | third
  deriving DecidableEq, Repr, Inhabited

/-- The address of a server. -/
structure Address where
  /-- Where the server listens. -/
  endpoint : Endpoint
  /-- The number of the database. -/
  database : Int := 0
  /-- The user, if there is one. -/
  user : Option String := none
  /-- The password, if there is one. -/
  password : Option String := none
  /-- The version of the protocol. -/
  protocol : Protocol := .second
  deriving DecidableEq, Repr, Inhabited

namespace Address

/-- The usual port. -/
def usualPort : Nat := 6379

/-- A text without a character at either end. -/
def trim (mark : Char) (cs : List Char) : List Char :=
  ((cs.dropWhile (· = mark)).reverse.dropWhile (· = mark)).reverse

/-- The number of a database. -/
def database? (s : String) : Option Int :=
  Integer.signed? Integer.least64 Integer.greatest64 s

/-- The version of the protocol that a URL asks for. -/
def protocol? (u : Url) : Option Protocol :=
  match u.value? "protocol" with
  | none | some "2" | some "resp2" => some .second
  | some "3" | some "resp3" => some .third
  | _ => none

/-- A text without its escapes. -/
def plain? (s : String) : Option String := Utf8.decode? (Url.Percent.decode s.toList)

/-- The address of a server on a host: the path is the number of the database, the empty path names
the first one. -/
def ofHost? (u : Url) : Option Address := do
  let host ← u.host
  let database ←
    match trim '/' u.path.toList with
    | [] => some 0
    | cs => database? (String.ofList cs)
  let user ← if u.user = "" then some none else (plain? u.user).map some
  let password ← u.password.mapM plain?
  return {
    endpoint := .host host (u.port.getD usualPort)
    database, user, password
    protocol := ← protocol? u }

/-- The address of a server on a socket of this machine: the query names the rest. -/
def ofSocket? (u : Url) : Option Address := do
  if u.path.toList.head? ≠ some '/' then none
  if u.host ≠ none ∧ u.host ≠ some (.name "localhost") then none
  let database ← ((u.value? "db").map database?).getD (some 0)
  return {
    endpoint := .socket (Url.Percent.decode u.path.toList)
    database
    user := u.value? "user"
    password := u.value? "pass"
    protocol := ← protocol? u }

/-- Reads an address.  There are no encrypted connections, so `rediss://` is refused. -/
def read? (s : String) : Option Address := do
  let u ← Url.read? s
  if u.scheme = "redis" then ofHost? u
  else if u.scheme = "unix" ∨ u.scheme = "redis+unix" then ofSocket? u
  else none

end Address

end SealedStore.Server
