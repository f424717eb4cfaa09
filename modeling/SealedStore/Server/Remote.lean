import SealedStore.Backend.Basic
import SealedStore.Server.Reply
import SealedStore.Server.Request
import Std.Data.ExtTreeSet

set_option autoImplicit false

/-!
# Remote backends

A server as a backend.  Each operation is one exchange of requests for replies, but for scans, which
go on page by page, and commits, which watch the keys, check their types and then send all commands
at once, up to three times when others interfere.
-/

namespace SealedStore

/-- A server that replies to requests. -/
class Server (σ : Type) where
  /-- Replies to requests that are sent together, one reply for each. -/
  exchange : List Server.Request → σ → List Server.Reply × σ
  /-- How many more pages of a scan the server can give at most. -/
  pages : σ → Nat

/-- How far a client is connected. -/
inductive Link
  /-- No connection was needed as yet. -/
  | idle
  /-- There is a connection. -/
  | connected
  /-- The client was closed. -/
  | closed
  deriving DecidableEq, Repr, Inhabited

/-- The client of a server. -/
structure Remote (σ : Type) where
  /-- The server. -/
  server : σ
  /-- The connection. -/
  link : Link := .idle

namespace Remote

open Server

variable {σ : Type}

/-- The connections that are there. -/
def connections (r : Remote σ) : Nat := if r.link = .connected then 1 else 0

/-- The error when a server refuses, or replies with something else than was asked for. -/
def refused : StoreError := .connection [.quote .server]

variable [Server σ]

/-! ## Exchanges -/

/-- Makes sure of a connection. -/
def connect : Action (Remote σ) Unit := .attempt fun r =>
  if r.link = .closed then .error (.pool "Pool has been closed")
  else .ok ((), { r with link := .connected })

/-- Sends requests together and takes the replies. -/
def send (requests : List Request) : Action (Remote σ) (List Reply) := .update fun r =>
  let (replies, server) := Server.exchange requests r.server
  (replies, { r with server })

/-- Reads a single reply. -/
def readReply {α : Type} (read : Reply → Option α) : List Reply → Answer α
  | [reply] =>
    if reply.hasError then .error refused
    else
      match read reply with
      | some a => .ok a
      | none => .error refused
  | _ => .error refused

/-- Sends a request on a connection that is there and reads the reply. -/
def ask {α : Type} (request : Request) (read : Reply → Option α) : Action (Remote σ) α := do
  .ofAnswer (readReply read (← send [request]))

/-- Sends a single request and reads the reply. -/
def call {α : Type} (request : Request) (read : Reply → Option α) : Action (Remote σ) α := do
  connect
  ask request read

/-- Any reply that is no error will do. -/
def anything (_ : Reply) : Option Unit := some ()

/-! ## Scans -/

/-- Collects the keys page by page, from a cursor on, until the server gives the cursor zero. -/
def collect (pattern : String) : (pages : Nat) → (cursor : Nat) → Action (Remote σ) (List String)
  | 0, _ => throw refused
  | pages + 1, cursor => do
    let (next, keys) ← ask (.scan cursor pattern) Reply.page?
    if next = 0 then return keys
    else return keys ++ (← collect pattern pages next)

/-- The matching keys in order, each once. -/
def scan (pattern : String) : Action (Remote σ) (List String) := do
  connect
  let r ← get
  let keys ← collect pattern (Server.pages r.server + 1) 0
  return (Std.ExtTreeSet.ofList keys).toList

/-! ## Commits -/

/-- How often a commit is tried. -/
def rounds : Nat := 3

/-- The outcome of a queue of requests. -/
inductive Outcome
  /-- All requests were carried out. -/
  | done
  /-- Another client changed a watched key first. -/
  | overtaken
  /-- The server refused. -/
  | failed
  deriving DecidableEq, Repr, Inhabited

/-- The outcome by the replies to a whole queue, the last of which says what was carried out. -/
def Outcome.ofReplies (replies : List Reply) : Outcome :=
  if Reply.itemsHaveError replies then .failed
  else
    match replies.getLast? with
    | some .nil => .overtaken
    | some (.array _) => .done
    | _ => .failed

/-- The shapes of keys by the replies to the questions for their types. -/
def shapes? (keys : List String) (replies : List Reply) : Option (String → Option Shape) :=
  if Reply.itemsHaveError replies then none
  else do
    let types ← replies.mapM Reply.text?
    return fun key => ((keys.zip types).lookup key).bind Shape.ofTypeReply

/-- Asks for the types of keys, all at once, and checks that a transaction fits them. -/
def checkTypes (tx : Transaction) : Action (Remote σ) Unit := do
  let replies ← send (tx.keys.map .type)
  .ofAnswer <|
    match shapes? tx.keys replies with
    | none => .error refused
    | some shapes => tx.check shapes

/-- The whole queue of a transaction. -/
def queue (tx : Transaction) : List Request :=
  .multi :: (tx.map .ofCommand ++ [.exec])

/-- One round of a commit. -/
def commitRound (tx : Transaction) : Action (Remote σ) Outcome := do
  ask (.watch tx.keys) anything
  match ← (checkTypes tx).observe with
  | .error e =>
    let _ ← send [.unwatch]
    throw e
  | .ok () => return .ofReplies (← send (queue tx))

/-- Tries a commit for so many rounds; the key stands for the transaction in errors. -/
def commitWithin (tx : Transaction) (key : String) : (rounds : Nat) → Action (Remote σ) Unit
  | 0 => throw (.transaction key "watched keys kept changing")
  | rounds + 1 => do
    match ← commitRound tx with
    | .done => return
    | .overtaken => commitWithin tx key rounds
    | .failed => throw (.transaction key [.quote .server])

/-- Commits a transaction; an empty one needs no server. -/
def commit (tx : Transaction) : Action (Remote σ) Unit := do
  match tx with
  | [] => return
  | c :: _ =>
    connect
    commitWithin tx c.key rounds

end Remote

open Server in
instance {σ : Type} [Server σ] : Backend (Remote σ) where
  family _ := .redis
  get _ key := Remote.call (.get key) Reply.optionalBytes?
  getMany _ keys :=
    if keys = [] then pure [] else Remote.call (.getMany keys) Reply.optionalBytesList?
  set _ key value ttl := Remote.call (.set key value (ttl.map Request.clamp)) Remote.anything
  delete _ keys :=
    if keys = [] then pure 0 else Remote.call (.delete keys) (Reply.natural? 0x10000000000000000)
  contains _ key := Remote.call (.contains key) Reply.bool?
  lifetime _ key := Lifetime.ofReply <$> Remote.call (.lifetime key) Reply.signed?
  expire _ key seconds := Remote.call (.expire key (Request.clamp seconds)) Reply.bool?
  scan _ pattern := Remote.scan pattern
  incr _ key := Remote.call (.incr key) Reply.signed?
  field _ key name := Remote.call (.field key name) Reply.optionalBytes?
  fields _ key := Remote.call (.fields key) Reply.fields?
  commit _ tx := Remote.commit tx
  close := .update fun r => ((), { r with link := .closed })

end SealedStore
