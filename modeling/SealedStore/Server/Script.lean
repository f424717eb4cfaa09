import SealedStore.Server.Remote

set_option autoImplicit false

/-!
# Scripted servers

A server that replies from a script and keeps what was sent to it, for rehearsing conversations.
Watching keys and beginning a queue always succeed and take nothing from the script.
-/

namespace SealedStore.Server

/-- A line of a script. -/
inductive Line
  /-- A reply. -/
  | reply (r : Reply)
  /-- The next request that is to be queued is refused. -/
  | refusal
  deriving Repr, Inhabited

/-- A server with a script. -/
structure Script where
  /-- What is still to be replied. -/
  lines : List Line := []
  /-- What was sent so far, the last request first. -/
  sent : List Request := []
  /-- Whether requests are being queued. -/
  queueing : Bool := false
  deriving Repr, Inhabited

namespace Script

/-- Takes the next reply; a script that has ended, or a refusal out of place, is an error. -/
def next (s : Script) : Reply × Script :=
  match s.lines with
  | [] => (.error, s)
  | .reply r :: rest => (r, { s with lines := rest })
  | .refusal :: rest => (.error, { s with lines := rest })

/-- Takes a request into the queue. -/
def enqueue (s : Script) : Reply × Script :=
  match s.lines with
  | .refusal :: rest => (.error, { s with lines := rest })
  | _ => (.status "QUEUED", s)

/-- Replies to a request. -/
def answer (s : Script) (request : Request) : Reply × Script :=
  let s := { s with sent := request :: s.sent }
  match request with
  | .watch _ | .unwatch => (.status "OK", s)
  | .multi => (.status "OK", { s with queueing := true })
  | .exec => { s with queueing := false }.next
  | _ => if s.queueing then s.enqueue else s.next

/-- Replies to requests one after another. -/
def answerAll : List Request → Script → List Reply × Script
  | [], s => ([], s)
  | request :: rest, s =>
    let (reply, s) := s.answer request
    let (replies, s) := answerAll rest s
    (reply :: replies, s)

end Script

instance : Server Script where
  exchange := Script.answerAll
  pages s := s.lines.length

end SealedStore.Server
