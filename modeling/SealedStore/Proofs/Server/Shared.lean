import Mathlib.Logic.Function.Basic
import SealedStore.Server.Remote

set_option autoImplicit false

/-!
# A server that is shared

A server as one of its clients meets it.  Before each request of this client others may write any
keys, keys may expire, the clock may move, and the server may decide to refuse the request: all that
is laid down in the moments to come.  The server keeps account of everything that has happened, and
its keys are what the account makes of those that it began with.

Of the requests only those of a commit are served.
-/

namespace SealedStore.Server

/-! ## Keys -/

/-- What a key of a server holds. -/
inductive Content
  /-- Plain bytes. -/
  | string (value : Bytes)
  /-- Named fields. -/
  | hash (fields : Fields)
  /-- Something of a type that this library never writes. -/
  | other (kind : String) (foreign : Shape.ofTypeReply kind = some .other)

/-- The word for the type of a content. -/
def Content.kind : Content → String
  | .string _ => "string"
  | .hash _ => "hash"
  | .other kind _ => kind

/-- The shape of a content. -/
def Content.shape : Content → Shape
  | .string _ => .string
  | .hash _ => .hash
  | .other _ _ => .other

/-- What a key holds, and until when. -/
structure Item where
  content : Content
  deadline : Option Nat := none

/-- The keys of a server and its clock, in milliseconds since 1970. -/
structure World where
  items : String → Option Item
  now : Fin 0x4000000000000000

namespace World

/-- Puts an item in the place of a key, or removes the key. -/
def put (w : World) (key : String) (item : Option Item) : World :=
  { w with items := Function.update w.items key item }

theorem items_put (w : World) (key : String) (item : Option Item) (name : String) :
    (w.put key item).items name = if name = key then item else w.items name :=
  Function.update_apply w.items key item name

/-- The shape of a key. -/
def shape? (w : World) (key : String) : Option Shape :=
  (w.items key).map fun item => item.content.shape

/-- The word for the type of a key. -/
def kind (w : World) (key : String) : String :=
  ((w.items key).map fun item => item.content.kind).getD "none"

theorem ofTypeReply_kind (w : World) (key : String) :
    Shape.ofTypeReply (w.kind key) = w.shape? key := by
  unfold kind shape?
  rcases w.items key with _ | ⟨value | fields | ⟨kind, hforeign⟩, deadline⟩
  · rfl
  · rfl
  · rfl
  · exact hforeign

/-! ## Carrying out requests -/

/-- The deadline that a write asks for; a lifetime of no seconds is refused, and one that leaves 64
bits when it is counted in milliseconds. -/
def deadline? (w : World) : Option Nat → Option (Option Nat)
  | none => some none
  | some seconds =>
    if 0 < seconds ∧ w.now.val + seconds * 1000 < 0x8000000000000000 then
      some (some (w.now.val + seconds * 1000))
    else none

/-- Carries out a request, unless it fails.  Fields are only added to a hash, or begin one. -/
def perform (w : World) : Request → Option (Reply × World)
  | .set key value seconds =>
    (w.deadline? seconds).map fun deadline =>
      (.status "OK", w.put key (some ⟨.string value, deadline⟩))
  | .setFields key fields =>
    match w.items key with
    | none =>
      let begun : Fields := Std.ExtTreeMap.insertMany ∅ fields
      some (.integer begun.size, w.put key (some ⟨.hash begun, none⟩))
    | some ⟨.hash old, deadline⟩ =>
      let extended := old.insertMany fields
      some (.integer (extended.size - old.size), w.put key (some ⟨.hash extended, deadline⟩))
    | some _ => none
  | .delete keys =>
    some (.integer (keys.eraseDups.filter fun key => (w.items key).isSome).length,
      { w with items := fun key => if key ∈ keys then none else w.items key })
  | _ => none

end World

/-! ## What happens -/

/-- What is not done by this client. -/
inductive Happening
  /-- Another client writes a key, or removes it. -/
  | write (key : String) (item : Option Item)
  /-- The deadline of a key is looked at.  If it has come, the key is gone; this may count as a
  change of the key or not. -/
  | expiry (key : String) (noticed : Bool)
  /-- The clock moves. -/
  | clock (now : Fin 0x4000000000000000)

/-- What happens on a server. -/
inductive Event
  /-- Something that is not done by this client. -/
  | other (h : Happening)
  /-- A request of this client is carried out. -/
  | own (request : Request)

/-- Whether a key has changed for those who watch it. -/
def Happening.touches (watched : List String) : Happening → Bool
  | .write key _ => key ∈ watched
  | .expiry key noticed => noticed && key ∈ watched
  | .clock _ => false

namespace World

/-- Whether the deadline of a key has come. -/
def isDue (w : World) (key : String) : Bool :=
  ((w.items key).bind Item.deadline).any (· ≤ w.now.val)

/-- The keys after something that is not done by this client. -/
def happen (w : World) : Happening → World
  | .write key item => w.put key item
  | .expiry key _ => if w.isDue key then w.put key none else w
  | .clock now => { w with now }

/-- The keys after an event.  A request that fails changes nothing. -/
def step (w : World) : Event → World
  | .other h => w.happen h
  | .own request => ((w.perform request).map Prod.snd).getD w

/-- The replies to requests that are carried out in a row. -/
def replies (w : World) : List Request → List Reply
  | [] => []
  | request :: rest =>
    ((w.perform request).map Prod.fst).getD .error :: (w.step (.own request)).replies rest

/-- Carried out in a row, none of the requests fails. -/
def Performs (w : World) : List Request → Prop
  | [] => True
  | request :: rest => (w.perform request).isSome ∧ (w.step (.own request)).Performs rest

end World

/-- What goes before a request of this client: what others do, and whether the request is to be
refused. -/
structure Moment where
  happenings : List Happening := []
  refuses : Bool := false

/-! ## The server -/

/-- A server as one of its clients meets it. -/
structure Shared where
  /-- The keys and the clock in the beginning. -/
  start : World
  /-- What has happened since. -/
  past : List Event := []
  /-- What goes before the requests to come. -/
  moments : List Moment := []
  /-- The keys that are watched for this client. -/
  watched : List String := []
  /-- Whether one of them has changed. -/
  touched : Bool := false
  /-- The requests that are queued, if a queue was begun. -/
  queue : Option (List Request) := none
  /-- Whether a request that was to be queued was refused. -/
  spoiled : Bool := false

/-- Whether a request lacks words that the server wants. -/
def Request.isShort : Request → Bool
  | .setFields _ [] => true
  | .delete [] => true
  | .watch [] => true
  | _ => false

namespace Shared

/-- The keys and the clock now. -/
def world (s : Shared) : World := s.past.foldl World.step s.start

/-- What goes before the next request. -/
def moment (s : Shared) : Moment := s.moments.head?.getD {}

/-- Lets others act. -/
def elapse (s : Shared) : Shared :=
  { s with
    past := s.past ++ s.moment.happenings.map .other
    moments := s.moments.tail
    touched := s.touched || s.moment.happenings.any (·.touches s.watched) }

/-- Carries out requests in one step. -/
def carryOut (s : Shared) (requests : List Request) : Shared :=
  { s with past := s.past ++ requests.map .own }

/-- Ends a queue: nothing is watched any more. -/
def finish (s : Shared) : Shared :=
  { s with watched := [], touched := false, queue := none, spoiled := false }

/-- Replies to the end of a queue. -/
def execute (s : Shared) (refuses : Bool) (queued : List Request) : Reply × Shared :=
  if refuses || s.spoiled then (.error, s.finish)
  else if s.touched then (.nil, s.finish)
  else (.array (s.world.replies queued), (s.carryOut queued).finish)

/-- Replies to a request while requests are queued. -/
def answerQueueing (s : Shared) (refuses : Bool) (queued : List Request) :
    Request → Reply × Shared
  | .exec => s.execute refuses queued
  | .multi | .watch _ => (.error, s)
  | request =>
    if refuses then (.error, { s with spoiled := true })
    else (.status "QUEUED", { s with queue := some (queued ++ [request]) })

/-- Replies to a request while none are queued.  A queue can always be begun. -/
def answerAtOnce (s : Shared) (refuses : Bool) : Request → Reply × Shared
  | .multi => (.status "OK", { s with queue := some [], spoiled := false })
  | .exec => (.error, s)
  | .watch keys =>
    if refuses then (.error, s) else (.status "OK", { s with watched := s.watched ++ keys })
  | .unwatch =>
    if refuses then (.error, s) else (.status "OK", { s with watched := [], touched := false })
  | .type key => if refuses then (.error, s) else (.status (s.world.kind key), s)
  | request =>
    if refuses then (.error, s)
    else
      match s.world.perform request with
      | some (reply, _) => (reply, s.carryOut [request])
      | none => (.error, s)

/-- Replies to a request, after others have acted. -/
def answer (s : Shared) (request : Request) : Reply × Shared :=
  let refuses := s.moment.refuses || request.isShort
  match s.queue with
  | some queued => s.elapse.answerQueueing refuses queued request
  | none => s.elapse.answerAtOnce refuses request

/-- Replies to requests one after another. -/
def answerAll : List Request → Shared → List Reply × Shared
  | [], s => ([], s)
  | request :: rest, s =>
    let (reply, s) := s.answer request
    let (replies, s) := answerAll rest s
    (reply :: replies, s)

end Shared

instance : Server Shared where
  exchange := Shared.answerAll
  pages _ := 0

/-! ## While others act -/

namespace World

/-- What others do to a watched key without being noticed can only make it absent. -/
theorem items_happen {w : World} {h : Happening} {watched : List String} {key : String}
    (hkey : key ∈ watched) (hquiet : h.touches watched = false) :
    (w.happen h).items key = w.items key ∨ (w.happen h).items key = none := by
  cases h with
  | write other item =>
    have hother : other ∉ watched := of_decide_eq_false hquiet
    have hne : key ≠ other := fun he => hother (he ▸ hkey)
    exact .inl ((items_put w other item key).trans (if_neg hne))
  | expiry other noticed =>
    simp only [happen]
    split
    · rw [items_put]
      by_cases he : key = other
      · exact .inr (if_pos he)
      · exact .inl (if_neg he)
    · exact .inl rfl
  | clock now => exact .inl rfl

theorem items_foldl_happen {hs : List Happening} {w : World} {watched : List String} {key : String}
    (hkey : key ∈ watched) (hquiet : hs.any (·.touches watched) = false) :
    ((hs.map .other).foldl step w).items key = w.items key ∨
      ((hs.map .other).foldl step w).items key = none := by
  induction hs generalizing w with
  | nil => exact .inl rfl
  | cons h hs ih =>
    rw [List.any_cons, Bool.or_eq_false_iff] at hquiet
    have hrest := ih (w := w.happen h) hquiet.2
    rcases hrest with hsame | hgone
    · rcases items_happen (w := w) hkey hquiet.1 with hsame' | hgone'
      · exact .inl (hsame.trans hsame')
      · exact .inr (hsame.trans hgone')
    · exact .inr hgone

end World

namespace Shared

/-- Nothing has happened but what others have done. -/
structure Elapsed (s s' : Shared) : Prop where
  start : s'.start = s.start
  past : ∃ hs : List Happening, s'.past = s.past ++ hs.map .other

theorem Elapsed.refl (s : Shared) : Elapsed s s := ⟨rfl, [], (List.append_nil _).symm⟩

theorem Elapsed.trans {s t u : Shared} (h : Elapsed s t) (h' : Elapsed t u) : Elapsed s u := by
  obtain ⟨hs, hpast⟩ := h.past
  obtain ⟨hs', hpast'⟩ := h'.past
  refine ⟨h'.start.trans h.start, hs ++ hs', ?_⟩
  rw [hpast', hpast, List.map_append, List.append_assoc]

/-- Others have acted while keys were watched.  Unless that was noticed, every key that is watched
is as it was, or gone. -/
structure Later (s s' : Shared) : Prop extends Elapsed s s' where
  watched : s'.watched = s.watched
  steady : s'.touched = false → s.touched = false ∧ ∀ key ∈ s.watched,
    s'.world.items key = s.world.items key ∨ s'.world.items key = none

theorem Later.trans {s t u : Shared} (h : Later s t) (h' : Later t u) : Later s u where
  toElapsed := h.toElapsed.trans h'.toElapsed
  watched := h'.watched.trans h.watched
  steady := by
    intro huntouched
    obtain ⟨htouched, hafter⟩ := h'.steady huntouched
    obtain ⟨htouched', hbefore⟩ := h.steady htouched
    refine ⟨htouched', fun key hkey => ?_⟩
    rcases hafter key (h.watched ▸ hkey) with hsame | hgone
    · rcases hbefore key hkey with hsame' | hgone'
      · exact .inl (hsame.trans hsame')
      · exact .inr (hsame.trans hgone')
    · exact .inr hgone

/-- What is queued makes no difference. -/
theorem Later.of_queue {s t : Shared} (h : Later s t) (queue : Option (List Request))
    (spoiled : Bool) : Later s { t with queue, spoiled } where
  start := h.start
  past := h.past
  watched := h.watched
  steady := h.steady

theorem Later.refl (s : Shared) : Later s s where
  toElapsed := .refl s
  watched := rfl
  steady huntouched := ⟨huntouched, fun _ _ => .inl rfl⟩

theorem later_elapse (s : Shared) : Later s s.elapse where
  start := rfl
  past := ⟨s.moment.happenings, rfl⟩
  watched := rfl
  steady := by
    intro huntouched
    obtain ⟨htouched, hquiet⟩ := Bool.or_eq_false_iff.1 huntouched
    refine ⟨htouched, fun key hkey => ?_⟩
    have hworld : s.elapse.world =
        (s.moment.happenings.map .other).foldl World.step s.world := List.foldl_append
    rw [hworld]
    exact World.items_foldl_happen hkey hquiet

end Shared

end SealedStore.Server
