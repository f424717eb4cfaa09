import SealedStore.Proofs.Server.Exchange
import SealedStore.Server.Script

set_option autoImplicit false

/-!
# The conversation of a commit

Whatever a server replies, a commit speaks to it in rounds, and there is another round only after
one that was overtaken.  A round watches the keys, asks for their types, and then either gives the
watch up or sends the whole queue (`runOn_commit_rounds`).
-/

namespace SealedStore

namespace Server

/-- What was sent together, and the replies to it. -/
structure Exchange where
  /-- What was sent. -/
  requests : List Request
  /-- What was replied. -/
  replies : List Reply

/-- A server, and all that was said to it. -/
structure Recorded (σ : Type) where
  /-- The server. -/
  server : σ
  /-- The exchanges so far. -/
  log : List Exchange := []

instance {σ : Type} [Server σ] : Server (Recorded σ) where
  exchange requests s :=
    let (replies, server) := Server.exchange requests s.server
    (replies, { server, log := s.log ++ [⟨requests, replies⟩] })
  pages s := Server.pages s.server

theorem exchange_recorded {σ : Type} [Server σ] (requests : List Request) (s : Recorded σ) :
    ∃ replies s', Server.exchange requests s = (replies, s') ∧
      s'.log = s.log ++ [⟨requests, replies⟩] :=
  ⟨_, _, rfl, rfl⟩

/-! ## Rounds -/

/-- The replies in one round of a commit, by how far the round went. -/
inductive Round
  /-- The keys could not be watched, and nothing else was sent. -/
  | refused (watching : List Reply)
  /-- The types of the keys were asked for, and then the watch was given up. -/
  | withdrawn (watching types unwatching : List Reply)
  /-- The types of the keys were asked for, and then the whole queue was sent. -/
  | sent (watching types queued : List Reply)

namespace Round

/-- What is said in a round of a commit. -/
def exchanges (tx : Transaction) : Round → List Exchange
  | .refused watching => [⟨[.watch tx.keys], watching⟩]
  | .withdrawn watching types unwatching =>
    [⟨[.watch tx.keys], watching⟩, ⟨tx.keys.map .type, types⟩, ⟨[.unwatch], unwatching⟩]
  | .sent watching types queued =>
    [⟨[.watch tx.keys], watching⟩, ⟨tx.keys.map .type, types⟩,
      ⟨.multi :: (tx.map .ofCommand ++ [.exec]), queued⟩]

/-- The replies to the watch. -/
def watching : Round → List Reply
  | .refused watching => watching
  | .withdrawn watching _ _ => watching
  | .sent watching _ _ => watching

/-- The server has taken the watch. -/
def IsWatched (round : Round) : Prop :=
  ∃ reply, round.watching = [reply] ∧ reply.hasError = false

/-- The replies to the questions for types can be read, and the transaction passes the check against
them. -/
def Fits (tx : Transaction) (types : List Reply) : Prop :=
  ∃ shapes, Remote.shapes? tx.keys types = some shapes ∧ tx.check shapes = .ok ()

/-- A round goes on after a watch that was taken, and the queue is sent if the types of the same
round fit it. -/
def Legal (tx : Transaction) (round : Round) : Prop :=
  match round with
  | .refused _ => ¬ round.IsWatched
  | .withdrawn _ types _ => round.IsWatched ∧ ¬ Fits tx types
  | .sent _ types _ => round.IsWatched ∧ Fits tx types

/-- The server took all of the queue and has carried it out. -/
def IsDone : Round → Prop
  | .sent _ _ queued =>
    Reply.itemsHaveError queued = false ∧ ∃ items, queued.getLast? = some (.array items)
  | _ => False

/-- The server took all of the queue and then dropped it, since a watched key was changed. -/
def IsOvertaken : Round → Prop
  | .sent _ _ queued => Reply.itemsHaveError queued = false ∧ queued.getLast? = some .nil
  | _ => False

theorem IsDone.not_overtaken {round : Round} (h : round.IsDone) : ¬ round.IsOvertaken := by
  cases round with
  | refused watching => exact id
  | withdrawn watching types unwatching => exact id
  | sent watching types queued =>
    obtain ⟨-, items, hitems⟩ := h
    rintro ⟨-, hnil⟩
    rw [hitems] at hnil
    cases hnil

/-- A watch that was taken is ended within the round. -/
theorem getLast?_exchanges {tx : Transaction} {round : Round} (hlegal : round.Legal tx)
    (hwatched : round.IsWatched) :
    ∃ x, (round.exchanges tx).getLast? = some x ∧
      (x.requests.getLast? = some .exec ∨ x.requests.getLast? = some .unwatch) := by
  cases round with
  | refused watching => exact absurd hwatched hlegal
  | withdrawn watching types unwatching => exact ⟨_, rfl, .inr rfl⟩
  | sent watching types queued =>
    refine ⟨_, rfl, .inl ?_⟩
    exact List.getLast?_concat (l := .multi :: tx.map Request.ofCommand)

end Round

/-! ## Numbers of seconds -/

/-- A value is sent with a number of seconds that a server takes, or without one. -/
def Request.InBounds : Request → Prop
  | .set _ _ (some seconds) => 1 ≤ seconds ∧ seconds ≤ greatestExpiry
  | _ => True

/-- The check lets no value pass that is to live for no seconds. -/
theorem inBounds_of_shapeAfter {c : Command} {before after : Option Shape}
    (h : c.shapeAfter before = .ok after) : (Request.ofCommand c).InBounds := by
  cases c with
  | set key value ttl =>
    rcases ttl with _ | _ | seconds
    · trivial
    · cases h
    · change 1 ≤ Request.clamp (seconds + 1) ∧ Request.clamp (seconds + 1) ≤ _
      unfold Request.clamp Request.greatestExpiry
      omega
  | hset key fields => trivial
  | del key => trivial

theorem inBounds_of_check {tx : Transaction} {shapes : String → Option Shape}
    (h : tx.check shapes = .ok ()) : ∀ c ∈ tx, (Request.ofCommand c).InBounds := by
  induction tx generalizing shapes with
  | nil => exact List.forall_mem_nil _
  | cons c tx ih =>
    rw [Transaction.check] at h
    cases hafter : c.shapeAfter (shapes c.key) with
    | error e =>
      rw [hafter] at h
      cases h
    | ok after =>
      rw [hafter] at h
      exact List.forall_mem_cons.2 ⟨inBounds_of_shapeAfter hafter, ih h⟩

theorem Round.inBounds {tx : Transaction} {round : Round} (hlegal : round.Legal tx) :
    ∀ x ∈ round.exchanges tx, ∀ request ∈ x.requests, request.InBounds := by
  have hwatch : ∀ request ∈ [Request.watch tx.keys], request.InBounds :=
    List.forall_mem_singleton.2 trivial
  have htypes : ∀ request ∈ tx.keys.map Request.type, request.InBounds :=
    List.forall_mem_map.2 fun key hkey => trivial
  cases round with
  | refused watching => exact List.forall_mem_singleton.2 hwatch
  | withdrawn watching types unwatching =>
    have hunwatch : ∀ request ∈ [Request.unwatch], request.InBounds :=
      List.forall_mem_singleton.2 trivial
    exact List.forall_mem_cons.2
      ⟨hwatch, List.forall_mem_cons.2 ⟨htypes, List.forall_mem_singleton.2 hunwatch⟩⟩
  | sent watching types queued =>
    obtain ⟨-, shapes, -, hcheck⟩ := hlegal
    have hqueue :
        ∀ request ∈ .multi :: (tx.map Request.ofCommand ++ [.exec]), request.InBounds := by
      simp only [List.forall_mem_cons, List.forall_mem_append, List.forall_mem_map]
      exact ⟨trivial, inBounds_of_check hcheck, trivial, List.forall_mem_nil _⟩
    exact List.forall_mem_cons.2
      ⟨hwatch, List.forall_mem_cons.2 ⟨htypes, List.forall_mem_singleton.2 hqueue⟩⟩

/-! ## Round after round -/

/-- The rounds of a commit that is allowed so many: there is another one only after one that was
overtaken. -/
inductive Rounds (tx : Transaction) : (limit : Nat) → List Round → Prop
  /-- None is left. -/
  | none : Rounds tx 0 []
  /-- The last one was not overtaken. -/
  | last {limit : Nat} {round : Round} (hlegal : round.Legal tx)
      (hlast : ¬ round.IsOvertaken) : Rounds tx (limit + 1) [round]
  /-- One that was overtaken comes before the others. -/
  | again {limit : Nat} {round : Round} {rounds : List Round} (hlegal : round.Legal tx)
      (hovertaken : round.IsOvertaken) (hrest : Rounds tx limit rounds) :
      Rounds tx (limit + 1) (round :: rounds)

namespace Rounds

variable {tx : Transaction} {limit : Nat} {rounds : List Round}

theorem length_le (h : Rounds tx limit rounds) : rounds.length ≤ limit := by
  induction h with
  | none => exact Nat.le_refl 0
  | last hlegal hlast => exact Nat.succ_le_succ (Nat.zero_le _)
  | again hlegal hovertaken hrest ih => exact Nat.succ_le_succ ih

theorem legal (h : Rounds tx limit rounds) : ∀ round ∈ rounds, round.Legal tx := by
  induction h with
  | none => exact List.forall_mem_nil _
  | last hlegal hlast => exact List.forall_mem_singleton.2 hlegal
  | again hlegal hovertaken hrest ih => exact List.forall_mem_cons.2 ⟨hlegal, ih⟩

end Rounds

end Server

namespace Remote

open Server

variable {σ : Type} [Server σ] {r r' : Remote (Recorded σ)}

/-- The types of the keys are asked for at once, and the check is passed if they fit. -/
theorem runOn_checkTypes_recorded (tx : Transaction) (r : Remote (Recorded σ)) :
    ∃ types found mid, (checkTypes tx).runOn r = (found, mid) ∧
      mid.server.log = r.server.log ++ [⟨tx.keys.map .type, types⟩] ∧
      (found = .ok () ↔ Round.Fits tx types) := by
  obtain ⟨types, s', htypes, hlog⟩ := exchange_recorded (tx.keys.map .type) r.server
  refine ⟨types, _, _, runOn_checkTypes tx r, ?_⟩
  rw [htypes]
  refine ⟨hlog, ?_⟩
  unfold Round.Fits
  cases shapes? tx.keys types <;> simp

/-- A round is a legal one, and what it comes to is told by the replies to the queue. -/
theorem runOn_commitRound {tx : Transaction} {answer : Answer Outcome}
    (hrun : (commitRound tx).runOn r = (answer, r')) :
    ∃ round : Round, r'.server.log = r.server.log ++ round.exchanges tx ∧ round.Legal tx ∧
      (answer = .ok .done ↔ round.IsDone) ∧ (answer = .ok .overtaken ↔ round.IsOvertaken) := by
  obtain ⟨watching, s₁, hwatch, hlog₁⟩ := exchange_recorded [.watch tx.keys] r.server
  unfold commitRound at hrun
  rw [Action.runOn_bind, runOn_ask, hwatch] at hrun
  cases hread : readReply anything watching with
  | error e =>
    rw [hread] at hrun
    cases hrun
    refine ⟨.refused watching, hlog₁, ?_, by simp [Round.IsDone], by simp [Round.IsOvertaken]⟩
    rintro ⟨reply, rfl, hreply⟩
    have hok : readReply anything [reply] = .ok () := readReply_eq_ok.2 ⟨reply, rfl, hreply, rfl⟩
    rw [hok] at hread
    cases hread
  | ok _ =>
    obtain ⟨reply, rfl, hreply, -⟩ := readReply_eq_ok.1 hread
    obtain ⟨types, found, mid, hcheck, hlog₂, hfits⟩ :=
      runOn_checkTypes_recorded tx { r with server := s₁ }
    rw [hread] at hrun
    simp only [Action.runOn_bind, Action.observe, Action.runOn_update, hcheck] at hrun
    cases found with
    | error e =>
      obtain ⟨unwatching, s₃, hunwatch, hlog₃⟩ := exchange_recorded [.unwatch] mid.server
      simp only [Action.runOn_bind, runOn_send, hunwatch, Action.runOn_throw] at hrun
      cases hrun
      refine ⟨.withdrawn [reply] types unwatching, ?_, ⟨⟨reply, rfl, hreply⟩, ?_⟩,
        by simp [Round.IsDone], by simp [Round.IsOvertaken]⟩
      · simp [hlog₃, hlog₂, hlog₁, Round.exchanges]
      · exact fun h => absurd (hfits.2 h) (by simp)
    | ok _ =>
      obtain ⟨queued, s₃, hqueue, hlog₃⟩ := exchange_recorded (queue tx) mid.server
      simp only [Action.runOn_bind, runOn_send, hqueue, Action.runOn_pure] at hrun
      cases hrun
      refine ⟨.sent [reply] types queued, ?_, ⟨⟨reply, rfl, hreply⟩, hfits.1 rfl⟩, ?_, ?_⟩
      · simp [hlog₃, hlog₂, hlog₁, Round.exchanges, queue]
      · rw [Except.ok.injEq]
        exact ofReplies_eq_done_iff
      · rw [Except.ok.injEq]
        exact ofReplies_eq_overtaken_iff

/-- The rounds of a commit, one after another. -/
theorem runOn_commitWithin {tx : Transaction} {key : String} {limit : Nat} {answer : Answer Unit}
    (hrun : (commitWithin tx key limit).runOn r = (answer, r')) :
    ∃ rounds : List Round, r'.server.log = r.server.log ++ rounds.flatMap (Round.exchanges tx) ∧
      Rounds tx limit rounds ∧ (answer = .ok () ↔ ∃ round ∈ rounds, round.IsDone) := by
  induction limit generalizing r with
  | zero =>
    cases hrun
    exact ⟨[], by simp, .none, by simp⟩
  | succ limit ih =>
    unfold commitWithin at hrun
    rw [Action.runOn_bind] at hrun
    rcases hround : (commitRound tx).runOn r with ⟨found, mid⟩
    obtain ⟨round, hlog, hlegal, hdone, hovertaken⟩ := runOn_commitRound hround
    rw [hround] at hrun
    by_cases hagain : found = .ok .overtaken
    · rw [hagain] at hrun
      obtain ⟨rounds, hlog', hrounds, hanswer⟩ := ih hrun
      have hnot : ¬ round.IsDone := fun h => h.not_overtaken (hovertaken.1 hagain)
      refine ⟨round :: rounds, ?_, .again hlegal (hovertaken.1 hagain) hrounds, ?_⟩
      · rw [hlog', hlog, List.flatMap_cons, List.append_assoc]
      · simpa [hnot] using hanswer
    · obtain ⟨rfl, hanswer⟩ : mid = r' ∧ (answer = .ok () ↔ found = .ok .done) := by
        rcases found with e | _ | _ | _
        · cases hrun
          exact ⟨rfl, by simp⟩
        · cases hrun
          exact ⟨rfl, by simp⟩
        · exact absurd rfl hagain
        · cases hrun
          exact ⟨rfl, by simp⟩
      refine ⟨[round], by simpa using hlog, .last hlegal fun h => hagain (hovertaken.2 h), ?_⟩
      simpa [hdone] using hanswer

/-- The conversation of a commit, whatever the server replies.  Nothing is sent for an empty
transaction, or by a client that was closed.  Otherwise there are at most three rounds, each of
which goes as far as its own replies allow, and there is another one only after one that was
overtaken.  The commit succeeds if one of them was done.  A watch that was taken is ended in the same
round, all numbers of seconds are in bounds, and the keys that are watched and asked about are those
of the commands, each once and in the order of first use. -/
theorem runOn_commit_rounds (tx : Transaction) {answer : Answer Unit}
    (hrun : (commit tx).runOn r = (answer, r')) :
    (∃ rounds : List Round, r'.server.log = r.server.log ++ rounds.flatMap (Round.exchanges tx) ∧
      (if tx = [] ∨ r.link = .closed then rounds = [] else Rounds tx 3 rounds) ∧
      rounds.length ≤ 3 ∧
      (answer = .ok () ↔ tx = [] ∨ ∃ round ∈ rounds, round.IsDone) ∧
      (∀ round ∈ rounds, round.IsWatched → ∃ x, (round.exchanges tx).getLast? = some x ∧
        (x.requests.getLast? = some .exec ∨ x.requests.getLast? = some .unwatch)) ∧
      ∀ round ∈ rounds, ∀ x ∈ round.exchanges tx, ∀ request ∈ x.requests, request.InBounds) ∧
      (∀ key, key ∈ tx.keys ↔ ∃ c ∈ tx, c.key = key) ∧ tx.keys.Nodup ∧
      Transaction.InOrderOfUse (tx.map Command.key) tx.keys := by
  have hkeys := Transaction.keys_inOrderOfUse tx
  refine ⟨?_, fun key => Transaction.mem_keys, hkeys.nodup, hkeys⟩
  cases tx with
  | nil =>
    cases hrun
    exact ⟨[], by simp⟩
  | cons c tx =>
    unfold commit at hrun
    rw [Action.runOn_bind, runOn_connect] at hrun
    by_cases hclosed : r.link = .closed
    · rw [if_pos hclosed] at hrun
      cases hrun
      exact ⟨[], by simp [hclosed]⟩
    · rw [if_neg hclosed] at hrun
      obtain ⟨rounds, hlog, hrounds, hanswer⟩ := runOn_commitWithin hrun
      refine ⟨rounds, hlog, ?_, hrounds.length_le, by simpa using hanswer, ?_, ?_⟩
      · rw [if_neg (by simpa using hclosed)]
        exact hrounds
      · exact fun round hround => Round.getLast?_exchanges (hrounds.legal round hround)
      · exact fun round hround => Round.inBounds (hrounds.legal round hround)

/-- A commit for more seconds than can be sent, which another client overtakes once. -/
theorem runOn_commit_rounds_overtaken :
    let tx : Transaction :=
      [.set "k" [1] (some 0xFFFFFFFFFFFFFFFF), .hset "l" [("a", [2])], .del "k"]
    let r : Remote (Recorded Script) := { server := { server := { lines :=
      [.reply (.status "none"), .reply (.status "hash"), .reply .nil,
        .reply (.status "none"), .reply (.status "hash"), .reply (.array [])] } } }
    let sent : List Request := [.watch ["k", "l"], .type "k", .type "l", .multi,
      .set "k" [1] (some Request.greatestExpiry), .setFields "l" [("a", [2])], .delete ["k"], .exec]
    ((commit tx).runOn r).1 = .ok () ∧
      ((commit tx).runOn r).2.server.log.flatMap Exchange.requests = sent ++ sent ∧
      ∃ rounds, Rounds tx 3 rounds ∧ ∃ round ∈ rounds, round.IsDone := by
  intro tx r sent
  have hok : ((commit tx).runOn r).1 = .ok () := by decide +kernel
  obtain ⟨⟨rounds, -, hrounds, -, hanswer, -⟩, -⟩ := runOn_commit_rounds tx (r := r) rfl
  refine ⟨hok, by decide +kernel, rounds, hrounds, ?_⟩
  exact (hanswer.1 hok).resolve_left (List.cons_ne_nil _ _)

end Remote

end SealedStore
