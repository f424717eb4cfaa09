import SealedStore.Proofs.Server.Exchange
import SealedStore.Proofs.Server.Shared

set_option autoImplicit false

/-!
# Commits on a shared server

A commit watches its keys, asks for their types and sends its commands as one queue.  What others do
to the keys in between is either noticed, and the queue is dropped, or has only made keys absent,
and then every command that the check accepted is carried out.  So a commit that succeeds has been
carried out as a whole, once, in one step, and one that fails has not been carried out at all
(`runOn_commit_shared`).
-/

namespace SealedStore

namespace Server

namespace Shared

variable {s s' : Shared}

/-! ## Types of keys -/

/-- A word is the type that a key had at some time in between. -/
def KindSeen (s s' : Shared) (key kind : String) : Prop :=
  ∃ mid, Later s mid ∧ Later mid s' ∧ kind = mid.world.kind key

theorem answer_type (hqueue : s.queue = none) (key : String) :
    ∃ reply s', s.answer (.type key) = (reply, s') ∧ Later s s' ∧ s'.queue = none ∧
      (reply.hasError = false → reply = .status (s'.world.kind key)) := by
  simp only [answer, hqueue, answerAtOnce]
  split
  · exact ⟨_, _, rfl, later_elapse s, hqueue, fun h => by cases h⟩
  · exact ⟨_, _, rfl, later_elapse s, hqueue, fun _ => rfl⟩

theorem answerAll_types (hqueue : s.queue = none) (keys : List String) :
    ∃ replies s', answerAll (keys.map .type) s = (replies, s') ∧ Later s s' ∧ s'.queue = none ∧
      ∀ types, Reply.itemsHaveError replies = false → replies.mapM Reply.text? = some types →
        List.Forall₂ (KindSeen s s') keys types := by
  induction keys generalizing s with
  | nil =>
    refine ⟨[], s, rfl, .refl s, hqueue, fun types _ htypes => ?_⟩
    cases htypes
    exact .nil
  | cons key keys ih =>
    obtain ⟨reply, mid, hanswer, hlater, hmid, hreply⟩ := answer_type hqueue key
    obtain ⟨replies, s', hrest, hlater', hqueue', htypes⟩ := ih hmid
    refine ⟨reply :: replies, s', ?_, hlater.trans hlater', hqueue', fun types hok hread => ?_⟩
    · simp only [List.map_cons, answerAll, hanswer, hrest]
    · rw [Reply.itemsHaveError, Bool.or_eq_false_iff] at hok
      rw [hreply hok.1, List.mapM_cons] at hread
      obtain ⟨kind, hkind, hread⟩ := Option.bind_eq_some_iff.1 hread
      obtain ⟨kinds, hkinds, hread⟩ := Option.bind_eq_some_iff.1 hread
      cases hkind
      cases hread
      refine .cons ⟨mid, hlater, hlater', rfl⟩ ((htypes kinds hok.2 hkinds).imp ?_)
      rintro key' kind ⟨mid', hbefore, hafter, hseen⟩
      exact ⟨mid', hlater.trans hbefore, hafter, hseen⟩

/-- The check is told of shapes that watched keys had: each has it still, or is gone, unless a
change was noticed. -/
structure Seen (keys : List String) (shapes : String → Option Shape) (s : Shared) : Prop where
  watched : ∀ key ∈ keys, key ∈ s.watched
  shapes : s.touched = false → ∀ key ∈ keys,
    s.world.shape? key = shapes key ∨ s.world.shape? key = none

theorem Seen.later {keys : List String} {shapes : String → Option Shape} (h : Seen keys shapes s)
    (hlater : Later s s') : Seen keys shapes s' where
  watched key hkey := by
    rw [hlater.watched]
    exact h.watched key hkey
  shapes := by
    intro huntouched key hkey
    obtain ⟨htouched, hitems⟩ := hlater.steady huntouched
    unfold World.shape?
    rcases hitems key (h.watched key hkey) with hsame | hgone
    · rw [hsame]
      exact h.shapes htouched key hkey
    · exact .inr (by rw [hgone]; rfl)

theorem shape?_of_kindSeen {key kind : String} (h : KindSeen s s' key kind)
    (hwatched : key ∈ s.watched) (huntouched : s'.touched = false) :
    s'.world.shape? key = Shape.ofTypeReply kind ∨ s'.world.shape? key = none := by
  obtain ⟨mid, hbefore, hafter, rfl⟩ := h
  rw [World.ofTypeReply_kind]
  unfold World.shape?
  rcases (hafter.steady huntouched).2 key (hbefore.watched ▸ hwatched) with hsame | hgone
  · exact .inl (by rw [hsame])
  · exact .inr (by rw [hgone]; rfl)

/-- Each key is paired with a word of its own. -/
theorem lookup_zip {P : String → String → Prop} {keys kinds : List String}
    (h : List.Forall₂ P keys kinds) {key : String} (hkey : key ∈ keys) :
    ∃ kind, (keys.zip kinds).lookup key = some kind ∧ P key kind := by
  induction h with
  | nil => exact absurd hkey List.not_mem_nil
  | @cons k kind keys kinds hk hrest ih =>
    rw [List.zip_cons_cons, List.lookup_cons]
    by_cases he : key = k
    · subst he
      exact ⟨kind, by simp, hk⟩
    · obtain ⟨found, hfound, hP⟩ := ih ((List.mem_cons.1 hkey).resolve_left he)
      have hne : (key == k) = false := beq_eq_false_iff_ne.2 he
      exact ⟨found, by rw [hne]; exact hfound, hP⟩

/-- The shapes that the replies to the questions for types make are those that the keys had. -/
theorem seen_of_types {keys : List String} (hqueue : s.queue = none)
    (hwatched : ∀ key ∈ keys, key ∈ s.watched) :
    ∃ replies s', answerAll (keys.map .type) s = (replies, s') ∧ Later s s' ∧ s'.queue = none ∧
      ∀ shapes, Remote.shapes? keys replies = some shapes → Seen keys shapes s' := by
  obtain ⟨replies, s', hreplies, hlater, hqueue', htypes⟩ := answerAll_types hqueue keys
  refine ⟨replies, s', hreplies, hlater, hqueue', fun shapes hshapes => ?_⟩
  unfold Remote.shapes? at hshapes
  split at hshapes
  · cases hshapes
  · rename_i hok
    obtain ⟨kinds, hkinds, hshapes⟩ := Option.bind_eq_some_iff.1 hshapes
    cases hshapes
    have hseen := htypes kinds (Bool.eq_false_iff.2 hok) hkinds
    refine ⟨fun key hkey => ?_, fun huntouched key hkey => ?_⟩
    · rw [hlater.watched]
      exact hwatched key hkey
    · obtain ⟨kind, hlookup, hkind⟩ := lookup_zip hseen hkey
      rw [hlookup]
      exact shape?_of_kindSeen hkind (hwatched key hkey) huntouched

end Shared

/-! ## What the check is good for -/

/-- What may be done to a key may be done to an absent one, with the same outcome. -/
theorem shapeAfter_none {c : Command} {before after : Option Shape}
    (h : c.shapeAfter before = .ok after) : c.shapeAfter none = .ok after := by
  cases c with
  | set key value ttl =>
    rcases ttl with _ | _ | seconds
    · exact h
    · exact h
    · exact h
  | hset key fields =>
    rcases before with _ | _ | _ | _
    · exact h
    · cases h
    · exact h
    · cases h
  | del key => exact h

/-- A check that was passed is passed again when keys have gone. -/
theorem check_of_gone {tx : Transaction} {shapes shapes' : String → Option Shape}
    (h : tx.check shapes = .ok ())
    (hgone : ∀ c ∈ tx, shapes' c.key = shapes c.key ∨ shapes' c.key = none) :
    tx.check shapes' = .ok () := by
  induction tx generalizing shapes shapes' with
  | nil => rfl
  | cons c tx ih =>
    rw [Transaction.check] at h ⊢
    cases hafter : c.shapeAfter (shapes c.key) with
    | error e =>
      rw [hafter] at h
      cases h
    | ok after =>
      have hafter' : c.shapeAfter (shapes' c.key) = .ok after := by
        rcases hgone c List.mem_cons_self with hsame | hnone
        · rw [hsame]
          exact hafter
        · rw [hnone]
          exact shapeAfter_none hafter
      rw [hafter] at h
      rw [hafter']
      refine ih h fun c' hc' => ?_
      split
      · exact .inl rfl
      · exact hgone c' (List.mem_cons_of_mem c hc')

theorem clamp_mul_lt (w : World) (seconds : Nat) :
    w.now.val + Request.clamp seconds * 1000 < 0x8000000000000000 := by
  have hnow := w.now.isLt
  unfold Request.clamp Request.greatestExpiry
  omega

theorem shape?_put (w : World) (key : String) (item : Item) :
    (w.put key (some item)).shape? =
      fun name => if name = key then some item.content.shape else w.shape? name := by
  funext name
  unfold World.shape?
  rw [World.items_put]
  split <;> rfl

/-- The server takes the deadline of every value that the check accepts. -/
theorem deadline?_of_shapeAfter {w : World} {key : String} {value : Bytes} {ttl : Option Nat}
    {before after : Option Shape} (h : (Command.set key value ttl).shapeAfter before = .ok after) :
    after = some .string ∧ ∃ deadline, w.deadline? (ttl.map Request.clamp) = some deadline := by
  rcases ttl with _ | _ | seconds
  · cases h
    exact ⟨rfl, none, rfl⟩
  · cases h
  · cases h
    have hpos : 0 < Request.clamp (seconds + 1) := by
      unfold Request.clamp Request.greatestExpiry
      omega
    exact ⟨rfl, _, if_pos ⟨hpos, clamp_mul_lt w (seconds + 1)⟩⟩

/-- The server sets the fields of every key that the check accepts for them. -/
theorem perform_setFields {w : World} {key : String} {fields : List (String × Bytes)}
    {after : Option Shape} (h : (Command.hset key fields).shapeAfter (w.shape? key) = .ok after) :
    after = some .hash ∧ ∃ (content : Fields) (deadline : Option Nat) (n : Int),
      w.perform (.setFields key fields) =
        some (.integer n, w.put key (some ⟨.hash content, deadline⟩)) := by
  rcases hitem : w.items key with _ | ⟨value | old | ⟨kind, hforeign⟩, deadline⟩
  all_goals simp only [World.shape?, hitem, Option.map_none, Option.map_some] at h
  all_goals cases h
  · refine ⟨rfl, Std.ExtTreeMap.insertMany ∅ fields, none, ?_⟩
    simp only [World.perform, hitem]
    exact ⟨_, rfl⟩
  · refine ⟨rfl, old.insertMany fields, deadline, ?_⟩
    simp only [World.perform, hitem]
    exact ⟨_, rfl⟩

/-- A command that the check accepts is carried out, and leaves the shape that the check follows. -/
theorem perform_of_shapeAfter {w : World} {c : Command} {after : Option Shape}
    (h : c.shapeAfter (w.shape? c.key) = .ok after) :
    ∃ reply w', w.perform (.ofCommand c) = some (reply, w') ∧ reply.hasError = false ∧
      w'.shape? = fun key => if key = c.key then after else w.shape? key := by
  cases c with
  | set key value ttl =>
    obtain ⟨rfl, deadline, hdeadline⟩ := deadline?_of_shapeAfter (w := w) h
    refine ⟨.status "OK", _, ?_, rfl, shape?_put w key ⟨.string value, deadline⟩⟩
    simp only [Request.ofCommand, World.perform, hdeadline, Option.map_some]
  | hset key fields =>
    obtain ⟨rfl, content, deadline, n, hperform⟩ := perform_setFields h
    exact ⟨_, _, hperform, rfl, shape?_put w key ⟨.hash content, deadline⟩⟩
  | del key =>
    cases h
    refine ⟨_, _, rfl, rfl, ?_⟩
    funext k
    change Option.map _ (if k ∈ [key] then none else w.items k) =
      if k = key then none else w.shape? k
    by_cases hk : k = key
    · rw [if_pos (List.mem_singleton.2 hk), if_pos hk]
      rfl
    · rw [if_neg fun hmem => hk (List.mem_singleton.1 hmem), if_neg hk]
      rfl

/-- A transaction that the check accepts is carried out, command by command. -/
theorem performs_of_check {w : World} {tx : Transaction} (h : tx.check w.shape? = .ok ()) :
    w.Performs (tx.map .ofCommand) ∧
      Reply.itemsHaveError (w.replies (tx.map .ofCommand)) = false := by
  induction tx generalizing w with
  | nil => exact ⟨trivial, rfl⟩
  | cons c tx ih =>
    rw [Transaction.check] at h
    cases hafter : c.shapeAfter (w.shape? c.key) with
    | error e =>
      rw [hafter] at h
      cases h
    | ok after =>
      obtain ⟨reply, w', hperform, hreply, hshape⟩ := perform_of_shapeAfter hafter
      have hstep : w.step (.own (.ofCommand c)) = w' := by simp only [World.step, hperform]; rfl
      rw [hafter] at h
      obtain ⟨hperforms, hreplies⟩ := ih (w := w') (by rw [hshape]; exact h)
      constructor
      · refine ⟨by rw [hperform]; rfl, ?_⟩
        rw [hstep]
        exact hperforms
      · rw [List.map_cons, World.replies, hperform, hstep, Reply.itemsHaveError]
        exact Bool.or_eq_false_iff.2 ⟨hreply, hreplies⟩

/-! ## The queue -/

theorem itemsHaveError_append (rs rs' : List Reply) :
    Reply.itemsHaveError (rs ++ rs') = (Reply.itemsHaveError rs || Reply.itemsHaveError rs') := by
  induction rs with
  | nil => rfl
  | cons r rs ih =>
    rw [List.cons_append, Reply.itemsHaveError, ih, Reply.itemsHaveError, Bool.or_assoc]

theorem ofReplies_ne_done {rs : List Reply} {reply : Reply}
    (h : reply = .error ∨ reply = .nil) : Remote.Outcome.ofReplies (rs ++ [reply]) ≠ .done := by
  intro hdone
  obtain ⟨-, items, hlast⟩ := Remote.ofReplies_eq_done_iff.1 hdone
  rw [List.getLast?_concat] at hlast
  rcases h with rfl | rfl
  · cases hlast
  · cases hlast

theorem ofReplies_eq_done {rs items : List Reply} (hrs : Reply.itemsHaveError rs = false)
    (hitems : Reply.itemsHaveError items = false) :
    Remote.Outcome.ofReplies (rs ++ [.array items]) = .done := by
  refine Remote.ofReplies_eq_done_iff.2 ⟨?_, items, List.getLast?_concat⟩
  rw [itemsHaveError_append, hrs, Reply.itemsHaveError, Reply.hasError, hitems]
  rfl

namespace Shared

variable {s : Shared}

theorem answerAll_append (before after : List Request) (s : Shared) :
    answerAll (before ++ after) s =
      ((answerAll before s).1 ++ (answerAll after (answerAll before s).2).1,
        (answerAll after (answerAll before s).2).2) := by
  induction before generalizing s with
  | nil => rfl
  | cons request before ih => simp only [List.cons_append, answerAll, ih]

/-- A command is queued, or spoils the queue. -/
theorem answer_ofCommand {queued : List Request} (hqueue : s.queue = some queued) (c : Command) :
    ∃ reply s', s.answer (.ofCommand c) = (reply, s') ∧ Later s s' ∧
      ((s'.spoiled = true ∧ s'.queue = some queued) ∨
        reply.hasError = false ∧ s'.spoiled = s.spoiled ∧
          s'.queue = some (queued ++ [.ofCommand c])) := by
  have hanswer : ∃ refuses : Bool, s.answer (.ofCommand c) =
      if refuses then (.error, { s.elapse with spoiled := true })
      else (.status "QUEUED", { s.elapse with queue := some (queued ++ [.ofCommand c]) }) := by
    simp only [answer, hqueue]
    cases c <;> exact ⟨_, rfl⟩
  obtain ⟨refuses, hanswer⟩ := hanswer
  rw [hanswer]
  split
  · exact ⟨_, _, rfl, (later_elapse s).of_queue _ _, .inl ⟨rfl, hqueue⟩⟩
  · exact ⟨_, _, rfl, (later_elapse s).of_queue _ _, .inr ⟨rfl, rfl, rfl⟩⟩

theorem answerAll_ofCommand {queued : List Request} (hqueue : s.queue = some queued)
    (tx : Transaction) :
    ∃ replies s', answerAll (tx.map .ofCommand) s = (replies, s') ∧ Later s s' ∧
      ((s'.spoiled = true ∧ ∃ queued', s'.queue = some queued') ∨
        Reply.itemsHaveError replies = false ∧ s'.spoiled = s.spoiled ∧
          s'.queue = some (queued ++ tx.map .ofCommand)) := by
  induction tx generalizing s queued with
  | nil => exact ⟨[], s, rfl, .refl s, .inr ⟨rfl, rfl, by simpa using hqueue⟩⟩
  | cons c tx ih =>
    obtain ⟨reply, mid, hanswer, hlater, hcase⟩ := answer_ofCommand hqueue c
    have hall : ∀ replies s', answerAll (tx.map .ofCommand) mid = (replies, s') →
        answerAll ((c :: tx).map .ofCommand) s = (reply :: replies, s') := by
      intro replies s' hrest
      simp only [List.map_cons, answerAll, hanswer, hrest]
    rcases hcase with ⟨hspoiled, hmid⟩ | ⟨hreply, hspoiled, hmid⟩
    · obtain ⟨replies, s', hrest, hlater', hcase'⟩ := ih hmid
      refine ⟨_, _, hall _ _ hrest, hlater.trans hlater', .inl ?_⟩
      rcases hcase' with hspoiled' | ⟨-, hspoiled', hqueue'⟩
      · exact hspoiled'
      · exact ⟨hspoiled'.trans hspoiled, _, hqueue'⟩
    · obtain ⟨replies, s', hrest, hlater', hcase'⟩ := ih hmid
      refine ⟨_, _, hall _ _ hrest, hlater.trans hlater', ?_⟩
      rcases hcase' with hspoiled' | ⟨hok, hspoiled', hqueue'⟩
      · exact .inl hspoiled'
      · refine .inr ⟨Bool.or_eq_false_iff.2 ⟨hreply, hok⟩, hspoiled'.trans hspoiled, ?_⟩
        rw [hqueue', List.append_assoc]
        rfl

/-- The end of a queue: the queue is dropped, or carried out if it was not spoiled and no watched
key has changed. -/
theorem answer_exec {queued : List Request} (hqueue : s.queue = some queued) :
    ∃ reply s', s.answer .exec = (reply, s') ∧ s'.queue = none ∧
      ((Elapsed s s' ∧ (reply = .error ∨ reply = .nil)) ∨
        ∃ mid, Later s mid ∧ s.spoiled = false ∧ mid.touched = false ∧ s'.start = mid.start ∧
          s'.past = mid.past ++ queued.map .own ∧ reply = .array (mid.world.replies queued)) := by
  have helapsed : Elapsed s s.elapse.finish := ⟨rfl, s.moment.happenings, rfl⟩
  simp only [answer, hqueue, answerQueueing, execute]
  split
  · exact ⟨_, _, rfl, rfl, .inl ⟨helapsed, .inl rfl⟩⟩
  · rename_i hspoiled
    split
    · exact ⟨_, _, rfl, rfl, .inl ⟨helapsed, .inr rfl⟩⟩
    · rename_i htouched
      have hspoiled' : s.spoiled = false :=
        (Bool.or_eq_false_iff.1 (Bool.eq_false_iff.2 hspoiled)).2
      exact ⟨_, _, rfl, rfl, .inr ⟨s.elapse, later_elapse s, hspoiled',
        Bool.eq_false_iff.2 htouched, rfl, rfl, rfl⟩⟩

/-- A whole queue: nothing is carried out, and the replies say so, or all of it is, while no watched
key has changed. -/
theorem answerAll_queue (hqueue : s.queue = none) (tx : Transaction) :
    ∃ replies s', answerAll (Remote.queue tx) s = (replies, s') ∧ s'.queue = none ∧
      ((Elapsed s s' ∧ Remote.Outcome.ofReplies replies ≠ .done) ∨
        ∃ mid, Later s mid ∧ mid.touched = false ∧ s'.start = mid.start ∧
          s'.past = mid.past ++ (tx.map .ofCommand).map .own ∧
          (Reply.itemsHaveError (mid.world.replies (tx.map .ofCommand)) = false →
            Remote.Outcome.ofReplies replies = .done)) := by
  have hmulti : s.answer .multi =
      (.status "OK", { s.elapse with queue := some [], spoiled := false }) := by
    simp only [answer, hqueue, answerAtOnce]
  have hbegun := (later_elapse s).of_queue (some []) false
  obtain ⟨rs, mid, hcommands, hlater, hcase⟩ := answerAll_ofCommand
    (s := { s.elapse with queue := some [], spoiled := false }) rfl tx
  have hmid : ∃ queued, mid.queue = some queued ∧
      (mid.spoiled = false → Reply.itemsHaveError rs = false ∧ queued = tx.map .ofCommand) := by
    rcases hcase with ⟨hspoiled, queued, hqueued⟩ | ⟨hok, -, hqueued⟩
    · exact ⟨queued, hqueued, fun h => by rw [hspoiled] at h; cases h⟩
    · exact ⟨_, hqueued, fun _ => ⟨hok, rfl⟩⟩
  obtain ⟨queued, hqueued, hunspoiled⟩ := hmid
  obtain ⟨reply, s', hexec, hqueue', hend⟩ := answer_exec hqueued
  have hall : answerAll (Remote.queue tx) s = (.status "OK" :: rs ++ [reply], s') := by
    unfold Remote.queue
    simp only [answerAll, hmulti, answerAll_append, hcommands, hexec, List.cons_append]
  refine ⟨_, s', hall, hqueue', ?_⟩
  rcases hend with ⟨helapsed, hreply⟩ |
    ⟨last, hlast, hspoiled, huntouched, hstart, hpast, rfl⟩
  · refine .inl ⟨?_, ofReplies_ne_done hreply⟩
    exact (hbegun.trans hlater).toElapsed.trans helapsed
  · obtain ⟨hok, rfl⟩ := hunspoiled hspoiled
    refine .inr ⟨last, (hbegun.trans hlater).trans hlast, huntouched, hstart, hpast, ?_⟩
    intro hreplies
    exact ofReplies_eq_done hok hreplies

/-! ## A whole commit -/

/-- A transaction has been carried out since: others acted, and then its commands were carried out
in a row, in their order, and none of them failed. -/
structure CarriedOut (tx : Transaction) (s s' : Shared) : Prop where
  start : s'.start = s.start
  past : ∃ hs : List Happening,
    s'.past = s.past ++ hs.map Event.other ++ (tx.map Request.ofCommand).map Event.own ∧
      ((s.past ++ hs.map Event.other).foldl World.step s.start).Performs (tx.map .ofCommand)

theorem CarriedOut.of_elapsed {tx : Transaction} {s t u : Shared} (h : Elapsed s t)
    (h' : CarriedOut tx t u) : CarriedOut tx s u := by
  obtain ⟨hs, hpast⟩ := h.past
  obtain ⟨hs', hpast', hperforms⟩ := h'.past
  have hall : s.past ++ (hs ++ hs').map Event.other = t.past ++ hs'.map Event.other := by
    rw [hpast, List.map_append, List.append_assoc]
  refine ⟨h'.start.trans h.start, hs ++ hs', ?_, ?_⟩
  · rw [hpast', hall]
  · rw [hall, ← h.start]
    exact hperforms

/-- What a round comes to, or a whole commit: either it is done and was carried out, or it is not
and nothing has happened but what others did. -/
structure Judged (tx : Transaction) (done : Prop) (s s' : Shared) : Prop where
  queue : s'.queue = none
  carriedOut : done → CarriedOut tx s s'
  elapsed : ¬ done → Elapsed s s'

theorem answer_watch (hqueue : s.queue = none) (keys : List String) :
    ∃ reply s', s.answer (.watch keys) = (reply, s') ∧ Elapsed s s' ∧ s'.queue = none ∧
      (reply.hasError = false → ∀ key ∈ keys, key ∈ s'.watched) := by
  have helapsed : Elapsed s { s.elapse with watched := s.elapse.watched ++ keys } :=
    ⟨rfl, s.moment.happenings, rfl⟩
  simp only [answer, hqueue, answerAtOnce]
  split
  · exact ⟨_, _, rfl, (later_elapse s).toElapsed, hqueue, fun h => by cases h⟩
  · exact ⟨_, _, rfl, helapsed, hqueue, fun _ key hkey => List.mem_append_right _ hkey⟩

theorem answer_unwatch (hqueue : s.queue = none) :
    ∃ reply s', s.answer .unwatch = (reply, s') ∧ Elapsed s s' ∧ s'.queue = none := by
  have helapsed : Elapsed s { s.elapse with watched := [], touched := false } :=
    ⟨rfl, s.moment.happenings, rfl⟩
  simp only [answer, hqueue, answerAtOnce]
  split
  · exact ⟨_, _, rfl, (later_elapse s).toElapsed, hqueue⟩
  · exact ⟨_, _, rfl, helapsed, hqueue⟩

end Shared

end Server

namespace Remote

open Server Shared

variable {r r' : Remote Shared}

theorem exchange_shared (requests : List Request) (s : Shared) :
    Server.exchange requests s = answerAll requests s := rfl

theorem exchange_shared_one (request : Request) (s : Shared) :
    Server.exchange [request] s = ([(s.answer request).1], (s.answer request).2) := rfl

/-- What a round finds out about its keys holds as long as no change is noticed. -/
theorem checkTypes_seen {tx : Transaction} {answer : Answer Unit}
    (hqueue : r.server.queue = none) (hwatched : ∀ key ∈ tx.keys, key ∈ r.server.watched)
    (hrun : (checkTypes tx).runOn r = (answer, r')) :
    Later r.server r'.server ∧ r'.server.queue = none ∧
      (answer = .ok () → ∃ shapes, tx.check shapes = .ok () ∧ Seen tx.keys shapes r'.server) := by
  obtain ⟨replies, s', hreplies, hlater, hqueue', hseen⟩ := seen_of_types hqueue hwatched
  rw [runOn_checkTypes, exchange_shared, hreplies] at hrun
  obtain ⟨hanswer, rfl⟩ := Prod.mk.inj hrun
  refine ⟨hlater, hqueue', fun hok => ?_⟩
  rw [hok] at hanswer
  split at hanswer
  · cases hanswer
  · rename_i shapes hshapes
    exact ⟨shapes, hanswer, hseen shapes hshapes⟩

/-- A queue whose commands the check has accepted is carried out as a whole, or not at all. -/
theorem queue_judged {tx : Transaction} {s s' : Shared} {shapes : String → Option Shape}
    {replies : List Reply} (hqueue : s.queue = none) (hcheck : tx.check shapes = .ok ())
    (hseen : Seen tx.keys shapes s) (hrun : answerAll (queue tx) s = (replies, s')) :
    Judged tx (Outcome.ofReplies replies = .done) s s' := by
  obtain ⟨replies', s'', hall, hqueue', hcase⟩ := answerAll_queue hqueue tx
  rw [hall] at hrun
  obtain ⟨rfl, rfl⟩ := Prod.mk.inj hrun
  rcases hcase with ⟨helapsed, houtcome⟩ | ⟨mid, hlater, huntouched, hstart, hpast, hdone⟩
  · exact ⟨hqueue', fun h => absurd h houtcome, fun _ => helapsed⟩
  · -- No watched key has changed but to be gone, so the check would still be passed.
    have hcheck' : tx.check mid.world.shape? = .ok () :=
      check_of_gone hcheck fun c hc =>
        (hseen.later hlater).shapes huntouched _ (Transaction.mem_keys.2 ⟨c, hc, rfl⟩)
    obtain ⟨hperforms, hreplies⟩ := performs_of_check hcheck'
    obtain ⟨hs, hpast'⟩ := hlater.past
    refine ⟨hqueue', fun _ => ⟨hstart.trans hlater.start, hs, ?_, ?_⟩, fun h => ?_⟩
    · rw [hpast, hpast']
    · rw [← hpast', ← hlater.start]
      exact hperforms
    · exact absurd (hdone hreplies) h

/-- One round: what was checked is carried out, or nothing is. -/
theorem commitRound_judged {tx : Transaction} {answer : Answer Outcome}
    (hqueue : r.server.queue = none) (hrun : (commitRound tx).runOn r = (answer, r')) :
    Judged tx (answer = .ok .done) r.server r'.server := by
  obtain ⟨reply, s₁, hwatch, helapsed, hqueue₁, hwatched⟩ := answer_watch hqueue tx.keys
  unfold commitRound at hrun
  rw [Action.runOn_bind, runOn_ask, exchange_shared_one, hwatch] at hrun
  cases hreply : reply.hasError with
  | true =>
    simp only [readReply, hreply, ↓reduceIte] at hrun
    obtain ⟨rfl, rfl⟩ := Prod.mk.inj hrun
    exact ⟨hqueue₁, (fun h => by cases h), fun _ => helapsed⟩
  | false =>
    simp only [readReply, hreply, anything, Bool.false_eq_true, ↓reduceIte] at hrun
    rw [Action.runOn_bind, Action.observe, Action.runOn_update] at hrun
    rcases hcheck : (checkTypes tx).runOn { r with server := s₁ } with ⟨found, mid⟩
    obtain ⟨hlater, hqueue₂, hseen⟩ := checkTypes_seen hqueue₁ (hwatched hreply) hcheck
    have hbefore := helapsed.trans hlater.toElapsed
    rw [hcheck] at hrun
    cases found with
    | error e =>
      obtain ⟨reply', s₃, hunwatch, helapsed', hqueue₃⟩ := answer_unwatch hqueue₂
      simp only [Action.runOn_bind, runOn_send, exchange_shared_one, hunwatch,
        Action.runOn_throw] at hrun
      obtain ⟨rfl, rfl⟩ := Prod.mk.inj hrun
      exact ⟨hqueue₃, (fun h => by cases h), fun _ => hbefore.trans helapsed'⟩
    | ok _ =>
      obtain ⟨shapes, hcheck, hseen⟩ := hseen rfl
      rcases hqueued : answerAll (queue tx) mid.server with ⟨replies, s₃⟩
      have hjudged := queue_judged hqueue₂ hcheck hseen hqueued
      simp only [Action.runOn_bind, runOn_send, exchange_shared, hqueued,
        Action.runOn_pure] at hrun
      obtain ⟨rfl, rfl⟩ := Prod.mk.inj hrun
      refine ⟨hjudged.queue, fun hdone => ?_, fun hnot => ?_⟩
      · exact (hjudged.carriedOut (Except.ok.inj hdone)).of_elapsed hbefore
      · exact hbefore.trans (hjudged.elapsed fun hdone => hnot (congrArg Except.ok hdone))

/-- Rounds that were overtaken have left nothing behind. -/
theorem commitWithin_judged {tx : Transaction} {key : String} {rounds : Nat} {answer : Answer Unit}
    (hqueue : r.server.queue = none) (hrun : (commitWithin tx key rounds).runOn r = (answer, r')) :
    Judged tx (answer = .ok ()) r.server r'.server := by
  induction rounds generalizing r with
  | zero =>
    cases hrun
    exact ⟨hqueue, nofun, fun _ => .refl _⟩
  | succ rounds ih =>
    unfold commitWithin at hrun
    rw [Action.runOn_bind] at hrun
    rcases hround : (commitRound tx).runOn r with ⟨found, mid⟩
    have hjudged := commitRound_judged hqueue hround
    rw [hround] at hrun
    cases found with
    | error e =>
      obtain ⟨rfl, rfl⟩ := Prod.mk.inj hrun
      exact ⟨hjudged.queue, nofun, fun _ => hjudged.elapsed nofun⟩
    | ok outcome =>
      cases outcome with
      | done =>
        obtain ⟨rfl, rfl⟩ := Prod.mk.inj hrun
        exact ⟨hjudged.queue, fun _ => hjudged.carriedOut rfl, fun h => absurd rfl h⟩
      | overtaken =>
        have helapsed := hjudged.elapsed nofun
        have hrest := ih hjudged.queue hrun
        exact ⟨hrest.queue, fun h => (hrest.carriedOut h).of_elapsed helapsed,
          fun h => helapsed.trans (hrest.elapsed h)⟩
      | failed =>
        obtain ⟨rfl, rfl⟩ := Prod.mk.inj hrun
        exact ⟨hjudged.queue, nofun, fun _ => hjudged.elapsed nofun⟩

/-- A commit on a shared server is all or nothing and happens at most once, whatever others do in
between.  If it succeeds, its commands were carried out in a row, in the order of staging, once, and
none of them failed; if it fails, none of them was carried out.  All else that has happened was not
done by this client. -/
theorem runOn_commit_shared (tx : Transaction) {r r' : Remote Shared} {answer : Answer Unit}
    (hqueue : r.server.queue = none) (hrun : (commit tx).runOn r = (answer, r')) :
    (answer = .ok () → CarriedOut tx r.server r'.server) ∧
      ∀ e, answer = .error e → Elapsed r.server r'.server := by
  cases tx with
  | nil =>
    cases hrun
    exact ⟨fun _ => ⟨rfl, [], by simp, trivial⟩, nofun⟩
  | cons c tx =>
    unfold commit at hrun
    rw [Action.runOn_bind] at hrun
    rcases hconnect : connect.runOn r with ⟨found, mid⟩
    have hserver : mid.server = r.server := keeps_connect.of_runOn hconnect
    rw [hconnect] at hrun
    cases found with
    | error e =>
      obtain ⟨rfl, rfl⟩ := Prod.mk.inj hrun
      refine ⟨nofun, fun _ _ => ?_⟩
      rw [hserver]
      exact .refl _
    | ok _ =>
      have hjudged := commitWithin_judged (hserver ▸ hqueue) hrun
      rw [hserver] at hjudged
      exact ⟨hjudged.carriedOut, fun e he => hjudged.elapsed (by rw [he]; nofun)⟩

/-- A commit of fields and of bytes, and a server whose hash another client removes when the fields
are checked but not yet written. -/
theorem runOn_commit_shared_overtaken :
    let tx : Transaction :=
      [.hset "users:lookup:mail" [("a@b", [1])], .set "users:u1" [2] (some 60)]
    let gone : Happening := .write "users:lookup:mail" none
    let r : Remote Shared := { server :=
      { start := ⟨fun key => if key = "users:lookup:mail" then some ⟨.hash ∅, none⟩ else none, 0⟩
        moments := [{}, {}, {}, { happenings := [gone] }] } }
    r.server.queue = none ∧ ((commit tx).runOn r).1 = .ok () ∧
      ∃ hs : List Happening, ((commit tx).runOn r).2.server.past =
        hs.map Event.other ++ [.own (.setFields "users:lookup:mail" [("a@b", [1])]),
          .own (.set "users:u1" [2] (some 60))] := by
  intro tx gone r
  have hok : ((commit tx).runOn r).1 = .ok () := by decide +kernel
  have hqueue : r.server.queue = none := rfl
  rcases hrun : (commit tx).runOn r with ⟨answer, r'⟩
  rw [hrun] at hok
  obtain ⟨hcarried, -⟩ := runOn_commit_shared tx hqueue hrun
  obtain ⟨hs, hpast, -⟩ := (hcarried hok).past
  exact ⟨hqueue, hok, hs, hpast⟩

end Remote

end SealedStore
