import SealedStore.Proofs.Server.Exchange
import SealedStore.Proofs.Text.ByteOrder
import SealedStore.Server.Script

set_option autoImplicit false

/-!
# Scans page by page

A scan asks for the page at cursor zero and then for the page at each cursor that it is given, until
it is given cursor zero again.  The keys on these pages are listed once each, in the order of their
bytes (`runOn_scan_pages`).
-/

namespace SealedStore

namespace Server.Reply

/-! ## Replies that can be read -/

theorem hasError_of_text? {r : Reply} {s : String} (h : r.text? = some s) : r.hasError = false := by
  cases r with
  | integer _ | status _ | bulk _ => rfl
  | nil | array _ | error => cases h

theorem itemsHaveError_of_texts {rs : List Reply} {texts : List String}
    (h : rs.mapM text? = some texts) : itemsHaveError rs = false := by
  induction rs generalizing texts with
  | nil => rfl
  | cons r rs ih =>
    rw [List.mapM_cons] at h
    obtain ⟨s, hs, h⟩ := Option.bind_eq_some_iff.1 h
    obtain ⟨rest, hrest, -⟩ := Option.bind_eq_some_iff.1 h
    rw [itemsHaveError, hasError_of_text? hs, ih hrest]
    rfl

theorem hasError_of_texts? {r : Reply} {texts : List String} (h : r.texts? = some texts) :
    r.hasError = false := by
  cases r with
  | nil | bulk _ => rfl
  | array items => exact itemsHaveError_of_texts h
  | integer _ | status _ | error => cases h

theorem hasError_of_natural? {r : Reply} {bound n : Nat} (h : r.natural? bound = some n) :
    r.hasError = false := by
  cases r with
  | integer _ | status _ | bulk _ => rfl
  | nil | array _ | error => cases h

/-- A page holds no error. -/
theorem hasError_of_page? {r : Reply} {page : Nat × List String} (h : r.page? = some page) :
    r.hasError = false := by
  unfold page? at h
  split at h
  · obtain ⟨cursor, hcursor, h⟩ := Option.bind_eq_some_iff.1 h
    obtain ⟨keys, hkeys, -⟩ := Option.bind_eq_some_iff.1 h
    simp only [hasError, itemsHaveError, hasError_of_natural? hcursor, hasError_of_texts? hkeys,
      Bool.or_false]
  · cases h

end Server.Reply

namespace Remote

open Server

variable {r : Remote Script} (pattern : String)

/-- A page that comes next in the script is read. -/
theorem runOn_ask_page (cursor : Nat) {reply : Reply} {rest : List Line}
    {page : Nat × List String} (hqueueing : r.server.queueing = false)
    (hlines : r.server.lines = .reply reply :: rest) (hpage : reply.page? = some page) :
    ∃ mid, (ask (.scan cursor pattern) Reply.page?).runOn r = (.ok page, mid) ∧
      mid.server.queueing = false ∧ mid.server.lines = rest ∧
      mid.server.sent = .scan cursor pattern :: r.server.sent := by
  have hanswer : Server.exchange [.scan cursor pattern] r.server =
      ([reply],
        { r.server with lines := rest, sent := .scan cursor pattern :: r.server.sent }) := by
    simp [Server.exchange, Script.answerAll, Script.answer, Script.next, hqueueing, hlines]
  have hread : readReply Reply.page? [reply] = .ok page :=
    readReply_eq_ok.2 ⟨reply, rfl, Reply.hasError_of_page? hpage, hpage⟩
  rw [runOn_ask, hanswer, hread]
  exact ⟨_, rfl, hqueueing, rfl, rfl⟩

/-- Replies that read as pages. -/
abbrev ArePages : List Reply → List (Nat × List String) → Prop :=
  List.Forall₂ fun reply page => reply.page? = some page

/-- The pages from a cursor on, up to the first one that leads to cursor zero. -/
theorem runOn_collect (cursor : Nat) {replies : List Reply} {rest : List Line}
    {more : List (Nat × List String)} {last : List String} {pages : Nat}
    (hqueueing : r.server.queueing = false)
    (hlines : r.server.lines = replies.map .reply ++ rest)
    (hpages : ArePages replies (more ++ [(0, last)])) (hmore : ∀ page ∈ more, page.1 ≠ 0)
    (henough : more.length < pages) :
    ∃ r', (collect pattern pages cursor).runOn r =
        (.ok ((more ++ [(0, last)]).flatMap Prod.snd), r') ∧
      r'.server.sent =
        ((cursor :: more.map Prod.fst).map (.scan · pattern)).reverse ++ r.server.sent ∧
      r'.server.lines = rest := by
  induction more generalizing r replies pages cursor with
  | nil =>
    obtain ⟨pages, rfl⟩ := Nat.exists_eq_succ_of_ne_zero (Nat.ne_zero_of_lt henough)
    rcases hpages with _ | ⟨hpage, _ | _⟩
    obtain ⟨mid, hask, -, hlines, hsent⟩ := runOn_ask_page pattern cursor hqueueing hlines hpage
    refine ⟨mid, ?_, hsent, hlines⟩
    rw [collect, Action.runOn_bind, hask]
    simp
  | cons page more ih =>
    obtain ⟨pages, rfl⟩ := Nat.exists_eq_succ_of_ne_zero (Nat.ne_zero_of_lt henough)
    rcases hpages with _ | ⟨hpage, hrest⟩
    obtain ⟨mid, hask, hqueueing, hlines, hsent⟩ :=
      runOn_ask_page pattern cursor hqueueing hlines hpage
    obtain ⟨hnext, hmore⟩ := List.forall_mem_cons.1 hmore
    obtain ⟨r', hrun, hsent', hlines'⟩ :=
      ih page.1 hqueueing hlines hrest hmore (Nat.lt_of_succ_lt_succ henough)
    refine ⟨r', ?_, ?_, hlines'⟩
    · rw [collect, Action.runOn_bind, hask]
      simp only [if_neg hnext, Action.runOn_bind, hrun, Action.runOn_pure]
      rfl
    · rw [hsent', hsent]
      simp

/-- Keys that are put in order stand in the order of their bytes. -/
theorem pairwise_inOrder (keys : List String) :
    (Std.ExtTreeSet.ofList keys).toList.Pairwise fun a b => Utf8.encode a < Utf8.encode b := by
  refine Std.ExtTreeSet.ordered_toList.imp fun hlt => ?_
  exact Utf8.encode_lt_encode.2 (compareOfLessAndEq_eq_lt.1 hlt)

theorem mem_inOrder {keys : List String} {key : String} :
    key ∈ (Std.ExtTreeSet.ofList keys).toList ↔ key ∈ keys := by
  rw [Std.ExtTreeSet.mem_toList, Std.ExtTreeSet.mem_ofList, List.contains_iff_mem]

/-- A scan reads the pages of a server up to the first one that leads to cursor zero.  It asks for
the page at cursor zero and then for the page at each cursor that it is given, always with the same
pattern and for the same number of keys, and for nothing else.  It lists the keys of these pages,
each once, in the order of their bytes. -/
theorem runOn_scan_pages {replies : List Reply} {rest : List Line}
    {more : List (Nat × List String)} {last : List String} (hopen : r.link ≠ .closed)
    (hqueueing : r.server.queueing = false) (hlines : r.server.lines = replies.map .reply ++ rest)
    (hpages : ArePages replies (more ++ [(0, last)])) (hmore : ∀ page ∈ more, page.1 ≠ 0) :
    ∃ keys r', (scan pattern).runOn r = (.ok keys, r') ∧
      r'.server.sent =
        ((0 :: more.map Prod.fst).map (.scan · pattern)).reverse ++ r.server.sent ∧
      (∀ cursor, (Request.scan cursor pattern).words =
        [Utf8.encode "SCAN", Request.number cursor, Utf8.encode "MATCH", Utf8.encode pattern,
          Utf8.encode "COUNT", Utf8.encode "200"]) ∧
      r'.server.lines = rest ∧
      keys.Pairwise (fun a b => Utf8.encode a < Utf8.encode b) ∧
      ∀ key, key ∈ keys ↔ ∃ page ∈ more ++ [(0, last)], key ∈ page.2 := by
  have hreplies : replies.length = more.length + 1 := by simpa using hpages.length_eq
  have henough : more.length < r.server.lines.length + 1 := by
    rw [hlines, List.length_append, List.length_map]
    omega
  obtain ⟨r', hrun, hsent, hlines'⟩ := runOn_collect (r := { r with link := .connected })
    pattern 0 hqueueing hlines hpages hmore henough
  refine ⟨_, r', ?_, hsent, fun cursor => rfl, hlines', pairwise_inOrder _, fun key =>
    mem_inOrder.trans List.mem_flatMap⟩
  unfold scan
  rw [Action.runOn_bind, runOn_connect, if_neg hopen]
  simp only [Action.runOn_bind, Action.runOn_get, Server.pages, hrun, Action.runOn_pure]

/-- Keys that come twice, an empty page, a cursor that comes again, and a reply that is left. -/
theorem runOn_scan_pages_repeated :
    let page (cursor : String) (keys : List String) : Reply :=
      .array [.bulk (Utf8.encode cursor), .array (keys.map fun key => .bulk (Utf8.encode key))]
    let left : List Line := [.reply (page "5" ["c"])]
    let r : Remote Script := { server := { lines :=
      [page "7" ["b", "é"], page "9" [], page "7" ["b", "a"], page "0" ["a"]].map .reply ++ left } }
    ((scan "*").runOn r).1 = .ok ["a", "b", "é"] ∧
      ((scan "*").runOn r).2.server.sent.reverse =
        [.scan 0 "*", .scan 7 "*", .scan 9 "*", .scan 7 "*"] ∧
      ((scan "*").runOn r).2.server.lines = left := by
  intro page left r
  have hpages : ArePages [page "7" ["b", "é"], page "9" [], page "7" ["b", "a"], page "0" ["a"]]
      ([(7, ["b", "é"]), (9, []), (7, ["b", "a"])] ++ [(0, ["a"])]) :=
    .cons (by decide +kernel) (.cons (by decide +kernel) (.cons (by decide +kernel)
      (.cons (by decide +kernel) .nil)))
  obtain ⟨keys, r', hrun, hsent, -, hleft, -⟩ :=
    runOn_scan_pages "*" (r := r) (by decide) rfl rfl hpages (by decide)
  refine ⟨by decide +kernel, ?_, ?_⟩
  · rw [hrun, hsent]
    rfl
  · rw [hrun, hleft]

end Remote

end SealedStore
