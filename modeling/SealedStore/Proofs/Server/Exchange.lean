import SealedStore.Proofs.Action
import SealedStore.Server.Remote

set_option autoImplicit false

/-!
# Exchanges with a server

What the parts of a remote operation come to, whatever the server: sending requests together, asking
a single one, asking for the types of the keys of a transaction, and telling the outcome of a queue.
-/

namespace SealedStore

namespace Transaction

/-! ## The keys of a transaction -/

theorem mem_foldl_keys {tx : Transaction} {ks : List String} {key : String} :
    key ∈ tx.foldl (fun ks c => if c.key ∈ ks then ks else ks ++ [c.key]) ks ↔
      key ∈ ks ∨ ∃ c ∈ tx, c.key = key := by
  induction tx generalizing ks with
  | nil => simp
  | cons c tx ih =>
    simp only [List.foldl_cons, ih, List.mem_cons, exists_eq_or_imp, ← or_assoc]
    refine or_congr_left ?_
    split
    · rename_i hmem
      exact ⟨.inl, fun h => h.elim id fun he => he ▸ hmem⟩
    · rw [List.mem_append, List.mem_singleton, eq_comm]

/-- A transaction lists the keys of its commands. -/
theorem mem_keys {tx : Transaction} {key : String} : key ∈ tx.keys ↔ ∃ c ∈ tx, c.key = key := by
  rw [keys, mem_foldl_keys, or_iff_right List.not_mem_nil]

/-- Keys stand in the order of their first places in a list of names. -/
def InOrderOfUse (names keys : List String) : Prop :=
  keys.Pairwise fun a b => names.idxOf a < names.idxOf b

theorem InOrderOfUse.nodup {names keys : List String} (h : InOrderOfUse names keys) : keys.Nodup :=
  h.imp fun hlt he => absurd hlt (by rw [he]; exact Nat.lt_irrefl _)

theorem InOrderOfUse.append {names keys rest : List String} (h : InOrderOfUse names keys)
    (hmem : ∀ key ∈ keys, key ∈ names) : InOrderOfUse (names ++ rest) keys := by
  refine h.imp_of_mem fun ha hb hlt => ?_
  rwa [List.idxOf_append_of_mem (hmem _ ha), List.idxOf_append_of_mem (hmem _ hb)]

theorem inOrderOfUse_foldl {tx : Transaction} {names ks : List String}
    (h : InOrderOfUse names ks) (hmem : ∀ key, key ∈ ks ↔ key ∈ names) :
    InOrderOfUse (names ++ tx.map Command.key)
      (tx.foldl (fun ks c => if c.key ∈ ks then ks else ks ++ [c.key]) ks) := by
  induction tx generalizing names ks with
  | nil => rwa [List.map_nil, List.append_nil]
  | cons c tx ih =>
    have hkeep : InOrderOfUse (names ++ [c.key]) ks := h.append fun key => (hmem key).1
    rw [List.map_cons, List.append_cons, List.foldl_cons]
    split
    · rename_i hold
      refine ih hkeep fun key => ?_
      rw [List.mem_append, ← hmem, List.mem_singleton]
      exact ⟨.inl, fun h => h.elim id fun he => he ▸ hold⟩
    · rename_i hnew
      refine ih (List.pairwise_append.2 ⟨hkeep, List.pairwise_singleton _ _, ?_⟩) fun key => ?_
      · -- A new name comes after every name that was used before.
        intro a ha b hb
        rw [List.mem_singleton.1 hb, List.idxOf_append_of_mem ((hmem a).1 ha),
          List.idxOf_append_of_notMem fun h => hnew ((hmem _).2 h)]
        exact Nat.lt_add_right _ (List.idxOf_lt_length_of_mem ((hmem a).1 ha))
      · rw [List.mem_append, List.mem_append, hmem]

/-- A transaction lists each key once, in the order of first use. -/
theorem keys_inOrderOfUse (tx : Transaction) : InOrderOfUse (tx.map Command.key) tx.keys := by
  have hnone : InOrderOfUse [] [] := .nil
  exact inOrderOfUse_foldl hnone fun _ => .rfl

end Transaction

namespace Remote

open Server

variable {σ α : Type}

/-! ## Requests and replies -/

theorem runOn_connect (r : Remote σ) :
    connect.runOn r =
      if r.link = .closed then (.error (.pool "Pool has been closed"), r)
      else (.ok (), { r with link := .connected }) := by
  unfold connect
  rw [Action.runOn_attempt]
  by_cases hclosed : r.link = .closed
  · rw [if_pos hclosed, if_pos hclosed]
  · rw [if_neg hclosed, if_neg hclosed]

theorem keeps_connect : (connect : Action (Remote σ) Unit).Keeps Remote.server := by
  intro r
  rw [runOn_connect]
  split <;> rfl

/-- A reply is read if it is the only one, holds no error and has the form that is asked for. -/
theorem readReply_eq_ok {read : Reply → Option α} {replies : List Reply} {a : α} :
    readReply read replies = .ok a ↔
      ∃ reply, replies = [reply] ∧ reply.hasError = false ∧ read reply = some a := by
  rcases replies with _ | ⟨reply, _ | ⟨other, rest⟩⟩
  · simp [readReply]
  · cases herror : reply.hasError <;> cases hread : read reply <;> simp [readReply, herror, hread]
  · simp [readReply]

variable [Server σ]

theorem runOn_send (requests : List Request) (r : Remote σ) :
    (send requests).runOn r =
      (.ok (Server.exchange requests r.server).1,
        { r with server := (Server.exchange requests r.server).2 }) := rfl

theorem runOn_ask (request : Request) (read : Reply → Option α) (r : Remote σ) :
    (ask request read).runOn r =
      (readReply read (Server.exchange [request] r.server).1,
        { r with server := (Server.exchange [request] r.server).2 }) := rfl

theorem runOn_checkTypes (tx : Transaction) (r : Remote σ) :
    (checkTypes tx).runOn r =
      (match shapes? tx.keys (Server.exchange (tx.keys.map .type) r.server).1 with
        | none => .error refused
        | some shapes => tx.check shapes,
        { r with server := (Server.exchange (tx.keys.map .type) r.server).2 }) := rfl

/-! ## The outcome of a queue -/

theorem ofReplies_eq_done_iff {replies : List Reply} :
    Outcome.ofReplies replies = .done ↔
      Reply.itemsHaveError replies = false ∧ ∃ items, replies.getLast? = some (.array items) := by
  unfold Outcome.ofReplies
  cases Reply.itemsHaveError replies with
  | true => simp
  | false =>
    rcases replies.getLast? with _ | reply
    · simp
    · cases reply <;> simp

theorem ofReplies_eq_overtaken_iff {replies : List Reply} :
    Outcome.ofReplies replies = .overtaken ↔
      Reply.itemsHaveError replies = false ∧ replies.getLast? = some .nil := by
  unfold Outcome.ofReplies
  cases Reply.itemsHaveError replies with
  | true => simp
  | false =>
    rcases replies.getLast? with _ | reply
    · simp
    · cases reply <;> simp

end Remote

end SealedStore
