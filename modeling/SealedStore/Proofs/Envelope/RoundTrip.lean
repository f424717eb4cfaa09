import SealedStore.Proofs.Envelope.Opening
import SealedStore.Proofs.Json.Tree
import SealedStore.Proofs.Time.Timestamp

set_option autoImplicit false

/-!
# Envelopes as JSON text

An envelope whose payload has no floating-point numbers reads back from its JSON text if the payload
is nested at most 126 deep, and is refused if it is nested deeper (`unmarshal_chars`).  So every
value of that sort comes back from what it is written as (`read_write_ok`), and what is written of a
value that is nested deeper can never be read (`read_write`).
-/

namespace SealedStore

namespace Envelope

/-- An envelope as a JSON value, with its members in the order that they are written in. -/
def toJson (e : Envelope) : Json :=
  .object [("value_type", .text e.tag.text), ("value", e.payload),
    ("timestamp", .text e.timestamp.render)]

theorem chars_toJson (e : Envelope) : e.toJson.chars = e.chars := by
  have htag : "\x7b\"value_type\":".toList = '{' :: (Json.quoted "value_type" ++ [':']) := rfl
  have hvalue : ",\"value\":".toList = ',' :: (Json.quoted "value" ++ [':']) := rfl
  have htimestamp : ",\"timestamp\":".toList = ',' :: (Json.quoted "timestamp" ++ [':']) := rfl
  unfold chars toJson
  rw [htag, hvalue, htimestamp]
  simp only [Json.chars, Json.membersChars, Json.moreMembersChars, Json.memberChars,
    List.append_assoc, List.cons_append, List.nil_append]

theorem text?_quoted_pieces (s : String) : (Tree.quoted (Json.pieces s)).text? = some s := by
  rw [Tree.text?, Piece.text?_pieces, Option.map_some, String.ofList_toList]

/-- The three parts of a written envelope are the envelope again, unless its payload is nested too
deep. -/
theorem ofParts?_toTree {e : Envelope} (h : e.payload.Integral) (hc : e.payload.Canonical)
    (htime : Timestamp.read? e.timestamp.render = some e.timestamp) :
    ofParts? (.quoted (Json.pieces e.tag.text)) e.payload.toTree
        (.quoted (Json.pieces e.timestamp.render)) =
      if e.payload.depth ≤ 126 then some e.reread else none := by
  have hpayload : e.payload.toTree.toJson? (Json.maxDepth - 1) =
      if e.payload.depth ≤ 126 then some e.payload else none := Tree.toJson?_toTree 126 _ h hc
  unfold ofParts?
  rw [text?_quoted_pieces, text?_quoted_pieces, hpayload]
  by_cases hdepth : e.payload.depth ≤ 126
  · rw [if_pos hdepth, if_pos hdepth]
    simp [htime, reread]
  · rw [if_neg hdepth, if_neg hdepth]
    rfl

/-- The tree of a written envelope has the three parts under their names. -/
theorem ofTree?_toTree (e : Envelope) :
    ofTree? e.toJson.toTree = ofParts? (.quoted (Json.pieces e.tag.text)) e.payload.toTree
      (.quoted (Json.pieces e.timestamp.render)) := by
  have htree : e.toJson.toTree =
      .object [(Json.pieces "value_type", .quoted (Json.pieces e.tag.text)),
        (Json.pieces "value", e.payload.toTree),
        (Json.pieces "timestamp", .quoted (Json.pieces e.timestamp.render))] := rfl
  rw [htree]
  simp [ofTree?, Piece.text?_pieces, only?]

end Envelope

/-- An integer is a value without floating-point numbers that nothing is nested in. -/
theorem Json.ofInt_plain (i : Int) :
    (Json.ofInt i).Integral ∧ (Json.ofInt i).Canonical ∧ (Json.ofInt i).depth ≤ 126 := by
  unfold Json.ofInt Number.ofInt?
  split <;> exact ⟨trivial, trivial, Nat.zero_le _⟩

namespace Codec

/-- A written envelope reads back if its payload is nested at most 126 deep, and is refused if the
payload is nested deeper. -/
theorem unmarshal_chars {e : Envelope} (h : e.payload.Integral) (hc : e.payload.Canonical)
    (htime : Timestamp.read? e.timestamp.render = some e.timestamp) :
    json.unmarshal (Utf8.encode (String.ofList e.chars)) =
      if e.payload.depth ≤ 126 then .ok e.reread else .error (.serialization .malformed) := by
  have htree : Tree.read? (Utf8.encode (String.ofList e.chars)) = some e.toJson.toTree := by
    rw [← e.chars_toJson]
    exact Tree.read?_render ⟨trivial, h, trivial, trivial⟩
  have hparts : (Tree.read? (Utf8.encode (String.ofList e.chars))).bind Envelope.ofTree? =
      if e.payload.depth ≤ 126 then some e.reread else none := by
    rw [htree, Option.bind_some, Envelope.ofTree?_toTree, Envelope.ofParts?_toTree h hc htime]
  simp only [json, hparts]
  by_cases hdepth : e.payload.depth ≤ 126
  · simp only [if_pos hdepth]
  · simp only [if_neg hdepth]

/-- Looking at what was written refuses no text. -/
theorem checked_write_text (call : Nat) {now : Instant} (hnow : now.Datable) (text : String) :
    ∃ bs, json.checked.write call now (.text text) = .ok bs := by
  have hdepth : (Envelope.wrap (.text text) now).payload.depth ≤ 126 := Nat.zero_le 126
  have hread := unmarshal_chars (e := .wrap (.text text) now) trivial trivial
    (Timestamp.read?_render_ofInstant hnow)
  rw [if_pos hdepth] at hread
  exact ⟨_, checked_marshal rfl hread⟩

/-- Writing never fails. -/
theorem json_write_ok (call : Nat) (now : Instant) (v : Value) :
    ∃ bs, json.write call now v = .ok bs :=
  ⟨_, rfl⟩

/-- The bytes that a value was written as are read as the value, or refused when its payload is
nested too deep. -/
theorem json_read_of_write {call : Nat} {now : Instant} {v : Value} {bs : Bytes}
    (hnow : now.Datable) (h : (Envelope.payloadOf v).Integral)
    (hc : (Envelope.payloadOf v).Canonical) (hwrite : json.write call now v = .ok bs) :
    json.read bs =
      if (Envelope.payloadOf v).depth ≤ 126 then .ok v.reread
      else .error (.serialization .malformed) := by
  obtain rfl : Utf8.encode (String.ofList (Envelope.wrap v now).chars) = bs :=
    Except.ok.inj hwrite
  have hpayload : (Envelope.wrap v now).payload = Envelope.payloadOf v := rfl
  have hread := unmarshal_chars (e := .wrap v now) h hc (Timestamp.read?_render_ofInstant hnow)
  unfold Codec.read
  rw [hread, hpayload]
  by_cases hdepth : (Envelope.payloadOf v).depth ≤ 126
  · rw [if_pos hdepth, if_pos hdepth]
    exact Envelope.value_reread_wrap v now
  · rw [if_neg hdepth, if_neg hdepth]
    rfl

/-- Every value comes back from what it is written as: integers, texts and bytes whatever they are,
and structured values whose numbers are integers and which are nested at most 126 deep.  Only a JSON
text that was handed in as structured comes back as a text. -/
theorem read_write_reread (call : Nat) {now : Instant} (hnow : now.Datable) {v : Value}
    (h : ∀ j, v = .structured j → j.Integral ∧ j.Canonical ∧ j.depth ≤ 126) :
    (json.write call now v).bind json.read = .ok v.reread := by
  obtain ⟨hintegral, hcanonical, hdepth⟩ : (Envelope.payloadOf v).Integral ∧
      (Envelope.payloadOf v).Canonical ∧ (Envelope.payloadOf v).depth ≤ 126 := by
    cases v with
    | int i inRange => exact Json.ofInt_plain i
    | text s => exact ⟨trivial, trivial, Nat.zero_le _⟩
    | bytes bs => exact ⟨trivial, trivial, Nat.zero_le _⟩
    | structured j => exact h j rfl
  obtain ⟨bs, hwrite⟩ := json_write_ok call now v
  rw [hwrite, Except.bind, json_read_of_write hnow hintegral hcanonical hwrite, if_pos hdepth]

/-- One nanosecond before 1970 a structured value is written: its names and texts need escapes and
four bytes for a character, and its integers are the least and the greatest there are. -/
theorem read_write_reread_assorted :
    let now : Instant := ⟨-1⟩
    let j : Json := .object
      [("\x00\"\\", .array [.null, .bool true, .number (.integer (-0x8000000000000000) (by decide)),
        .number (.integer 0xFFFFFFFFFFFFFFFF (by decide))]), ("é\x1f", .object [("😀", .text "\n")])]
    now.Datable ∧ j.Integral ∧ j.Canonical ∧ j.depth = 2 ∧
      (json.write 0 now (.structured j)).bind json.read = .ok (.structured j) := by
  intro now j
  have hnow : now.Datable := by decide
  have hintegral : j.Integral :=
    ⟨⟨trivial, trivial, trivial, trivial, trivial⟩, ⟨trivial, trivial⟩, trivial⟩
  have hcanonical : j.Canonical :=
    ⟨List.pairwise_pair.2 (by decide), ⟨trivial, trivial, trivial, trivial, trivial⟩,
      ⟨List.pairwise_singleton _ _, trivial, trivial⟩, trivial⟩
  refine ⟨hnow, hintegral, hcanonical, rfl, read_write_reread 0 hnow ?_⟩
  rintro _ ⟨⟩
  exact ⟨hintegral, hcanonical, by decide⟩

end Codec

end SealedStore
