import SealedStore.Proofs.Envelope.Opening
import SealedStore.Proofs.Text.Hex

set_option autoImplicit false

/-!
# Wrapping what was unwrapped

A payload is unwrapped under the text of a tag exactly if it fits there (`Fits`); no other pair is
ever read.  Wrapping again what was unwrapped gives the pair one spelling: a natural number under
`float` gets the tag `uint`, and the digits of bytes are in lower case (`unwrap_normal`).
-/

namespace SealedStore

theorem Kind.name_injective {k l : Kind} (h : k.name = l.name) : k = l := by
  revert h
  cases k <;> cases l <;> decide

namespace Envelope

/-- What may stand under the text of a tag. -/
inductive Fits : (tag : String) → (payload : Json) → Prop
  /-- A signed 64-bit integer. -/
  | int {i : Int} (inRange : -0x8000000000000000 ≤ i ∧ i < 0x10000000000000000) :
      -0x8000000000000000 ≤ i → i < 0x8000000000000000 → Fits "int" (.number (.integer i inRange))
  /-- A text. -/
  | string (s : String) : Fits "string" (.text s)
  /-- Bytes in hexadecimal digits, in either case. -/
  | bytes {s : String} : Hex.IsText s → Fits "bytes" (.text s)
  /-- An integer that is not negative. -/
  | uint {i : Int} (inRange : -0x8000000000000000 ≤ i ∧ i < 0x10000000000000000) :
      0 ≤ i → Fits "uint" (.number (.integer i inRange))
  /-- A number of any kind. -/
  | float (n : Number) : Fits "float" (.number n)
  /-- A truth value. -/
  | bool (b : Bool) : Fits "bool" (.bool b)
  /-- The value `null`. -/
  | null : Fits "null" .null
  /-- An array. -/
  | array (items : List Json) : Fits "array" (.array items)
  /-- An object. -/
  | object (members : Record) : Fits "object" (.object members)

/-- The text of the tag that a pair gets in the end: a natural number is no `float`. -/
def normalTag (tag : String) : Json → String
  | .number (.integer i _) => if tag = "float" ∧ 0 ≤ i then "uint" else tag
  | _ => tag

/-- The payload that a pair gets in the end: the digits of bytes are in lower case. -/
def normalPayload (tag : String) : Json → Json
  | .text s => .text (if tag = "bytes" then s.toLower else s)
  | j => j

/-! ## What is unwrapped -/

/-- A payload that is refused is not of the type that its tag says. -/
theorem typeMismatch_of_unwrap {tag : Tag} {payload : Json} {e : StoreError}
    (h : unwrap tag payload = .error e) : ∃ detail, e = .typeMismatch detail := by
  unfold unwrap at h
  split at h
  · split at h
    · cases h
    · cases h
      exact ⟨_, rfl⟩
  · cases h
    exact ⟨_, rfl⟩
  · cases h
  · cases h
    exact ⟨_, rfl⟩
  · split at h
    · cases h
    · cases h
      exact ⟨_, rfl⟩
  · cases h
    exact ⟨_, rfl⟩
  · split_ifs at h <;> cases h
    · exact ⟨_, rfl⟩
    · exact ⟨_, rfl⟩

/-- A value of a kind fits under the name of the kind. -/
theorem fits_kind {payload : Json} (h : payload.kind ∈ Kind.structured) :
    Fits payload.kind.name payload := by
  cases payload with
  | null => exact .null
  | bool b => exact .bool b
  | number n =>
    cases n with
    | integer i inRange =>
      by_cases hi : 0 ≤ i
      · rw [Json.kind, if_pos hi]
        exact .uint inRange hi
      · rw [Json.kind, if_neg hi]
        exact .float _
    | double x => exact .float _
  | text s => exact absurd (show Kind.string ∈ Kind.structured from h) (by decide)
  | array items => exact .array items
  | object members => exact .object members

/-- A value of the kind `uint` is a number. -/
theorem fits_float {payload : Json} (h : payload.kind = .uint) : Fits "float" payload := by
  cases payload with
  | number n => exact .float n
  | _ => cases h

/-- What is unwrapped fits under its tag. -/
theorem fits_of_unwrap {tag : Tag} {payload : Json} {v : Value}
    (h : unwrap tag payload = .ok v) : Fits tag.text payload := by
  unfold unwrap at h
  split at h
  · split at h
    · rename_i inRange hi
      exact .int inRange inRange.1 hi
    · cases h
  · cases h
  · exact .string _
  · cases h
  · split at h
    · rename_i hdecode
      exact .bytes (Hex.exists_decode_iff.1 ⟨_, hdecode⟩)
    · cases h
  · cases h
  · rename_i name
    split_ifs at h with hname hfits
    rcases hfits with rfl | ⟨rfl, huint⟩
    · obtain ⟨k, hk, hname⟩ := List.mem_map.1 hname
      rw [Kind.name_injective hname] at hk
      exact fits_kind hk
    · exact fits_float huint

/-- An integer that fits under `int` is a signed one. -/
theorem Fits.lt_of_int {tag : String} {i : Int}
    {inRange : -0x8000000000000000 ≤ i ∧ i < 0x10000000000000000}
    (h : Fits tag (.number (.integer i inRange))) (htag : tag = "int") :
    i < 0x8000000000000000 := by
  cases h with
  | int _ _ hlt => exact hlt
  | uint => exact absurd htag (by decide)
  | float => exact absurd htag (by decide)

/-! ## What is wrapped again -/

/-- Under `float` stands a number of any kind. -/
theorem unwrap_float (n : Number) :
    unwrap (.kind "float") (.number n) = .ok (.structured (.number n)) := by
  have hkind : (Json.number n).kind.name = "float" ∨
      "float" = "float" ∧ (Json.number n).kind = .uint := by
    cases n with
    | integer i inRange => by_cases hi : 0 ≤ i <;> simp [Json.kind, Kind.name, hi]
    | double x => exact .inl rfl
  exact unwrap_kind (by decide) hkind

/-- The kind of a number. -/
theorem kind_number (n : Number) : (Json.number n).kind.name = normalTag "float" (.number n) := by
  cases n with
  | integer i inRange => by_cases hi : 0 ≤ i <;> simp [Json.kind, Kind.name, normalTag, hi]
  | double x => rfl

/-- What fits under a tag is unwrapped, to a value that has the pair in its normal form. -/
theorem Fits.unwraps {tag : String} {payload : Json} (h : Fits tag payload) :
    ∃ v, unwrap (.ofText tag) payload = .ok v ∧ v.reread = v ∧
      v.tag.text = normalTag tag payload ∧ payloadOf v = normalPayload tag payload := by
  cases h with
  | @int i inRange hlow hhigh =>
    exact ⟨.int i ⟨hlow, hhigh⟩, dif_pos hhigh, rfl, rfl, payloadOf_int _ inRange⟩
  | string s => exact ⟨.text s, rfl, rfl, rfl, rfl⟩
  | @bytes s hs =>
    obtain ⟨bs, hbs⟩ := Hex.exists_decode_iff.2 hs
    refine ⟨.bytes bs, ?_, rfl, rfl, ?_⟩
    · rw [show Tag.ofText "bytes" = .bytes from rfl]
      simp only [unwrap, hbs]
    · exact congrArg Json.text (Hex.toLower_of_decode hbs)
  | @uint i inRange hi =>
    have hkind : (Json.number (.integer i inRange)).kind = .uint := if_pos hi
    refine ⟨.structured (.number (.integer i inRange)), ?_, rfl, ?_, rfl⟩
    · have hunwrap := unwrap_structured (j := .number (.integer i inRange)) (by simp [hkind])
      rwa [hkind] at hunwrap
    · simp [Value.tag, Tag.text, hkind, normalTag, Kind.name]
  | float n => exact ⟨.structured (.number n), unwrap_float n, rfl, kind_number n, rfl⟩
  | bool b => exact ⟨.structured (.bool b), rfl, rfl, rfl, rfl⟩
  | null => exact ⟨.structured .null, rfl, rfl, rfl, rfl⟩
  | array items => exact ⟨.structured (.array items), rfl, rfl, rfl, rfl⟩
  | object members => exact ⟨.structured (.object members), rfl, rfl, rfl, rfl⟩

theorem reread_wrap {v : Value} (h : v.reread = v) (now : Instant) :
    (wrap v now).reread = wrap v now := by
  unfold reread
  rw [show (wrap v now).tag = v.tag from rfl, ofText_text_tag, h]
  rfl

/-- A value that is read back as it is opens from the envelope that it is wrapped in. -/
theorem value_wrap {v : Value} (h : v.reread = v) (now : Instant) :
    (wrap v now).value = .ok v := by
  have hvalue := value_reread_wrap v now
  rwa [reread_wrap h, h] at hvalue

/-- Wrapping again what was unwrapped under the text of a tag gives an envelope that opens to the
same value, also after it was written and read.  Its tag and payload are the given ones in normal
form: a natural number under `float` has the tag `uint`, the digits of bytes are in lower case, and
all else is unchanged.  A payload is unwrapped if it fits under the text of the tag, and refused as
a mismatch of types if it does not. -/
theorem unwrap_normal (tag : String) (payload : Json) :
    (∀ v, unwrap (.ofText tag) payload = .ok v → ∀ now,
      (wrap v now).value = .ok v ∧ (wrap v now).reread = .wrap v now ∧
        (wrap v now).tag.text = normalTag tag payload ∧
        (wrap v now).payload = normalPayload tag payload) ∧
    (Fits tag payload → ∃ v, unwrap (.ofText tag) payload = .ok v) ∧
    (¬ Fits tag payload →
      ∃ detail, unwrap (.ofText tag) payload = .error (.typeMismatch detail)) := by
  have hfits : ∀ v, unwrap (.ofText tag) payload = .ok v → Fits tag payload := by
    intro v hunwrap
    have hfound := fits_of_unwrap hunwrap
    rwa [Tag.text_ofText] at hfound
  refine ⟨?_, ?_, ?_⟩
  · intro v hunwrap now
    obtain ⟨found, hfound, hreread, htag, hpayload⟩ := (hfits v hunwrap).unwraps
    obtain rfl : found = v := Except.ok.inj (hfound.symm.trans hunwrap)
    exact ⟨value_wrap hreread now, reread_wrap hreread now, htag, hpayload⟩
  · intro hfit
    obtain ⟨v, hunwrap, -⟩ := hfit.unwraps
    exact ⟨v, hunwrap⟩
  · intro hfit
    cases hunwrap : unwrap (.ofText tag) payload with
    | ok v => exact absurd (hfits v hunwrap) hfit
    | error e =>
      obtain ⟨detail, rfl⟩ := typeMismatch_of_unwrap hunwrap
      exact ⟨detail, rfl⟩

/-- Digits in both cases are written in lower case, a natural number under `float` gets the tag
`uint`, and the least integer that is not signed is refused under `int`. -/
theorem unwrap_normal_spellings :
    let now : Instant := ⟨0⟩
    let large : Json := .number (.integer 0x8000000000000000 (by decide))
    unwrap (.ofText "bytes") (.text "0aF5") = .ok (.bytes [0x0A, 0xF5]) ∧
      (wrap (.bytes [0x0A, 0xF5]) now).payload = .text "0af5" ∧
      (∃ v, unwrap (.ofText "float") large = .ok v ∧
        (wrap v now).value = .ok v ∧ (wrap v now).tag.text = "uint") ∧
      ∃ detail, unwrap (.ofText "int") large = .error (.typeMismatch detail) := by
  intro now large
  have hbytes : unwrap (.ofText "bytes") (.text "0aF5") = .ok (.bytes [0x0A, 0xF5]) := by
    rfl
  obtain ⟨-, -, -, hpayload⟩ := (unwrap_normal "bytes" (.text "0aF5")).1 _ hbytes now
  obtain ⟨hnormal, hfits, -⟩ := unwrap_normal "float" large
  obtain ⟨v, hv⟩ := hfits (.float _)
  obtain ⟨hvalue, -, htag, -⟩ := hnormal v hv now
  have hlarge : ¬ Fits "int" large := fun hfit => absurd (hfit.lt_of_int rfl) (by decide)
  have hlower : "0aF5".toLower = "0af5" :=
    String.ext (String.toList_map.trans (by decide))
  refine ⟨hbytes, hpayload.trans (congrArg Json.text hlower), ⟨v, hv, hvalue, htag⟩, ?_⟩
  exact (unwrap_normal "int" large).2.2 hlarge

end Envelope

end SealedStore
