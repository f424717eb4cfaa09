import SealedStore.Envelope.Codec

set_option autoImplicit false

/-!
# Opening what was wrapped

A value that is wrapped, written by a codec and read again comes back as it was, but for one case: a
JSON text that was handed in as structured comes back as a text.  The only demand on the codec is
that it reads back what it wrote.
-/

namespace SealedStore

namespace Hex

/-- The byte of a digit. -/
def digitByte (n : Nat) : UInt8 := UInt8.ofNat (digit n).toNat

theorem utf8EncodeChar_digit :
    ∀ n ∈ List.range 16, String.utf8EncodeChar (digit n) = [digitByte n] := by
  decide

theorem value?_digitByte :
    ∀ n ∈ List.range 16, value? (Char.ofNat (digitByte n).toNat) = some n := by
  decide

theorem digitAt_digitByte {n : Nat} (h : n < 16) (index : Nat) :
    decodeBytes.digitAt index (digitByte n) = .ok n := by
  have hvalue := value?_digitByte n (List.mem_range.2 h)
  simp only [decodeBytes.digitAt, hvalue]

/-- The bytes of hexadecimal text, two for each byte that is written. -/
theorem encodeChars_bytes (b : UInt8) (rest : Bytes) :
    (encodeChars (b :: rest)).flatMap String.utf8EncodeChar =
      digitByte (b.toNat / 16) :: digitByte (b.toNat % 16) ::
        (encodeChars rest).flatMap String.utf8EncodeChar := by
  have hb : b.toNat < 256 := b.toNat_lt
  have hhigh : b.toNat / 16 ∈ List.range 16 := List.mem_range.2 (by omega)
  have hlow : b.toNat % 16 ∈ List.range 16 := List.mem_range.2 (by omega)
  simp only [encodeChars, List.flatMap_cons, utf8EncodeChar_digit _ hhigh,
    utf8EncodeChar_digit _ hlow, List.cons_append, List.nil_append]

theorem length_encodeChars_bytes (bs : Bytes) :
    ((encodeChars bs).flatMap String.utf8EncodeChar).length = 2 * bs.length := by
  induction bs with
  | nil => rfl
  | cons b rest ih =>
    rw [encodeChars_bytes, List.length_cons, List.length_cons, ih, List.length_cons]
    omega

theorem decodeBytes_encodeChars (bs : Bytes) (index : Nat) :
    decodeBytes index ((encodeChars bs).flatMap String.utf8EncodeChar) = .ok bs := by
  induction bs generalizing index with
  | nil => rfl
  | cons b rest ih =>
    have hb : b.toNat < 256 := b.toNat_lt
    have hhigh := digitAt_digitByte (show b.toNat / 16 < 16 by omega) index
    have hlow := digitAt_digitByte (show b.toNat % 16 < 16 by omega) (index + 1)
    have hvalue : b.toNat / 16 * 16 + b.toNat % 16 = b.toNat := by omega
    rw [encodeChars_bytes, decodeBytes, hhigh, hlow, ih]
    simp only [bind, Except.bind, pure, Except.pure, hvalue, UInt8.ofNat_toNat]

/-- Hexadecimal text reads back. -/
theorem decode_encode (bs : Bytes) : decode (encode bs) = .ok bs := by
  have hbytes : Utf8.encode (encode bs) = (encodeChars bs).flatMap String.utf8EncodeChar := by
    simp only [Utf8.encode, encode, String.toList_ofList]
  have heven : ¬ ((encodeChars bs).flatMap String.utf8EncodeChar).length % 2 = 1 := by
    rw [length_encodeChars_bytes]
    omega
  unfold decode
  rw [hbytes, if_neg heven, decodeBytes_encodeChars]

end Hex

/-- A value as it is read back: a structured JSON text counts as a text. -/
def Value.reread : Value → Value
  | .structured (.text s) => .text s
  | v => v

/-- An envelope as it is read back: its tag is what the text of the tag says. -/
def Envelope.reread (e : Envelope) : Envelope := { e with tag := .ofText e.tag.text }

/-- The codec reads back the text of the tag, the payload and the timestamp that it wrote. -/
def Codec.ReadsBack (c : Codec) : Prop :=
  ∀ call e bs, c.marshal call e = .ok bs → c.unmarshal bs = .ok e.reread

namespace Envelope

theorem ofText_text_tag (v : Value) : Tag.ofText v.tag.text = v.reread.tag := by
  cases v with
  | int i inRange => rfl
  | text s => rfl
  | bytes bs => rfl
  | structured j =>
    cases j with
    | number n =>
      cases n with
      | integer i inRange =>
        by_cases h : 0 ≤ i <;> simp [Value.reread, Value.tag, Json.kind, h] <;> rfl
      | double x => rfl
    | _ => rfl

theorem payloadOf_reread (v : Value) : payloadOf v.reread = payloadOf v := by
  cases v with
  | structured j => cases j <;> rfl
  | _ => rfl

theorem payloadOf_int {i : Int} (signed : -0x8000000000000000 ≤ i ∧ i < 0x8000000000000000)
    (inRange : -0x8000000000000000 ≤ i ∧ i < 0x10000000000000000) :
    payloadOf (.int i signed) = .number (.integer i inRange) := by
  have hnumber : Number.ofInt? i = some (.integer i inRange) := dif_pos inRange
  simp only [payloadOf, Json.ofInt, hnumber, Option.map_some, Option.getD_some]

/-- A value opens under the name of its kind, and a natural number also under `float`. -/
theorem unwrap_kind {name : String} {j : Json} (hname : name ∈ Kind.structured.map Kind.name)
    (hkind : j.kind.name = name ∨ name = "float" ∧ j.kind = .uint) :
    unwrap (.kind name) j = .ok (.structured j) := by
  simp only [unwrap, hname, hkind, not_true_eq_false, ↓reduceIte]

/-- A structured value other than a text opens under the name of its kind. -/
theorem unwrap_structured {j : Json} (h : j.kind ≠ .string) :
    unwrap (.kind j.kind.name) j = .ok (.structured j) := by
  have hmem : j.kind.name ∈ Kind.structured.map Kind.name := by
    cases hk : j.kind with
    | string => exact absurd hk h
    | _ => decide
  exact unwrap_kind hmem (.inl rfl)

/-- What is wrapped opens to what was wrapped. -/
theorem value_reread_wrap (v : Value) (now : Instant) :
    (wrap v now).reread.value = .ok v.reread := by
  have htag : (wrap v now).reread.tag = v.reread.tag := ofText_text_tag v
  unfold value
  rw [htag, show (wrap v now).reread.payload = payloadOf v from rfl, ← payloadOf_reread]
  cases v with
  | int i inRange =>
    simp only [Value.reread, Value.tag, payloadOf_int inRange ⟨inRange.1, by omega⟩, unwrap]
    exact dif_pos inRange.2
  | text s => rfl
  | bytes bs => simp [Value.reread, Value.tag, payloadOf, unwrap, Hex.decode_encode]
  | structured j =>
    cases j with
    | text s => rfl
    | number n =>
      refine unwrap_structured ?_
      rcases n with ⟨i, inRange⟩ | x
      · by_cases h : 0 ≤ i <;> simp [Json.kind, h]
      · simp [Json.kind]
    | _ => exact unwrap_structured (by simp [Json.kind])

end Envelope

namespace Codec

/-- A codec that reads back what it wrote gives back the value that was written. -/
theorem read_of_write {c : Codec} (hc : c.ReadsBack) {call : Nat} {now : Instant} {v : Value}
    {bs : Bytes} (h : c.write call now v = .ok bs) : c.read bs = .ok v.reread := by
  unfold Codec.read
  rw [hc call _ bs h]
  exact Envelope.value_reread_wrap v now

/-- A codec that looks at what it wrote and refuses what would not read back. -/
def checked (c : Codec) : Codec where
  marshal call e := (c.marshal call e).bind fun bs =>
    (c.unmarshal bs).bind fun found =>
      if found = e.reread then .ok bs else .error (.serialization .malformed)
  unmarshal := c.unmarshal

/-- What would read back is not refused. -/
theorem checked_marshal {c : Codec} {call : Nat} {e : Envelope} {bs : Bytes}
    (hwrite : c.marshal call e = .ok bs) (hread : c.unmarshal bs = .ok e.reread) :
    c.checked.marshal call e = .ok bs := by
  simp only [checked, hwrite, hread, Except.bind, ↓reduceIte]

theorem readsBack_checked (c : Codec) : c.checked.ReadsBack := by
  intro call e bs h
  simp only [checked] at h ⊢
  cases hwrite : c.marshal call e with
  | error err =>
    rw [hwrite] at h
    cases h
  | ok written =>
    rw [hwrite] at h
    simp only [Except.bind] at h
    cases hread : c.unmarshal written with
    | error err =>
      rw [hread] at h
      cases h
    | ok found =>
      rw [hread] at h
      simp only at h
      split at h
      · rename_i hfound
        cases h
        rw [hread, hfound]
      · cases h

end Codec

end SealedStore
