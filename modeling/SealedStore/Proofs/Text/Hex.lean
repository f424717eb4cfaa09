import SealedStore.Proofs.Text.ByteOrder
import SealedStore.Text.Hex

set_option autoImplicit false

/-!
# Which texts are hexadecimal

A text is read as bytes exactly if it is made of pairs of digits, in either case
(`exists_decode_iff`), and what the bytes are written as is then the text in lower case
(`toLower_of_decode`).
-/

namespace SealedStore.Hex

/-- A hexadecimal digit, in either case. -/
def IsDigit (c : Char) : Prop := c ∈ "0123456789abcdefABCDEF".toList

instance (c : Char) : Decidable (IsDigit c) := inferInstanceAs (Decidable (_ ∈ _))

/-- A text of pairs of digits. -/
def IsText (s : String) : Prop := s.toList.length % 2 = 0 ∧ ∀ c ∈ s.toList, IsDigit c

/-! ## One digit -/

theorem toNat_lt_of_value? {c : Char} {n : Nat} (h : value? c = some n) : c.toNat < 128 := by
  unfold value? at h
  simp only [Char.le_def, UInt32.le_iff_toNat_le] at h
  have h9 : '9'.val.toNat = 57 := rfl
  have hf : 'f'.val.toNat = 102 := rfl
  have hF : 'F'.val.toNat = 70 := rfl
  change c.val.toNat < 128
  split_ifs at h <;> omega

theorem isSome_value? {c : Char} (h : IsDigit c) : (value? c).isSome := by
  have hall : "0123456789abcdefABCDEF".toList.all fun c => (value? c).isSome := by decide
  exact List.all_eq_true.1 hall c h

/-- The value of a digit is written as the digit in lower case. -/
theorem of_value? {c : Char} {n : Nat} (h : value? c = some n) :
    IsDigit c ∧ n < 16 ∧ c.toLower = digit n := by
  have hall : ∀ k ∈ List.range 128, ∀ m ∈ value? (Char.ofNat k),
      IsDigit (Char.ofNat k) ∧ m < 16 ∧ (Char.ofNat k).toLower = digit m := by decide +kernel
  have hc := hall c.toNat (List.mem_range.2 (toNat_lt_of_value? h)) n
  rw [Char.ofNat_toNat] at hc
  exact hc h

/-! ## The bytes of a digit -/

theorem utf8EncodeChar_of_lt {c : Char} (h : c.toNat < 128) :
    String.utf8EncodeChar c = [UInt8.ofNat c.toNat] := by
  unfold String.utf8EncodeChar
  exact if_pos (show c.val.toNat ≤ 0x7F from Nat.le_of_lt_succ h)

/-- A character whose first byte is below 128 has no other byte. -/
theorem utf8EncodeChar_of_lead {c : Char} {b : UInt8} {bytes : Bytes}
    (hbytes : String.utf8EncodeChar c = b :: bytes) (hb : b.toNat < 128) :
    bytes = [] ∧ c.toNat = b.toNat := by
  rw [Utf8.utf8EncodeChar_eq] at hbytes
  obtain ⟨rfl, rfl⟩ := List.cons.inj hbytes
  have hmax := Utf8.toNat_val_lt c
  rw [UInt8.toNat_ofNat', Nat.mod_eq_of_lt (Utf8.leadOf_lt hmax)] at hb ⊢
  have hn : c.val.toNat ≤ 0x7F := by
    unfold Utf8.leadOf at hb
    split_ifs at hb <;> omega
  unfold Utf8.owedBy Utf8.leadOf
  rw [if_pos hn, if_pos hn]
  exact ⟨rfl, rfl⟩

theorem digitAt_eq_ok {b : UInt8} {index n : Nat} :
    decodeBytes.digitAt index b = .ok n ↔ value? (Char.ofNat b.toNat) = some n := by
  unfold decodeBytes.digitAt
  cases hvalue : value? (Char.ofNat b.toNat) <;> simp [hvalue]

/-- The byte of a digit has the value of the digit. -/
theorem digitAt_of_value? {c : Char} {n : Nat} (h : value? c = some n) (index : Nat) :
    decodeBytes.digitAt index (UInt8.ofNat c.toNat) = .ok n := by
  have hc := toNat_lt_of_value? h
  rw [digitAt_eq_ok, UInt8.toNat_ofNat', Nat.mod_eq_of_lt (by omega), Char.ofNat_toNat, h]

/-- A character whose first byte reads as a digit is the digit. -/
theorem value?_of_digitAt {c : Char} {b : UInt8} {bytes : Bytes} {index n : Nat}
    (hbytes : String.utf8EncodeChar c = b :: bytes) (h : decodeBytes.digitAt index b = .ok n) :
    bytes = [] ∧ value? c = some n := by
  have hall : ∀ k ∈ List.range 256, (value? (Char.ofNat k)).isSome → k < 128 := by decide +kernel
  rw [digitAt_eq_ok] at h
  have hb : b.toNat < 128 :=
    hall b.toNat (List.mem_range.2 b.toNat_lt) (Option.isSome_iff_exists.2 ⟨n, h⟩)
  obtain ⟨hnil, hc⟩ := utf8EncodeChar_of_lead hbytes hb
  rw [← hc, Char.ofNat_toNat] at h
  exact ⟨hnil, h⟩

/-! ## Pairs of digits -/

theorem decodeBytes_eq_ok {index : Nat} {high low : UInt8} {rest bs : Bytes} :
    decodeBytes index (high :: low :: rest) = .ok bs ↔
      ∃ h l tail, decodeBytes.digitAt index high = .ok h ∧
        decodeBytes.digitAt (index + 1) low = .ok l ∧ decodeBytes (index + 2) rest = .ok tail ∧
        bs = UInt8.ofNat (h * 16 + l) :: tail := by
  rw [decodeBytes]
  cases decodeBytes.digitAt index high with
  | error e => simp [bind, Except.bind]
  | ok h =>
    cases decodeBytes.digitAt (index + 1) low with
    | error e => simp [bind, Except.bind]
    | ok l =>
      cases decodeBytes (index + 2) rest with
      | error e => simp [bind, Except.bind]
      | ok tail => simp [bind, Except.bind, pure, Except.pure, eq_comm]


/-- What is read as bytes has two digits in front, if anything. -/
theorem of_decodeBytes_cons {c : Char} {cs : List Char} {index : Nat} {bs : Bytes}
    (heven : ((c :: cs).flatMap String.utf8EncodeChar).length % 2 = 0)
    (h : decodeBytes index ((c :: cs).flatMap String.utf8EncodeChar) = .ok bs) :
    ∃ d rest m n tail, cs = d :: rest ∧ value? c = some m ∧ value? d = some n ∧
      (rest.flatMap String.utf8EncodeChar).length % 2 = 0 ∧
      decodeBytes (index + 2) (rest.flatMap String.utf8EncodeChar) = .ok tail ∧
      bs = UInt8.ofNat (m * 16 + n) :: tail := by
  obtain ⟨high, more, hc⟩ : ∃ high more, String.utf8EncodeChar c = high :: more :=
    ⟨_, _, Utf8.utf8EncodeChar_eq c⟩
  rw [List.flatMap_cons, hc, List.cons_append] at heven h
  obtain ⟨low, lower, hlow⟩ : ∃ low lower,
      more ++ cs.flatMap String.utf8EncodeChar = low :: lower := by
    cases hmore : more ++ cs.flatMap String.utf8EncodeChar with
    | nil =>
      rw [hmore] at heven
      cases heven
    | cons low lower => exact ⟨low, lower, rfl⟩
  rw [hlow] at heven h
  obtain ⟨m, n, tail, hm, hn, htail, rfl⟩ := decodeBytes_eq_ok.1 h
  obtain ⟨rfl, hcvalue⟩ := value?_of_digitAt hc hm
  cases cs with
  | nil => cases hlow
  | cons d rest =>
    obtain ⟨first, last, hd⟩ : ∃ first last, String.utf8EncodeChar d = first :: last :=
      ⟨_, _, Utf8.utf8EncodeChar_eq d⟩
    rw [List.nil_append, List.flatMap_cons, hd, List.cons_append] at hlow
    obtain ⟨rfl, rfl⟩ := List.cons.inj hlow
    obtain ⟨rfl, hdvalue⟩ := value?_of_digitAt hd hn
    refine ⟨d, rest, m, n, tail, rfl, hcvalue, hdvalue, ?_, htail, rfl⟩
    rw [List.nil_append, List.length_cons, List.length_cons] at heven
    omega

/-- Two digits are read as one byte. -/
theorem decodeBytes_digits {c d : Char} {m n : Nat} (hc : value? c = some m)
    (hd : value? d = some n) (cs : List Char) (index : Nat) :
    decodeBytes index ((c :: d :: cs).flatMap String.utf8EncodeChar) =
      (decodeBytes (index + 2) (cs.flatMap String.utf8EncodeChar)).map
        (UInt8.ofNat (m * 16 + n) :: ·) := by
  rw [List.flatMap_cons, List.flatMap_cons, utf8EncodeChar_of_lt (toNat_lt_of_value? hc),
    utf8EncodeChar_of_lt (toNat_lt_of_value? hd)]
  simp only [List.cons_append, List.nil_append, decodeBytes, digitAt_of_value? hc,
    digitAt_of_value? hd]
  cases decodeBytes (index + 2) (cs.flatMap String.utf8EncodeChar) <;> rfl

/-- The characters of a text that is read as bytes are digits, and in lower case they are what the
bytes are written as. -/
theorem of_decodeBytes {bs : Bytes} {cs : List Char} {index : Nat}
    (heven : (cs.flatMap String.utf8EncodeChar).length % 2 = 0)
    (h : decodeBytes index (cs.flatMap String.utf8EncodeChar) = .ok bs) :
    (∀ c ∈ cs, IsDigit c) ∧ cs.map Char.toLower = encodeChars bs := by
  -- The induction is on the bytes that come out: each of them stands for two characters.
  induction bs generalizing cs index with
  | nil =>
    cases cs with
    | nil => exact ⟨fun _ hc => absurd hc List.not_mem_nil, rfl⟩
    | cons c cs =>
      obtain ⟨d, rest, m, n, tail, -, -, -, -, -, hbs⟩ := of_decodeBytes_cons heven h
      cases hbs
  | cons b bs ih =>
    cases cs with
    | nil => cases h
    | cons c cs =>
      obtain ⟨d, rest, m, n, tail, rfl, hc, hd, hrest, htail, hbs⟩ := of_decodeBytes_cons heven h
      obtain ⟨rfl, rfl⟩ := List.cons.inj hbs
      obtain ⟨hdigits, hlower⟩ := ih hrest htail
      obtain ⟨hcdigit, hm, hclower⟩ := of_value? hc
      obtain ⟨hddigit, hn, hdlower⟩ := of_value? hd
      refine ⟨by simpa [hcdigit, hddigit] using hdigits, ?_⟩
      have hb : (UInt8.ofNat (m * 16 + n)).toNat = m * 16 + n := by
        rw [UInt8.toNat_ofNat', Nat.mod_eq_of_lt (by omega)]
      have hhigh : (m * 16 + n) / 16 = m := by omega
      have hlow : (m * 16 + n) % 16 = n := by omega
      rw [List.map_cons, List.map_cons, hlower, encodeChars, hb, hhigh, hlow, hclower, hdlower]

/-- Pairs of digits are read as bytes. -/
theorem exists_decodeBytes {cs : List Char} (heven : cs.length % 2 = 0)
    (hdigits : ∀ c ∈ cs, IsDigit c) (index : Nat) :
    ∃ bs, decodeBytes index (cs.flatMap String.utf8EncodeChar) = .ok bs := by
  match cs with
  | [] => exact ⟨[], rfl⟩
  | [_] => cases heven
  | c :: d :: cs =>
    obtain ⟨hc, hd, hcs⟩ : IsDigit c ∧ IsDigit d ∧ ∀ c ∈ cs, IsDigit c := by
      simpa using hdigits
    obtain ⟨m, hm⟩ := Option.isSome_iff_exists.1 (isSome_value? hc)
    obtain ⟨n, hn⟩ := Option.isSome_iff_exists.1 (isSome_value? hd)
    have hrest : cs.length % 2 = 0 := by
      simp only [List.length_cons] at heven
      omega
    obtain ⟨bs, hbs⟩ := exists_decodeBytes hrest hcs (index + 2)
    refine ⟨UInt8.ofNat (m * 16 + n) :: bs, ?_⟩
    rw [decodeBytes_digits hm hn, hbs]
    rfl

/-! ## Texts -/

/-- Digits have one byte each. -/
theorem length_flatMap_digits {cs : List Char} (h : ∀ c ∈ cs, IsDigit c) :
    (cs.flatMap String.utf8EncodeChar).length = cs.length := by
  induction cs with
  | nil => rfl
  | cons c cs ih =>
    obtain ⟨hc, hcs⟩ := List.forall_mem_cons.1 h
    obtain ⟨n, hn⟩ := Option.isSome_iff_exists.1 (isSome_value? hc)
    rw [List.flatMap_cons, List.length_append, ih hcs,
      utf8EncodeChar_of_lt (toNat_lt_of_value? hn), List.length_singleton, List.length_cons,
      Nat.add_comm]

theorem decode_eq_ok {s : String} {bs : Bytes} :
    decode s = .ok bs ↔ (s.toList.flatMap String.utf8EncodeChar).length % 2 = 0 ∧
      decodeBytes 0 (s.toList.flatMap String.utf8EncodeChar) = .ok bs := by
  unfold decode Utf8.encode
  dsimp only
  split_ifs with hodd
  · refine ⟨nofun, fun ⟨heven, _⟩ => ?_⟩
    omega
  · have heven : (s.toList.flatMap String.utf8EncodeChar).length % 2 = 0 := by omega
    simp only [heven, true_and]

/-- A text is read as bytes exactly if it is made of pairs of digits. -/
theorem exists_decode_iff {s : String} : (∃ bs, decode s = .ok bs) ↔ IsText s := by
  constructor
  · rintro ⟨bs, h⟩
    obtain ⟨heven, hbytes⟩ := decode_eq_ok.1 h
    obtain ⟨hdigits, -⟩ := of_decodeBytes heven hbytes
    rw [length_flatMap_digits hdigits] at heven
    exact ⟨heven, hdigits⟩
  · rintro ⟨heven, hdigits⟩
    obtain ⟨bs, hbs⟩ := exists_decodeBytes heven hdigits 0
    refine ⟨bs, decode_eq_ok.2 ⟨?_, hbs⟩⟩
    rw [length_flatMap_digits hdigits, heven]

/-- The bytes that a text is read as are written as the text in lower case. -/
theorem toLower_of_decode {s : String} {bs : Bytes} (h : decode s = .ok bs) :
    encode bs = s.toLower := by
  obtain ⟨heven, hbytes⟩ := decode_eq_ok.1 h
  obtain ⟨-, hlower⟩ := of_decodeBytes heven hbytes
  have htext : s.toLower.toList = s.toList.map Char.toLower := String.toList_map
  rw [String.ext_iff, encode, String.toList_ofList, htext, hlower]

end SealedStore.Hex
