import SealedStore.Text.Utf8

set_option autoImplicit false

/-!
# Reading what was encoded

The bytes of a text read back as the text, strictly and without a fault (`decode_encode`); split
into symbols they are the characters of the text (`symbols_encode`).
-/

namespace SealedStore.Utf8

/-! ## One character -/

/-- A byte that is owed adds a digit to the base of 64. -/
theorem tails_digit (owed n width : Nat) {low high : UInt8} (rest : Bytes)
    (hlow : low.toNat ≤ n % 64 + 128) (hhigh : n % 64 + 128 ≤ high.toNat) :
    tails (owed + 1) low high (n / 64) width (UInt8.ofNat (n % 64 + 128) :: rest) =
      tails owed 0x80 0xBF n (width + 1) rest := by
  have hm : (UInt8.ofNat (n % 64 + 128)).toNat = n % 64 + 128 := by
    rw [UInt8.toNat_ofNat', Nat.mod_eq_of_lt (by omega)]
  have hrange : low ≤ UInt8.ofNat (n % 64 + 128) ∧ UInt8.ofNat (n % 64 + 128) ≤ high := by
    rw [UInt8.le_iff_toNat_le, UInt8.le_iff_toNat_le, hm]
    exact ⟨hlow, hhigh⟩
  have hcode : n / 64 * 64 + (n % 64 + 128 - 128) = n := by omega
  rw [tails, if_pos hrange, hm, hcode]

/-- The byte after the first of three or four, whose range depends on the first. -/
theorem tails_second (owed n : Nat) {low high : UInt8} (rest : Bytes)
    (hlow : low.toNat ≤ n / 64 % 64 + 128) (hhigh : n / 64 % 64 + 128 ≤ high.toNat) :
    tails (owed + 2) low high (n / 4096) 1
        (UInt8.ofNat (n / 64 % 64 + 128) :: UInt8.ofNat (n % 64 + 128) :: rest) =
      tails owed 0x80 0xBF n 3 rest := by
  have hdigits : n / 4096 = n / 64 / 64 := by omega
  rw [hdigits, tails_digit (owed + 1) (n / 64) 1 _ hlow hhigh]
  exact tails_digit owed n 2 rest (by simp) (by simp; omega)

/-- A first byte, given by its number, and the bytes that follow it. -/
theorem head_ofNat {m : Nat} (hlt : m < 256) (rest : Bytes) :
    head (UInt8.ofNat m) rest =
      if m < 0x80 then .char (Char.ofNat m) 1
      else if m < 0xC2 then .fault 1
      else if m < 0xE0 then tails 1 0x80 0xBF (m - 0xC0) 1 rest
      else if m = 0xE0 then tails 2 0xA0 0xBF 0 1 rest
      else if m = 0xED then tails 2 0x80 0x9F 0xD 1 rest
      else if m < 0xF0 then tails 2 0x80 0xBF (m - 0xE0) 1 rest
      else if m = 0xF0 then tails 3 0x90 0xBF 0 1 rest
      else if m < 0xF4 then tails 3 0x80 0xBF (m - 0xF0) 1 rest
      else if m = 0xF4 then tails 3 0x80 0x8F 4 1 rest
      else .fault 1 := by
  have hm : (UInt8.ofNat m).toNat = m := by rw [UInt8.toNat_ofNat', Nat.mod_eq_of_lt hlt]
  unfold head Lead.of?
  rw [hm]
  grind [tails]

theorem head_two {n : Nat} (hlow : 0x7F < n) (hhigh : n ≤ 0x7FF) (rest : Bytes) :
    head (UInt8.ofNat (n / 64 % 32 + 192)) (UInt8.ofNat (n % 64 + 128) :: rest) =
      .char (Char.ofNat n) 2 := by
  have hbits : n / 64 % 32 + 192 - 192 = n / 64 := by omega
  rw [head_ofNat (by omega), if_neg (by omega), if_neg (by omega), if_pos (by omega), hbits]
  exact tails_digit 0 n 1 rest (by simp) (by simp; omega)

theorem head_three {n : Nat} (hlow : 0x7FF < n) (hhigh : n ≤ 0xFFFF)
    (hsurrogate : n < 0xD800 ∨ 0xDFFF < n) (rest : Bytes) :
    head (UInt8.ofNat (n / 4096 % 16 + 224))
        (UInt8.ofNat (n / 64 % 64 + 128) :: UInt8.ofNat (n % 64 + 128) :: rest) =
      .char (Char.ofNat n) 3 := by
  have hbits : n / 4096 % 16 + 224 - 224 = n / 4096 := by omega
  rw [head_ofNat (by omega), if_neg (by omega), if_neg (by omega), if_neg (by omega)]
  by_cases h0 : n / 4096 = 0
  · rw [if_pos (by omega), ← h0]
    exact tails_second 0 n rest (by simp; omega) (by simp; omega)
  · rw [if_neg (by omega)]
    by_cases hD : n / 4096 = 0xD
    · rw [if_pos (by omega), ← hD]
      exact tails_second 0 n rest (by simp) (by simp; omega)
    · rw [if_neg (by omega), if_pos (by omega), hbits]
      exact tails_second 0 n rest (by simp) (by simp; omega)

theorem head_four {n : Nat} (hlow : 0xFFFF < n) (hhigh : n < 0x110000) (rest : Bytes) :
    head (UInt8.ofNat (n / 262144 % 8 + 240))
        (UInt8.ofNat (n / 4096 % 64 + 128) :: UInt8.ofNat (n / 64 % 64 + 128) ::
          UInt8.ofNat (n % 64 + 128) :: rest) =
      .char (Char.ofNat n) 4 := by
  have hdigits : n / 4096 = n / 64 / 64 := by omega
  have hmost : n / 262144 = n / 64 / 4096 := by omega
  have hbits : n / 262144 % 8 + 240 - 240 = n / 262144 := by omega
  have htails : ∀ low high : UInt8, low.toNat ≤ n / 4096 % 64 + 128 →
      n / 4096 % 64 + 128 ≤ high.toNat →
      tails 3 low high (n / 262144) 1 (UInt8.ofNat (n / 4096 % 64 + 128) ::
          UInt8.ofNat (n / 64 % 64 + 128) :: UInt8.ofNat (n % 64 + 128) :: rest) =
        .char (Char.ofNat n) 4 := by
    intro low high hl hh
    rw [hdigits] at hl hh
    rw [hmost, hdigits, tails_second 1 (n / 64) _ hl hh]
    exact tails_digit 0 n 3 rest (by simp) (by simp; omega)
  rw [head_ofNat (by omega), if_neg (by omega), if_neg (by omega), if_neg (by omega),
    if_neg (by omega), if_neg (by omega), if_neg (by omega)]
  by_cases h0 : n / 262144 = 0
  · have h := htails 0x90 0xBF (by simp; omega) (by simp; omega)
    rw [if_pos (by omega), ← h, h0]
  · rw [if_neg (by omega)]
    by_cases h4 : n / 262144 = 4
    · have h := htails 0x80 0x8F (by simp) (by simp; omega)
      rw [if_neg (by omega), if_pos (by omega), ← h, h4]
    · rw [if_pos (by omega), hbits]
      exact htails 0x80 0xBF (by simp) (by simp; omega)

theorem toNat_val_lt (c : Char) : c.val.toNat < 0x110000 := by
  rcases c.valid with h | ⟨-, h⟩
  · exact Nat.lt_trans h (by decide)
  · exact h

/-- The bytes of a character read as the character, whatever follows them. -/
theorem head_utf8EncodeChar (c : Char) (rest : Bytes) :
    ∃ b bs, String.utf8EncodeChar c = b :: bs ∧ head b (bs ++ rest) = .char c (bs.length + 1) := by
  have hc : Char.ofNat c.val.toNat = c := Char.ofNat_toNat c
  unfold String.utf8EncodeChar
  by_cases h1 : c.val.toNat ≤ 0x7F
  · refine ⟨UInt8.ofNat c.val.toNat, [], if_pos h1, ?_⟩
    rw [List.nil_append, head_ofNat (by omega), if_pos (by omega), hc]
    rfl
  · simp only [h1, ↓reduceIte]
    by_cases h2 : c.val.toNat ≤ 0x7FF
    · refine ⟨_, _, if_pos h2, ?_⟩
      exact (head_two (by omega) h2 rest).trans (by rw [hc]; rfl)
    · simp only [h2, ↓reduceIte]
      by_cases h3 : c.val.toNat ≤ 0xFFFF
      · have hsurrogate : c.val.toNat < 0xD800 ∨ 0xDFFF < c.val.toNat := by
          rcases c.valid with h | ⟨h, -⟩
          · exact .inl h
          · exact .inr h
        refine ⟨_, _, if_pos h3, ?_⟩
        exact (head_three (by omega) h3 hsurrogate rest).trans (by rw [hc]; rfl)
      · have hmax := toNat_val_lt c
        refine ⟨_, _, if_neg h3, ?_⟩
        exact (head_four (by omega) hmax rest).trans (by rw [hc]; rfl)

/-! ## Texts -/

theorem decodeFrom_append (skipped rest : Bytes) (index : Nat) :
    decodeFrom index skipped.length (skipped ++ rest) =
      decodeFrom (index + skipped.length) 0 rest := by
  induction skipped generalizing index with
  | nil => rfl
  | cons b skipped ih =>
    rw [List.length_cons, List.cons_append, decodeFrom, ih]
    congr 1
    omega

theorem decodeFrom_encode (cs : List Char) (index : Nat) :
    decodeFrom index 0 (cs.flatMap String.utf8EncodeChar) = .ok cs := by
  induction cs generalizing index with
  | nil => rfl
  | cons c cs ih =>
    obtain ⟨b, bs, hbytes, hhead⟩ :=
      head_utf8EncodeChar c (cs.flatMap String.utf8EncodeChar)
    rw [List.flatMap_cons, hbytes, List.cons_append, decodeFrom, hhead]
    simp only [Nat.add_sub_cancel]
    rw [decodeFrom_append, ih]

/-- The bytes of a text read back as the text. -/
theorem decode_encode (s : String) : decode (encode s) = .ok s := by
  unfold decode encode
  rw [decodeFrom_encode]
  exact congrArg Except.ok (String.ofList_toList)

/-! ## Symbols -/

theorem symbolsAfter_append (skipped rest : Bytes) :
    symbolsAfter skipped.length (skipped ++ rest) = symbolsAfter 0 rest := by
  induction skipped with
  | nil => rfl
  | cons b skipped ih => rw [List.length_cons, List.cons_append, symbolsAfter, ih]

/-- No byte of a text is stray. -/
theorem symbols_encode (s : String) : symbols (encode s) = s.toList.map .char := by
  unfold symbols encode
  induction s.toList with
  | nil => rfl
  | cons c cs ih =>
    obtain ⟨b, bs, hbytes, hhead⟩ :=
      head_utf8EncodeChar c (cs.flatMap String.utf8EncodeChar)
    rw [List.flatMap_cons, hbytes, List.cons_append, symbolsAfter, hhead]
    simp only [Nat.add_sub_cancel]
    rw [symbolsAfter_append, ih, List.map_cons]

end SealedStore.Utf8
