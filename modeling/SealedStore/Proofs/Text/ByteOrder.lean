import Mathlib.Data.String.Basic
import SealedStore.Proofs.Text.Utf8

set_option autoImplicit false

/-!
# The order of texts

Texts are ordered as their bytes are (`encode_lt_encode`).  The first byte of a character grows with
its code point and fixes how many bytes follow; these hold the lower digits of the code point to the
base of 64.
-/

namespace SealedStore.Utf8

/-- The number of the first byte of a code point. -/
def leadOf (n : Nat) : Nat :=
  if n ≤ 0x7F then n
  else if n ≤ 0x7FF then n / 64 + 192
  else if n ≤ 0xFFFF then n / 64 ^ 2 + 224
  else n / 64 ^ 3 + 240

/-- The number of bytes after the first one of a code point. -/
def owedBy (n : Nat) : Nat :=
  if n ≤ 0x7F then 0
  else if n ≤ 0x7FF then 1
  else if n ≤ 0xFFFF then 2
  else 3

/-- The bytes after the first one, for so many lower digits of a code point. -/
def digits : (count n : Nat) → Bytes
  | 0, _ => []
  | count + 1, n => digits count (n / 64) ++ [UInt8.ofNat (n % 64 + 128)]

theorem leadOf_lt {n : Nat} (h : n < 0x110000) : leadOf n < 256 := by
  unfold leadOf
  split_ifs <;> omega

theorem leadOf_le {m n : Nat} (h : m ≤ n) : leadOf m ≤ leadOf n := by
  unfold leadOf
  split_ifs <;> omega

/-- The first byte tells how many follow, and the digits that it holds itself. -/
theorem of_leadOf_eq {m n : Nat} (hm : m < 0x110000) (hn : n < 0x110000)
    (h : leadOf m = leadOf n) :
    owedBy m = owedBy n ∧ m / 64 ^ owedBy n = n / 64 ^ owedBy n := by
  unfold leadOf at h
  unfold owedBy
  split_ifs at h ⊢ <;> omega

/-- The bytes of a character are the first one of its code point and the digits that follow it. -/
theorem utf8EncodeChar_eq (c : Char) :
    String.utf8EncodeChar c =
      UInt8.ofNat (leadOf c.val.toNat) :: digits (owedBy c.val.toNat) c.val.toNat := by
  have hmax := toNat_val_lt c
  unfold String.utf8EncodeChar leadOf owedBy
  generalize c.val.toNat = n at hmax ⊢
  by_cases h1 : n ≤ 0x7F
  · simp only [h1, ↓reduceIte, digits]
  by_cases h2 : n ≤ 0x7FF
  · have hlead : n / 64 % 32 = n / 64 := by omega
    simp only [h1, h2, ↓reduceIte, digits, hlead, List.nil_append]
  by_cases h3 : n ≤ 0xFFFF
  · have hlead : n / 4096 % 16 = n / 64 ^ 2 := by omega
    simp only [h1, h2, h3, ↓reduceIte, digits, hlead, List.nil_append, List.cons_append]
  · have hlead : n / 262144 % 8 = n / 64 ^ 3 := by omega
    have hsecond : n / 4096 = n / 64 / 64 := by omega
    simp only [h1, h2, h3, ↓reduceIte, digits, hlead, hsecond, List.nil_append, List.cons_append]

/-- A byte is less if its number is. -/
theorem ofNat_lt {a b : Nat} (hb : b < 256) (h : a < b) : UInt8.ofNat a < UInt8.ofNat b :=
  (UInt8.ofNat_lt_iff_lt (Nat.lt_trans h hb) hb).2 h

/-- Of two code points with the same upper digits the lesser one has the lesser lower digits,
whatever follows them. -/
theorem digits_append_lt {count m n : Nat} (hlt : m < n)
    (heq : m / 64 ^ count = n / 64 ^ count) (bs cs : Bytes) :
    digits count m ++ bs < digits count n ++ cs := by
  induction count generalizing m n bs cs with
  | zero => omega
  | succ count ih =>
    rw [digits, digits, List.append_assoc, List.append_assoc]
    rcases Nat.lt_or_eq_of_le (Nat.div_le_div_right (c := 64) hlt.le) with hhigh | hhigh
    · refine ih hhigh ?_ _ _
      rwa [Nat.div_div_eq_div_mul, Nat.div_div_eq_div_mul, ← Nat.pow_succ']
    · rw [hhigh]
      refine List.append_left_lt (List.cons_lt_cons_iff.2 (.inl (ofNat_lt ?_ ?_)))
      · omega
      · omega

/-- The lesser character has the lesser bytes, whatever follows them. -/
theorem utf8EncodeChar_append_lt {c d : Char} (h : c < d) (bs cs : Bytes) :
    String.utf8EncodeChar c ++ bs < String.utf8EncodeChar d ++ cs := by
  have hlt : c.val.toNat < d.val.toNat := h
  rw [utf8EncodeChar_eq, utf8EncodeChar_eq, List.cons_append, List.cons_append,
    List.cons_lt_cons_iff]
  rcases Nat.lt_or_eq_of_le (leadOf_le hlt.le) with hlead | hlead
  · exact .inl (ofNat_lt (leadOf_lt (toNat_val_lt d)) hlead)
  · obtain ⟨howed, hupper⟩ := of_leadOf_eq (toNat_val_lt c) (toNat_val_lt d) hlead
    rw [hlead, howed]
    exact .inr ⟨rfl, digits_append_lt hlt hupper bs cs⟩

theorem flatMap_utf8EncodeChar_lt {cs ds : List Char} (h : cs < ds) :
    cs.flatMap String.utf8EncodeChar < ds.flatMap String.utf8EncodeChar := by
  induction h with
  | nil =>
    rw [List.flatMap_nil, List.flatMap_cons, utf8EncodeChar_eq]
    exact List.nil_lt_cons _ _
  | rel h => exact utf8EncodeChar_append_lt h _ _
  | cons h ih => exact List.append_left_lt ih

/-- Texts are in the order of their bytes. -/
theorem encode_lt_encode {s t : String} : encode s < encode t ↔ s < t := by
  have hmono : ∀ {s t : String}, s < t → encode s < encode t := fun h =>
    flatMap_utf8EncodeChar_lt (String.lt_iff_toList_lt.1 h)
  refine ⟨fun h => ?_, hmono⟩
  rcases lt_trichotomy s t with hlt | rfl | hgt
  · exact hlt
  · exact absurd h (List.lt_irrefl _)
  · exact absurd h (List.lt_asymm (hmono hgt))

end SealedStore.Utf8
