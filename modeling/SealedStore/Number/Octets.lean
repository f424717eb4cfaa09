import SealedStore.Text.Utf8

set_option autoImplicit false

/-!
# Octets

Numbers as bytes of a fixed count, in either order.
-/

namespace SealedStore.Octets

/-- A number in so many bytes, the least significant first; higher bits are lost. -/
def little : (count : Nat) → (n : Nat) → Bytes
  | 0, _ => []
  | count + 1, n => UInt8.ofNat n :: little count (n / 256)

/-- The number of bytes, the least significant first. -/
def ofLittle (bs : Bytes) : Nat := bs.foldr (fun b n => b.toNat + 256 * n) 0

/-- A number in so many bytes, the most significant first; higher bits are lost. -/
def big (count n : Nat) : Bytes := (little count n).reverse

/-- The number of bytes, the most significant first. -/
def ofBig (bs : Bytes) : Nat := ofLittle bs.reverse

@[simp] theorem length_little (count n : Nat) : (little count n).length = count := by
  induction count generalizing n with
  | zero => rfl
  | succ count ih => simp [little, ih]

@[simp] theorem length_big (count n : Nat) : (big count n).length = count := by simp [big]

/-- Reading back gives the number without the bits that were lost. -/
theorem ofLittle_little (count n : Nat) : ofLittle (little count n) = n % Nat.pow 256 count := by
  induction count generalizing n with
  | zero => simp [little, ofLittle, Nat.mod_one]
  | succ count ih =>
    have := ih (n / 256)
    simp only [ofLittle] at this
    simp only [little, ofLittle, List.foldr_cons, this, UInt8.toNat_ofNat']
    have e : Nat.pow 256 (count + 1) = 256 * Nat.pow 256 count := Nat.pow_succ'
    rw [e]
    exact Nat.mod_mul.symm

@[simp] theorem ofBig_big (count n : Nat) : ofBig (big count n) = n % Nat.pow 256 count := by
  simp [ofBig, big, ofLittle_little]

/-- Bytes are those of their number. -/
theorem little_ofLittle (bs : Bytes) : little bs.length (ofLittle bs) = bs := by
  induction bs with
  | nil => rfl
  | cons b bs ih =>
    have hd : ofLittle (b :: bs) / 256 = ofLittle bs := by
      have := b.toNat_lt
      simp only [ofLittle, List.foldr_cons]; omega
    have hm : UInt8.ofNat (ofLittle (b :: bs)) = b := by
      apply UInt8.toNat_inj.1
      have := b.toNat_lt
      simp only [ofLittle, List.foldr_cons, UInt8.toNat_ofNat']; omega
    simp [little, hd, hm, ih]

theorem big_ofBig (bs : Bytes) : big bs.length (ofBig bs) = bs := by
  have := little_ofLittle bs.reverse
  rw [List.length_reverse] at this
  simp [big, ofBig, this]

theorem ofBig_lt (bs : Bytes) : ofBig bs < Nat.pow 256 bs.length := by
  have hmod := ofBig_big bs.length (ofBig bs)
  rw [big_ofBig] at hmod
  rw [hmod]
  exact Nat.mod_lt _ (Nat.pow_pos (by decide))

/-- Bytes are those of their number, held in as many bits as they have. -/
theorem big_toNat_ofNat {width : Nat} (bs : Bytes)
    (h : Nat.pow 256 bs.length = Nat.pow 2 width) :
    big bs.length (BitVec.ofNat width (ofBig bs)).toNat = bs := by
  have hlt : ofBig bs < Nat.pow 2 width := h ▸ ofBig_lt bs
  have hnumber : (BitVec.ofNat width (ofBig bs)).toNat = ofBig bs := Nat.mod_eq_of_lt hlt
  rw [hnumber, big_ofBig]

/-- Different numbers in as many bits as the bytes have are different bytes. -/
theorem eq_of_big_eq {width count : Nat} (hwidth : Nat.pow 256 count = Nat.pow 2 width)
    {x y : BitVec width} (h : big count x.toNat = big count y.toNat) : x = y := by
  have hfits : ∀ z : BitVec width, z.toNat % Nat.pow 2 width = z.toNat :=
    fun z => Nat.mod_eq_of_lt z.isLt
  have hnumber := congrArg ofBig h
  rw [ofBig_big, ofBig_big, hwidth, hfits, hfits] at hnumber
  exact BitVec.eq_of_toNat_eq hnumber

/-- Cuts bytes into pieces of a length; the last piece may be shorter. -/
def pieces (length : Nat) (bs : Bytes) : List Bytes :=
  (List.range ((bs.length + length - 1) / length)).map fun i =>
    (bs.drop (i * length)).take length

end SealedStore.Octets
