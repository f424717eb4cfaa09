import SealedStore.Namespace
import SealedStore.Text.Integer
import SealedStore.Text.Utf8

set_option autoImplicit false

/-!
# Names that do not collide

Every name of a namespace is a key behind the namespace and a colon, those of lookup hashes and of
the counter among them.  So names are told apart by their keys, and a number that is drawn is the
key of neither a lookup hash nor a counter.
-/

namespace SealedStore

namespace Utf8

theorem encode_injective {s t : String} (h : encode s = encode t) : s = t := by
  have hbytes : s.toList.utf8Encode = t.toList.utf8Encode := congrArg List.toByteArray h
  rw [String.utf8Encode_toList, String.utf8Encode_toList] at hbytes
  exact String.toByteArray_inj.1 hbytes

end Utf8

namespace Namespace

/-- Whether a key is one of those that lookup hashes have. -/
def isLookup (key : String) : Bool := "lookup:".toList.isPrefixOf key.toList

theorem key_injective {space a b : String} (h : key space a = key space b) : a = b := by
  have hchars := congrArg String.toList h
  simp only [key, String.toList_append, List.append_cancel_left_eq] at hchars
  exact String.toList_inj.1 hchars

theorem lookupKey_eq_key (space index : String) :
    lookupKey space index = key space ("lookup:" ++ index) := by
  refine String.toList_inj.1 ?_
  simp only [lookupKey, key, String.toList_append, List.append_assoc]
  rfl

theorem isLookup_append (index : String) : isLookup ("lookup:" ++ index) = true := by
  simp [isLookup]

theorem lookupKey_injective {space a b : String} (h : lookupKey space a = lookupKey space b) :
    a = b := by
  rw [lookupKey_eq_key, lookupKey_eq_key] at h
  have hchars := congrArg String.toList (key_injective h)
  simp only [String.toList_append, List.append_cancel_left_eq] at hchars
  exact String.toList_inj.1 hchars

theorem key_ne_lookupKey {space k : String} (h : isLookup k = false) (index : String) :
    key space k ≠ lookupKey space index := by
  intro he
  rw [lookupKey_eq_key] at he
  rw [key_injective he, isLookup_append] at h
  cases h

theorem isLookup_sequence : isLookup "sequence" = false := by decide

theorem sequenceKey_injective {a b : String} (h : sequenceKey a = sequenceKey b) : a = b := by
  have hchars := congrArg String.toList h
  simp only [sequenceKey, key, String.toList_append, List.append_cancel_right_eq] at hchars
  exact String.toList_inj.1 hchars

theorem sequenceKey_ne_lookupKey (space index : String) :
    sequenceKey space ≠ lookupKey space index :=
  key_ne_lookupKey isLookup_sequence index

/-- What may be written under a name is not the counter. -/
theorem sequenceKey_ne_of_writable {space name : String} (hspace : space ≠ "")
    (h : isCounter name = false) : sequenceKey space ≠ name := by
  rintro rfl
  rw [isCounter_sequenceKey hspace] at h
  cases h

/-- A record whose name is not that of a counter has another key than the counter. -/
theorem ne_sequence_of_writable {space k : String} (hspace : space ≠ "")
    (h : isCounter (key space k) = false) : k ≠ "sequence" :=
  fun he => sequenceKey_ne_of_writable hspace h (he ▸ rfl)

/-- The hash of an index that is called like the counter is the counter of a longer namespace. -/
theorem lookupKey_sequence (space : String) :
    lookupKey space "sequence" = sequenceKey (space ++ ":lookup") := by
  refine String.toList_inj.1 ?_
  simp only [lookupKey, sequenceKey, key, String.toList_append, List.append_assoc]
  rfl

/-- A full name without its namespace is the key. -/
theorem strip_resolve (name : String) (explicit default : Option String) :
    strip (resolve name explicit default) (explicit.or default) = name := by
  unfold strip resolve effective?
  cases (explicit.or default).filter (· ≠ "") with
  | none => rfl
  | some space =>
    have hchars : (key space name).toList = (key space "").toList ++ name.toList := by simp [key]
    have hbegins : (key space "").toList.isPrefixOf (key space name).toList = true :=
      List.isPrefixOf_iff_prefix.2 ⟨name.toList, hchars.symm⟩
    simp only [hbegins, ↓reduceIte]
    rw [hchars, List.drop_left, String.ofList_toList]

/-- The name of a counter ends in the last letter of the reserved word. -/
theorem isCounter_eq_false {name : String} (h : name.toList.getLast? ≠ some 'e') :
    isCounter name = false := by
  rw [Bool.eq_false_iff]
  intro hcounter
  simp only [isCounter, Bool.and_eq_true] at hcounter
  obtain ⟨before, hname⟩ := List.isSuffixOf_iff_suffix.1 hcounter.1
  rw [← hname, List.getLast?_append] at h
  exact h rfl

theorem checkWritable_eq_ok {name : String} :
    checkWritable name = .ok () ↔ isCounter name = false := by
  unfold checkWritable
  cases isCounter name <;> simp

end Namespace

/-! ## Numbers as keys -/

namespace Integer

theorem chars_ne_nil (i : Int) : chars i ≠ [] := by
  unfold chars
  split
  · simp
  · exact Nat.toDigits_ne_nil

theorem mem_chars {i : Int} {c : Char} (h : c ∈ chars i) : c = '-' ∨ c.isDigit := by
  have hdigits : ∀ n, c ∈ Nat.toDigits 10 n → c.isDigit :=
    fun n hc => Nat.isDigit_of_mem_toDigits (by decide) (by decide) hc
  unfold chars at h
  split at h
  · rcases List.mem_cons.1 h with hc | hc
    · exact .inl hc
    · exact .inr (hdigits _ hc)
  · exact .inr (hdigits _ h)

theorem render_ne_empty (i : Int) : render i ≠ "" := by
  intro h
  have hchars := congrArg String.toList h
  rw [render, String.toList_ofList] at hchars
  exact chars_ne_nil i hchars

/-- A number is not the key of a counter. -/
theorem isCounter_render (space : String) (i : Int) :
    Namespace.isCounter (Namespace.key space (render i)) = false := by
  refine Namespace.isCounter_eq_false fun hlast => ?_
  have hchars : (Namespace.key space (render i)).toList = (space.toList ++ [':']) ++ chars i := by
    simp [Namespace.key, render]
  rw [hchars, List.getLast?_append, List.getLast?_eq_some_getLast (chars_ne_nil i),
    Option.some_or, Option.some_inj] at hlast
  have hmem : 'e' ∈ chars i := hlast ▸ List.getLast_mem (chars_ne_nil i)
  rcases mem_chars hmem with hc | hc <;> exact absurd hc (by decide)

end Integer

end SealedStore
