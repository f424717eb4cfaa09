import SealedStore.Error

set_option autoImplicit false

/-!
# Namespaces

How keys are named.  A key inside a namespace is written behind the namespace and a colon; each
namespace keeps the names of its lookup hashes and of its sequence counter.
-/

namespace SealedStore.Namespace

/-- The full name of a key inside a namespace. -/
def key (space name : String) : String := space ++ ":" ++ name

/-- The namespace that applies: an explicit one goes before the default one, and an empty one is
none. -/
def effective? (explicit default : Option String) : Option String :=
  (explicit.or default).filter (· ≠ "")

/-- The full name of a key under an explicit and a default namespace. -/
def resolve (name : String) (explicit default : Option String) : String :=
  match effective? explicit default with
  | some space => key space name
  | none => name

/-- A full name without its namespace, if it lies in it. -/
def strip (fullName : String) (space : Option String) : String :=
  match space.filter (· ≠ "") with
  | none => fullName
  | some space =>
    let mark := (key space "").toList
    if mark.isPrefixOf fullName.toList then String.ofList (fullName.toList.drop mark.length)
    else fullName

/-- The hash that maps the keys of an index to full names. -/
def lookupKey (space index : String) : String := space ++ ":lookup:" ++ index

/-- The counter that numbers the records of a namespace. -/
def sequenceKey (space : String) : String := key space "sequence"

/-- Whether a full name is that of the counter of some namespace that is not empty. -/
def isCounter (fullName : String) : Bool :=
  let mark := (sequenceKey "").toList
  mark.isSuffixOf fullName.toList && mark.length < fullName.toList.length

/-- Records may not be written under the name of a counter. -/
def checkWritable (fullName : String) : Answer Unit :=
  if isCounter fullName then .error (.reservedKey fullName) else .ok ()

theorem isCounter_sequenceKey {space : String} (h : space ≠ "") :
    isCounter (sequenceKey space) = true := by
  have hl : space.toList ≠ [] := fun e => h (String.toList_inj.1 (by simpa using e))
  have hp : 0 < space.toList.length := List.length_pos_iff.2 hl
  simp only [isCounter, sequenceKey, key, String.toList_append, Bool.and_eq_true,
    List.isSuffixOf_iff_suffix, decide_eq_true_eq, List.length_append]
  refine ⟨⟨space.toList, by simp⟩, ?_⟩
  have : ("" : String).toList.length = 0 := rfl
  omega

end SealedStore.Namespace
