import SealedStore.Number.Binary64
import SealedStore.Text.Integer

set_option autoImplicit false

/-!
# JSON values

The values that JSON text stands for.  Numbers are integers of 64 bits, signed or unsigned, or
finite binary64 numbers.  The members of an object are kept in the order of their names, each name
once; `Json.Canonical` says so at every depth.
-/

namespace SealedStore

/-- A JSON number. -/
inductive Number
  /-- An integer that fits 64 bits, signed or unsigned. -/
  | integer (i : Int) (inRange : -0x8000000000000000 ≤ i ∧ i < 0x10000000000000000)
  /-- A finite floating-point number. -/
  | double (x : Binary64)
  deriving DecidableEq, Repr

instance : Inhabited Number := ⟨.integer 0 (by decide)⟩

namespace Number

/-- The number of an integer that fits 64 bits. -/
def ofInt? (i : Int) : Option Number :=
  if h : -0x8000000000000000 ≤ i ∧ i < 0x10000000000000000 then some (.integer i h) else none

/-- The nearest floating-point number. -/
def toBinary64 : Number → Binary64
  | .integer i _ => .ofInt i
  | .double x => x

/-- The integer between two bounds that a number is; floating-point numbers never are. -/
def toInt? (low high : Int) : Number → Option Int
  | .integer i _ => if low ≤ i ∧ i ≤ high then some i else none
  | .double _ => none

end Number

/-- A JSON value. -/
inductive Json
  /-- The value `null`. -/
  | null
  /-- A truth value. -/
  | bool (b : Bool)
  /-- A number. -/
  | number (n : Number)
  /-- A string. -/
  | text (s : String)
  /-- An array. -/
  | array (items : List Json)
  /-- An object with its members. -/
  | object (members : List (String × Json))
  deriving Repr, Inhabited

mutual

/-- Equality of values is decided constructor by constructor. -/
def Json.decEq : (a b : Json) → Decidable (a = b)
  | .null, b => by cases b <;> first | exact isTrue rfl | exact isFalse nofun
  | .bool x, b => by
    cases b with
    | bool y => exact decidable_of_iff (x = y) (by simp)
    | _ => exact isFalse nofun
  | .number x, b => by
    cases b with
    | number y => exact decidable_of_iff (x = y) (by simp)
    | _ => exact isFalse nofun
  | .text x, b => by
    cases b with
    | text y => exact decidable_of_iff (x = y) (by simp)
    | _ => exact isFalse nofun
  | .array x, b => by
    cases b with
    | array y => exact @decidable_of_iff _ (x = y) (by simp) (Json.decEqItems x y)
    | _ => exact isFalse nofun
  | .object x, b => by
    cases b with
    | object y => exact @decidable_of_iff _ (x = y) (by simp) (Json.decEqMembers x y)
    | _ => exact isFalse nofun
termination_by structural a => a

/-- Equality of lists of items. -/
def Json.decEqItems : (a b : List Json) → Decidable (a = b)
  | [], [] => isTrue rfl
  | [], _ :: _ => isFalse nofun
  | _ :: _, [] => isFalse nofun
  | x :: xs, y :: ys =>
    match Json.decEq x y, Json.decEqItems xs ys with
    | isTrue h, isTrue hs => isTrue (by rw [h, hs])
    | isFalse h, _ => isFalse fun e => h (List.cons.inj e).1
    | _, isFalse h => isFalse fun e => h (List.cons.inj e).2
termination_by structural a => a

/-- Equality of lists of members. -/
def Json.decEqMembers : (a b : List (String × Json)) → Decidable (a = b)
  | [], [] => isTrue rfl
  | [], _ :: _ => isFalse nofun
  | _ :: _, [] => isFalse nofun
  | x :: xs, y :: ys =>
    match Json.decEqMember x y, Json.decEqMembers xs ys with
    | isTrue h, isTrue hs => isTrue (by rw [h, hs])
    | isFalse h, _ => isFalse fun e => h (List.cons.inj e).1
    | _, isFalse h => isFalse fun e => h (List.cons.inj e).2
termination_by structural a => a

/-- Equality of members. -/
def Json.decEqMember : (a b : String × Json) → Decidable (a = b)
  | (n, x), (m, y) =>
    match instDecidableEqString n m, Json.decEq x y with
    | isTrue h, isTrue hs => isTrue (by rw [h, hs])
    | isFalse h, _ => isFalse fun e => h (Prod.mk.inj e).1
    | _, isFalse h => isFalse fun e => h (Prod.mk.inj e).2
termination_by structural a => a

end

instance : DecidableEq Json := Json.decEq

/-- The members of an object. -/
abbrev Record := List (String × Json)

namespace Record

/-- The value of a member. -/
def find? (r : Record) (name : String) : Option Json := r.lookup name

/-- The members with one more, in order; a member of that name is replaced. -/
def insert (name : String) (value : Json) : Record → Record
  | [] => [(name, value)]
  | (other, old) :: rest =>
    if name < other then (name, value) :: (other, old) :: rest
    else if name = other then (name, value) :: rest
    else (other, old) :: insert name value rest

/-- The members in order; of several with one name the last one counts. -/
def ofMembers (members : List (String × Json)) : Record :=
  members.foldl (fun r m => r.insert m.1 m.2) []

/-- The names stand in strictly increasing order. -/
def Sorted (r : Record) : Prop := r.Pairwise fun a b => a.1 < b.1

theorem insert_of_forall_lt (r : Record) (name : String) (value : Json)
    (h : ∀ m ∈ r, m.1 < name) : r.insert name value = r ++ [(name, value)] := by
  induction r with
  | nil => rfl
  | cons m rest ih =>
    have hm := h m List.mem_cons_self
    have hn : ¬ name < m.1 := String.lt_asymm hm
    have he : name ≠ m.1 := fun e => String.lt_irrefl _ (e ▸ hm)
    rw [Record.insert, ih fun x hx => h x (List.mem_cons_of_mem _ hx)]
    simp [hn, he]

/-- Members that are in order stay as they are. -/
theorem ofMembers_of_sorted {r : Record} (h : Sorted r) : ofMembers r = r := by
  suffices ∀ (before after : Record), (∀ a ∈ before, ∀ b ∈ after, a.1 < b.1) → Sorted after →
      after.foldl (fun r m => r.insert m.1 m.2) before = before ++ after by
    simpa [ofMembers] using this [] r (by simp) h
  intro before after hb ha
  induction after generalizing before with
  | nil => simp
  | cons m rest ih =>
    obtain ⟨hm, hrest⟩ := List.pairwise_cons.1 ha
    rw [List.foldl_cons, insert_of_forall_lt _ _ _ fun a h' => hb a h' m List.mem_cons_self,
      ih _ _ hrest]
    · simp
    · intro a h' b hb'
      rcases List.mem_append.1 h' with h' | h'
      · exact hb a h' b (List.mem_cons_of_mem _ hb')
      · simp only [List.mem_singleton] at h'
        exact h' ▸ hm b hb'

end Record

/-- What sort of value a JSON value is. -/
inductive Kind
  | object | array | bool | float | uint | string | null
  deriving DecidableEq, Repr, Inhabited

/-- The name of a kind. -/
def Kind.name : Kind → String
  | .object => "object"
  | .array => "array"
  | .bool => "bool"
  | .float => "float"
  | .uint => "uint"
  | .string => "string"
  | .null => "null"

namespace Json

/-- The kind of a value; a negative integer counts as `float`. -/
def kind : Json → Kind
  | .null => .null
  | .bool _ => .bool
  | .number (.integer i _) => if 0 ≤ i then .uint else .float
  | .number (.double _) => .float
  | .text _ => .string
  | .array _ => .array
  | .object _ => .object

/-- The JSON number of an integer, `null` when it does not fit 64 bits. -/
def ofInt (i : Int) : Json := ((Number.ofInt? i).map Json.number).getD .null

mutual

/-- Every object in the value has its members in order. -/
def Canonical : Json → Prop
  | .array items => CanonicalItems items
  | .object members => Record.Sorted members ∧ CanonicalMembers members
  | _ => True
termination_by structural j => j

/-- Every item is canonical. -/
def CanonicalItems : List Json → Prop
  | [] => True
  | j :: rest => j.Canonical ∧ CanonicalItems rest
termination_by structural js => js

/-- Every member is canonical. -/
def CanonicalMembers : List (String × Json) → Prop
  | [] => True
  | m :: rest => CanonicalMember m ∧ CanonicalMembers rest
termination_by structural ms => ms

/-- The value of a member is canonical. -/
def CanonicalMember : String × Json → Prop
  | (_, j) => j.Canonical
termination_by structural m => m

end

mutual

/-- The number of arrays and objects around the innermost value. -/
def depth : Json → Nat
  | .array items => depthItems items + 1
  | .object members => depthMembers members + 1
  | _ => 0
termination_by structural j => j

/-- The greatest depth among items. -/
def depthItems : List Json → Nat
  | [] => 0
  | j :: rest => max j.depth (depthItems rest)
termination_by structural js => js

/-- The greatest depth among members. -/
def depthMembers : List (String × Json) → Nat
  | [] => 0
  | m :: rest => max (depthMember m) (depthMembers rest)
termination_by structural ms => ms

/-- The depth of the value of a member. -/
def depthMember : String × Json → Nat
  | (_, j) => j.depth
termination_by structural m => m

end

end Json

end SealedStore
