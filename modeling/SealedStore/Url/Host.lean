import SealedStore.Text.Hex
import SealedStore.Text.Integer
import SealedStore.Text.Split

set_option autoImplicit false

/-!
# Hosts

The host of a URL: a name, or the number of a machine in square brackets.  A number has eight groups
of sixteen bits; one double colon stands for as many groups of zero as are missing, at least one,
and the last two groups may be written as four decimal numbers with points between them.
-/

namespace SealedStore.Url

/-- A host. -/
inductive Host
  /-- A name. -/
  | name (text : String)
  /-- A number, by its eight groups. -/
  | number (groups : List Nat)
  deriving DecidableEq, Repr, Inhabited

namespace Host

/-! ## Numbers -/

/-- A group: one to four hexadecimal digits. -/
def group? (cs : List Char) : Option Nat :=
  if cs = [] ∨ 4 < cs.length then none
  else (cs.mapM Hex.value?).map fun digits => digits.foldl (fun n d => n * 16 + d) 0

/-- One of the four decimal numbers: below 256, and no zero leads. -/
def octet? : List Char → Option Nat
  | '0' :: _ :: _ => none
  | cs => (Integer.natural? cs).filter (· < 256)

/-- Four decimal numbers, as two groups. -/
def pair? (cs : List Char) : Option (List Nat) :=
  match (Text.split '.' cs).mapM octet? with
  | some [a, b, c, d] => some [a * 256 + b, c * 256 + d]
  | _ => none

/-- Groups between colons; if they end the number, the last may be four decimal numbers. -/
def groups? (final : Bool) : List (List Char) → Option (List Nat)
  | [] => some []
  | [cs] => if final && cs.contains '.' then pair? cs else (group? cs).map fun n => [n]
  | cs :: rest => do return (← group? cs) :: (← groups? final rest)

/-- The groups of a part of a number; the empty part has none. -/
def part? (final : Bool) (cs : List Char) : Option (List Nat) :=
  if cs = [] then some [] else groups? final (Text.split ':' cs)

/-- What stands before and after the first double colon. -/
def gap? : List Char → Option (List Char × List Char)
  | ':' :: ':' :: rest => some ([], rest)
  | c :: rest => (gap? rest).map fun (before, after) => (c :: before, after)
  | [] => none

/-- The eight groups of a number. -/
def number? (cs : List Char) : Option (List Nat) :=
  match gap? cs with
  | none => (part? true cs).filter (·.length = 8)
  | some (before, after) => do
    let left ← part? false before
    let right ← part? true after
    let given := left.length + right.length
    if given < 8 then return left ++ List.replicate (8 - given) 0 ++ right else none

/-! ## Names -/

/-- The characters that no name has. -/
def forbidden : List Char := "\x00\t\n\r #/:<>?@[\\]^|".toList

/-- A host that is not empty. -/
def read? : List Char → Option Host
  | '[' :: cs =>
    match cs.getLast? with
    | some ']' => (number? cs.dropLast).map number
    | _ => none
  | cs => if cs = [] ∨ cs.any forbidden.contains then none else some (.name (String.ofList cs))

/-- Cuts off what comes behind a host: a colon that is not in square brackets, and all after it. -/
def span (inside : Bool) : List Char → List Char × List Char
  | [] => ([], [])
  | c :: cs =>
    if c = ':' ∧ ¬ inside then ([], c :: cs)
    else
      let (host, rest) := span (if c = '[' then true else if c = ']' then false else inside) cs
      (c :: host, rest)

end Host

end SealedStore.Url
