import SealedStore.Keyspace.Basic

set_option autoImplicit false

/-!
# Replies

What a server answers, and how each answer is read as the type that is asked for.  A reply of
another form than any listed cannot be read.
-/

namespace SealedStore.Server

/-- A reply. -/
inductive Reply
  /-- Nothing. -/
  | nil
  /-- An integer. -/
  | integer (i : Int)
  /-- A short word about how it went. -/
  | status (s : String)
  /-- Bytes. -/
  | bulk (bs : Bytes)
  /-- Several replies. -/
  | array (items : List Reply)
  /-- The request was refused. -/
  | error
  deriving Repr, Inhabited

namespace Reply

mutual

/-- Whether a reply is an error or holds one at any depth. -/
def hasError : Reply → Bool
  | .error => true
  | .array items => itemsHaveError items
  | _ => false
termination_by structural r => r

/-- Whether one of several replies is an error or holds one. -/
def itemsHaveError : List Reply → Bool
  | [] => false
  | r :: rest => hasError r || itemsHaveError rest
termination_by structural rs => rs

end

/-! ## Numbers and texts -/

/-- An unsigned number below a power of two; an integer is cut to its low bits. -/
def natural? (bound : Nat) : Reply → Option Nat
  | .integer i => some (i % bound).toNat
  | .status s => Integer.unsigned? (bound - 1) s
  | .bulk bs => (Utf8.decode? bs).bind (Integer.unsigned? (bound - 1))
  | _ => none

/-- A signed 64-bit number. -/
def signed? : Reply → Option Int
  | .integer i => some i
  | .status s => Integer.signed? Integer.least64 Integer.greatest64 s
  | .bulk bs =>
    (Utf8.decode? bs).bind (Integer.signed? Integer.least64 Integer.greatest64)
  | _ => none

/-- A truth value. -/
def bool? : Reply → Option Bool
  | .nil => some false
  | .integer i => some (i ≠ 0)
  | .status s => if s = "1" ∨ s = "OK" then some true else if s = "0" then some false else none
  | .bulk bs =>
    if bs = Utf8.encode "1" then some true
    else if bs = Utf8.encode "0" then some false
    else none
  | _ => none

/-- A text. -/
def text? : Reply → Option String
  | .bulk bs => Utf8.decode? bs
  | .status s => some s
  | .integer i => some (Integer.render i)
  | _ => none

/-! ## Bytes -/

/-- Bytes, as such or as a list of numbers; nothing is no bytes. -/
def bytes? : Reply → Option Bytes
  | .nil => some []
  | .bulk bs => some bs
  | .array items => items.mapM fun r => (r.natural? 0x100).map UInt8.ofNat
  | _ => none

/-- Bytes or nothing. -/
def optionalBytes? : Reply → Option (Option Bytes)
  | .nil => some none
  | r => r.bytes?.map some

/-! ## Lists -/

/-- A list of bytes or nothing. -/
def optionalBytesList? : Reply → Option (List (Option Bytes))
  | .nil => some []
  | .bulk bs => some [some bs]
  | .array items => items.mapM optionalBytes?
  | _ => none

/-- A list of texts. -/
def texts? : Reply → Option (List String)
  | .nil => some []
  | .bulk bs => (Utf8.decode? bs).map fun s => [s]
  | .array items => items.mapM text?
  | _ => none

/-- The pairs of a list of names and bytes in turn. -/
def pairs? : List Reply → Option (List (String × Bytes))
  | [] => some []
  | name :: value :: rest => do
    let name ← name.text?
    let value ← value.bytes?
    return (name, value) :: (← pairs? rest)
  | _ => none

/-- The fields of a hash; of two fields of a name the later one counts. -/
def fields? : Reply → Option Fields
  | .array items => (pairs? items).map fun members => Std.ExtTreeMap.ofList members
  | _ => none

/-- A page of a scan: the next cursor and some keys. -/
def page? : Reply → Option (Nat × List String)
  | .array [cursor, keys] => do
    let cursor ← cursor.natural? 0x10000000000000000
    let keys ← keys.texts?
    return (cursor, keys)
  | _ => none

end Reply

end SealedStore.Server
