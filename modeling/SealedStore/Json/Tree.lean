import SealedStore.Json.Token

set_option autoImplicit false

/-!
# JSON syntax trees

Tokens put together by the grammar of JSON, with numbers and texts as they are written.  The parser
takes one token at a time and keeps what it is inside of on a stack, so nesting has no limit here.
-/

namespace SealedStore

/-- A syntax tree of JSON text. -/
inductive Tree
  | null
  | bool (b : Bool)
  | numeral (n : Numeral)
  | quoted (pieces : List Piece)
  | array (items : List Tree)
  | object (members : List (List Piece × Tree))
  deriving Repr, Inhabited

namespace Tree

/-- An array or object that is still open. -/
inductive Frame
  /-- An array; its items so far, last first. -/
  | array (items : List Tree)
  /-- An object inside the member called `name`; the members before it, last first. -/
  | object (members : List (List Piece × Tree)) (name : List Piece)
  deriving Repr, Inhabited

/-- What a parser has seen, by what may come next; `outer` is what it is inside of. -/
inductive Parser
  /-- A value must come. -/
  | value (outer : List Frame)
  /-- An array is open: a value or its end must come. -/
  | firstItem (outer : List Frame)
  /-- An object is open: a name or its end must come. -/
  | firstName (outer : List Frame)
  /-- A comma was read in an object: a name must come. -/
  | nextName (members : List (List Piece × Tree)) (outer : List Frame)
  /-- A name was read: a colon must come. -/
  | colon (members : List (List Piece × Tree)) (name : List Piece) (outer : List Frame)
  /-- A value is complete. -/
  | done (tree : Tree) (outer : List Frame)
  deriving Repr, Inhabited

/-- A token where a value must come. -/
def beginValue (outer : List Frame) : Token → Option Parser
  | .null => some (.done .null outer)
  | .bool b => some (.done (.bool b) outer)
  | .numeral n => some (.done (.numeral n) outer)
  | .quoted pieces => some (.done (.quoted pieces) outer)
  | .openArray => some (.firstItem outer)
  | .openObject => some (.firstName outer)
  | _ => none

/-- A token after a complete value. -/
def afterValue (tree : Tree) : List Frame → Token → Option Parser
  | .array items :: outer, .comma => some (.value (.array (tree :: items) :: outer))
  | .array items :: outer, .closeArray => some (.done (.array (tree :: items).reverse) outer)
  | .object members name :: outer, .comma => some (.nextName ((name, tree) :: members) outer)
  | .object members name :: outer, .closeObject =>
    some (.done (.object ((name, tree) :: members).reverse) outer)
  | _, _ => none

/-- One token. -/
def Parser.step : Parser → Token → Option Parser
  | .value outer, t => beginValue outer t
  | .firstItem outer, .closeArray => some (.done (.array []) outer)
  | .firstItem outer, t => beginValue (.array [] :: outer) t
  | .firstName outer, .closeObject => some (.done (.object []) outer)
  | .firstName outer, .quoted name => some (.colon [] name outer)
  | .nextName members outer, .quoted name => some (.colon members name outer)
  | .colon members name outer, .colon => some (.value (.object members name :: outer))
  | .done tree outer, t => afterValue tree outer t
  | _, _ => none

/-- The tree of a sequence of tokens, `none` when it is not exactly one value. -/
def ofTokens? (tokens : List Token) : Option Tree :=
  match tokens.foldlM Parser.step (.value []) with
  | some (.done tree []) => some tree
  | _ => none

/-- The tree of JSON text. -/
def read? (bs : Bytes) : Option Tree :=
  (Token.scan? (Utf8.symbols bs)).bind ofTokens?

/-- The text of a quoted tree. -/
def text? : Tree → Option String
  | .quoted pieces => (Piece.text? pieces).map String.ofList
  | _ => none

mutual

/-- The value of a tree with at most `limit` arrays and objects inside each other. -/
def toJson? (limit : Nat) : Tree → Option Json
  | .null => some .null
  | .bool b => some (.bool b)
  | .numeral n => n.toNumber?.map .number
  | .quoted pieces => (Piece.text? pieces).map fun cs => .text (String.ofList cs)
  | .array items =>
    if limit = 0 then none else (toItems? (limit - 1) items).map .array
  | .object members =>
    if limit = 0 then none
    else (toMembers? (limit - 1) members).map fun ms => .object (Record.ofMembers ms)
termination_by structural t => t

/-- The values of items. -/
def toItems? (limit : Nat) : List Tree → Option (List Json)
  | [] => some []
  | t :: rest =>
    match toJson? limit t, toItems? limit rest with
    | some j, some js => some (j :: js)
    | _, _ => none
termination_by structural ts => ts

/-- The members with their values, in the order written. -/
def toMembers? (limit : Nat) : List (List Piece × Tree) → Option (List (String × Json))
  | [] => some []
  | m :: rest =>
    match toMember? limit m, toMembers? limit rest with
    | some m, some ms => some (m :: ms)
    | _, _ => none
termination_by structural ms => ms

/-- A member with its value. -/
def toMember? (limit : Nat) : List Piece × Tree → Option (String × Json)
  | (name, t) =>
    match Piece.text? name, toJson? limit t with
    | some cs, some j => some (String.ofList cs, j)
    | _, _ => none
termination_by structural m => m

end

end Tree

namespace Json

/-- The greatest number of arrays and objects inside each other that reading takes. -/
def maxDepth : Nat := 127

/-- Reads JSON text nested at most `limit` deep: one value, blanks around it, and nothing else. -/
def readWithin? (limit : Nat) (bs : Bytes) : Option Json :=
  (Tree.read? bs).bind (Tree.toJson? limit)

/-- Reads JSON text. -/
def read? (bs : Bytes) : Option Json := readWithin? maxDepth bs

end Json

end SealedStore
