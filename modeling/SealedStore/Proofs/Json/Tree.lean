import SealedStore.Json.Tree
import SealedStore.Proofs.Json.Token

set_option autoImplicit false

/-!
# Written values read back

The tokens of a value are put together to its tree (`ofTokens?_tokens`), and the tree of a value
without floating-point numbers is the value again, as long as it is not nested deeper than the
reader goes (`toJson?_toTree`).  There is no middle way: a value that is nested deeper is refused.
-/

namespace SealedStore

namespace Piece

/-- A unit that is no surrogate is a character of its own. -/
theorem text?_unit {n : Nat} (h : n < 0xD800) (rest : List Piece) :
    text? (.unit n :: rest) = (text? rest).map (Char.ofNat n :: ·) := by
  have hhigh : ¬ (0xD800 ≤ n ∧ n < 0xDC00) := by omega
  have hlow : ¬ (0xDC00 ≤ n ∧ n < 0xE000) := by omega
  have hany : ¬ (0xD800 ≤ n ∧ n < 0xE000) := by omega
  cases rest with
  | nil => simp only [text?, hany, ↓reduceIte]
  | cons p rest => cases p <;> simp only [text?, hhigh, hlow, hany, ↓reduceIte]

theorem text?_pieceOf (c : Char) (rest : List Piece) :
    text? (Json.pieceOf c :: rest) = (text? rest).map (c :: ·) := by
  unfold Json.pieceOf
  split
  · rename_i h
    rw [text?_unit (by omega), Char.ofNat_toNat]
  · rfl

/-- A text is the text of the pieces that it is written as. -/
theorem text?_pieces (s : String) : text? (Json.pieces s) = some s.toList := by
  unfold Json.pieces
  induction s.toList with
  | nil => rfl
  | cons c cs ih => rw [List.map_cons, text?_pieceOf, ih, Option.map_some]

end Piece

namespace Json

/-! ## Trees -/

mutual

/-- The tree of a written value. -/
def toTree : Json → Tree
  | .null => .null
  | .bool b => .bool b
  | .number n => .numeral (numeral n)
  | .text s => .quoted (pieces s)
  | .array items => .array (itemTrees items)
  | .object members => .object (memberTrees members)
termination_by structural j => j

/-- The trees of items. -/
def itemTrees : List Json → List Tree
  | [] => []
  | j :: rest => j.toTree :: itemTrees rest
termination_by structural js => js

/-- The names and trees of members. -/
def memberTrees : List (String × Json) → List (List Piece × Tree)
  | [] => []
  | m :: rest => memberTree m :: memberTrees rest
termination_by structural ms => ms

/-- The name and the tree of a member. -/
def memberTree : String × Json → List Piece × Tree
  | (name, j) => (pieces name, j.toTree)
termination_by structural m => m

end

end Json

namespace Tree

/-! ## Parsing the tokens -/

/-- A parser after several tokens. -/
def Parser.read (p : Parser) (ts : List Token) : Option Parser := ts.foldlM Parser.step p

theorem Parser.read_append (p : Parser) (ts us : List Token) :
    p.read (ts ++ us) = (p.read ts).bind fun q => q.read us := by
  unfold Parser.read
  rw [List.foldlM_append]
  rfl

theorem Parser.read_cons (p : Parser) (t : Token) (ts : List Token) :
    p.read (t :: ts) = (p.step t).bind fun q => q.read ts := by
  unfold Parser.read
  rw [List.foldlM_cons]
  rfl

/-- No value begins with a closing bracket, so the first item is read like any other. -/
theorem read_firstItem (j : Json) (outer : List Frame) (rest : List Token) :
    (Parser.firstItem outer).read (j.tokens ++ rest) =
      (Parser.value (.array [] :: outer)).read (j.tokens ++ rest) := by
  cases j <;> rfl

/-- The first member is read like any other. -/
theorem read_firstName (m : String × Json) (outer : List Frame) (rest : List Token) :
    (Parser.firstName outer).read (Json.memberTokens m ++ rest) =
      (Parser.nextName [] outer).read (Json.memberTokens m ++ rest) := by
  cases m
  rfl

mutual

/-- The tokens of a value are put together to its tree. -/
theorem read_tokens : (j : Json) → (outer : List Frame) →
    (Parser.value outer).read j.tokens = some (.done j.toTree outer)
  | .null, _ => rfl
  | .bool _, _ => rfl
  | .number _, _ => rfl
  | .text _, _ => rfl
  | .array items, outer => read_itemsTokens items outer
  | .object members, outer => read_membersTokens members outer
termination_by structural j => j

/-- The items of an array and its closing bracket. -/
theorem read_itemsTokens : (js : List Json) → (outer : List Frame) →
    (Parser.firstItem outer).read (Json.itemsTokens js) =
      some (.done (.array (Json.itemTrees js)) outer)
  | [], _ => rfl
  | j :: rest, outer => by
    rw [Json.itemsTokens, read_firstItem, Parser.read_append, read_tokens j, Option.bind_some,
      read_moreItemsTokens rest]
    rfl
termination_by structural js => js

/-- The items after a complete one and the closing bracket. -/
theorem read_moreItemsTokens : (js : List Json) → (last : Tree) → (before : List Tree) →
    (outer : List Frame) →
    (Parser.done last (.array before :: outer)).read (Json.moreItemsTokens js) =
      some (.done (.array ((last :: before).reverse ++ Json.itemTrees js)) outer)
  | [], last, before, outer => by
    rw [Json.itemTrees, List.append_nil]
    rfl
  | j :: rest, last, before, outer => by
    have hcomma : (Parser.done last (.array before :: outer)).step .comma =
        some (.value (.array (last :: before) :: outer)) := rfl
    rw [Json.moreItemsTokens, Parser.read_cons, hcomma, Option.bind_some, Parser.read_append,
      read_tokens j, Option.bind_some, read_moreItemsTokens rest, List.reverse_cons (a := j.toTree),
      List.append_assoc, Json.itemTrees]
    rfl
termination_by structural js => js

/-- The members of an object and its closing brace. -/
theorem read_membersTokens : (ms : List (String × Json)) → (outer : List Frame) →
    (Parser.firstName outer).read (Json.membersTokens ms) =
      some (.done (.object (Json.memberTrees ms)) outer)
  | [], _ => rfl
  | m :: rest, outer => by
    rw [Json.membersTokens, read_firstName, Parser.read_append, read_memberTokens m,
      Option.bind_some, read_moreMembersTokens rest]
    rfl
termination_by structural ms => ms

/-- The members after a complete value and the closing brace. -/
theorem read_moreMembersTokens : (ms : List (String × Json)) → (last : List Piece × Tree) →
    (before : List (List Piece × Tree)) → (outer : List Frame) →
    (Parser.done last.2 (.object before last.1 :: outer)).read (Json.moreMembersTokens ms) =
      some (.done (.object ((last :: before).reverse ++ Json.memberTrees ms)) outer)
  | [], last, before, outer => by
    rw [Json.memberTrees, List.append_nil]
    rfl
  | m :: rest, last, before, outer => by
    have hcomma : (Parser.done last.2 (.object before last.1 :: outer)).step .comma =
        some (.nextName (last :: before) outer) := rfl
    rw [Json.moreMembersTokens, Parser.read_cons, hcomma, Option.bind_some, Parser.read_append,
      read_memberTokens m, Option.bind_some, read_moreMembersTokens rest,
      List.reverse_cons (a := Json.memberTree m), List.append_assoc, Json.memberTrees]
    rfl
termination_by structural ms => ms

/-- A name, a colon and a value. -/
theorem read_memberTokens : (m : String × Json) → (before : List (List Piece × Tree)) →
    (outer : List Frame) →
    (Parser.nextName before outer).read (Json.memberTokens m) =
      some (.done (Json.memberTree m).2 (.object before (Json.memberTree m).1 :: outer))
  | (name, j), before, outer => read_tokens j (.object before (Json.pieces name) :: outer)
termination_by structural m => m

end

/-- The tokens of a value are exactly one value. -/
theorem ofTokens?_tokens (j : Json) : ofTokens? j.tokens = some j.toTree := by
  have h : j.tokens.foldlM Parser.step (.value []) = some (.done j.toTree []) := read_tokens j []
  unfold ofTokens?
  rw [h]

/-- The text of a value reads as its tree. -/
theorem read?_render {j : Json} (h : j.Integral) :
    read? (Utf8.encode j.render) = some j.toTree := by
  unfold read?
  rw [Token.scan?_render h, Option.bind_some, ofTokens?_tokens]

/-! ## The value of the tree -/

mutual

/-- The tree of a value is the value again, unless it is nested deeper than the limit. -/
theorem toJson?_toTree (limit : Nat) : (j : Json) → j.Integral → j.Canonical →
    j.toTree.toJson? limit = if j.depth ≤ limit then some j else none
  | .null, _, _ => rfl
  | .bool _, _, _ => rfl
  | .number (.integer i inRange), _, _ => by
    rw [Json.toTree, Json.numeral_integer, toJson?, Numeral.toNumber?_ofInt inRange]
    rfl
  | .text s, _, _ => by
    rw [Json.toTree, toJson?, Piece.text?_pieces, Option.map_some, String.ofList_toList]
    rfl
  | .array items, h, hc => by
    rw [Json.toTree, toJson?, toItems?_itemTrees (limit - 1) items h hc, Json.depth]
    by_cases hzero : limit = 0
    · rw [if_pos hzero, if_neg (by omega)]
    · by_cases hfits : Json.depthItems items + 1 ≤ limit
      · rw [if_neg hzero, if_pos (by omega), if_pos hfits, Option.map_some]
      · rw [if_neg hzero, if_neg (by omega), if_neg hfits, Option.map_none]
  | .object members, h, hc => by
    rw [Json.toTree, toJson?, toMembers?_memberTrees (limit - 1) members h hc.2, Json.depth]
    by_cases hzero : limit = 0
    · rw [if_pos hzero, if_neg (by omega)]
    · by_cases hfits : Json.depthMembers members + 1 ≤ limit
      · rw [if_neg hzero, if_pos (by omega), if_pos hfits, Option.map_some,
          Record.ofMembers_of_sorted hc.1]
      · rw [if_neg hzero, if_neg (by omega), if_neg hfits, Option.map_none]
termination_by structural j => j

/-- The items of an array, as long as none is nested too deep. -/
theorem toItems?_itemTrees (limit : Nat) : (js : List Json) → Json.IntegralItems js →
    Json.CanonicalItems js →
    toItems? limit (Json.itemTrees js) = if Json.depthItems js ≤ limit then some js else none
  | [], _, _ => by
    rw [Json.depthItems, if_pos (Nat.zero_le _)]
    rfl
  | j :: rest, h, hc => by
    rw [Json.itemTrees, toItems?, toJson?_toTree limit j h.1 hc.1,
      toItems?_itemTrees limit rest h.2 hc.2, Json.depthItems]
    simp only [Nat.max_le]
    by_cases hj : j.depth ≤ limit <;> by_cases hrest : Json.depthItems rest ≤ limit <;>
      simp [hj, hrest]
termination_by structural js => js

/-- The members of an object, as long as no value is nested too deep. -/
theorem toMembers?_memberTrees (limit : Nat) : (ms : List (String × Json)) →
    Json.IntegralMembers ms → Json.CanonicalMembers ms →
    toMembers? limit (Json.memberTrees ms) =
      if Json.depthMembers ms ≤ limit then some ms else none
  | [], _, _ => by
    rw [Json.depthMembers, if_pos (Nat.zero_le _)]
    rfl
  | m :: rest, h, hc => by
    rw [Json.memberTrees, toMembers?, toMember?_memberTree limit m h.1 hc.1,
      toMembers?_memberTrees limit rest h.2 hc.2, Json.depthMembers]
    simp only [Nat.max_le]
    by_cases hm : Json.depthMember m ≤ limit <;> by_cases hrest : Json.depthMembers rest ≤ limit <;>
      simp [hm, hrest]
termination_by structural ms => ms

/-- A member, as long as its value is not nested too deep. -/
theorem toMember?_memberTree (limit : Nat) : (m : String × Json) → Json.IntegralMember m →
    Json.CanonicalMember m →
    toMember? limit (Json.memberTree m) = if Json.depthMember m ≤ limit then some m else none
  | (name, j), h, hc => by
    rw [Json.memberTree, toMember?, Piece.text?_pieces, toJson?_toTree limit j h hc,
      Json.depthMember]
    by_cases hj : j.depth ≤ limit <;> simp [hj]
termination_by structural m => m

end

end Tree

end SealedStore
