import SealedStore.Json.Token
import SealedStore.Proofs.Json.Numeral
import SealedStore.Proofs.Text.Utf8

set_option autoImplicit false

/-!
# The tokens of written values

A value without floating-point numbers is written as a text that scans into its tokens
(`read_chars`).  A number or a word ends only where the next token begins, so a value is followed by
a delimiter or by nothing.
-/

namespace SealedStore

namespace Json

/-! ## Values without floating-point numbers -/

mutual

/-- No number in the value is a floating-point number. -/
def Integral : Json → Prop
  | .number (.double _) => False
  | .array items => IntegralItems items
  | .object members => IntegralMembers members
  | _ => True
termination_by structural j => j

/-- Every item is integral. -/
def IntegralItems : List Json → Prop
  | [] => True
  | j :: rest => j.Integral ∧ IntegralItems rest
termination_by structural js => js

/-- Every member is integral. -/
def IntegralMembers : List (String × Json) → Prop
  | [] => True
  | m :: rest => IntegralMember m ∧ IntegralMembers rest
termination_by structural ms => ms

/-- The value of a member is integral. -/
def IntegralMember : String × Json → Prop
  | (_, j) => j.Integral
termination_by structural m => m

end

/-! ## Tokens -/

/-- The piece that a character is written as: control characters without a letter of their own go by
number. -/
def pieceOf (c : Char) : Piece :=
  if c.toNat < 0x20 ∧ c ∉ ['\x08', '\x0C', '\n', '\r', '\t'] then .unit c.toNat else .char c

/-- The pieces that a text is written as. -/
def pieces (s : String) : List Piece := s.toList.map pieceOf

/-- The numeral that a number is written as. -/
def numeral (n : Number) : Numeral := (Numeral.read? n.chars).getD default

theorem numeral_integer {i : Int} (inRange : -0x8000000000000000 ≤ i ∧ i < 0x10000000000000000) :
    numeral (.integer i inRange) = .ofInt i := by
  simp only [numeral, Number.chars, Numeral.read?_chars, Option.getD_some]

mutual

/-- The tokens that a value is written as. -/
def tokens : Json → List Token
  | .null => [.null]
  | .bool b => [.bool b]
  | .number n => [.numeral (numeral n)]
  | .text s => [.quoted (pieces s)]
  | .array items => .openArray :: itemsTokens items
  | .object members => .openObject :: membersTokens members
termination_by structural j => j

/-- The items of an array and its closing bracket. -/
def itemsTokens : List Json → List Token
  | [] => [.closeArray]
  | j :: rest => j.tokens ++ moreItemsTokens rest
termination_by structural js => js

/-- The items after the first one, each behind a comma, and the closing bracket. -/
def moreItemsTokens : List Json → List Token
  | [] => [.closeArray]
  | j :: rest => .comma :: (j.tokens ++ moreItemsTokens rest)
termination_by structural js => js

/-- The members of an object and its closing brace. -/
def membersTokens : List (String × Json) → List Token
  | [] => [.closeObject]
  | m :: rest => memberTokens m ++ moreMembersTokens rest
termination_by structural ms => ms

/-- The members after the first one, each behind a comma, and the closing brace. -/
def moreMembersTokens : List (String × Json) → List Token
  | [] => [.closeObject]
  | m :: rest => .comma :: (memberTokens m ++ moreMembersTokens rest)
termination_by structural ms => ms

/-- A name, a colon and a value. -/
def memberTokens : String × Json → List Token
  | (name, j) => .quoted (pieces name) :: .colon :: j.tokens
termination_by structural m => m

end

end Json

namespace Token.Scanner

/-- A scanner after several characters. -/
def read (s : Scanner) (cs : List Char) : Option Scanner := cs.foldlM Scanner.char? s

theorem read_append (s : Scanner) (cs ds : List Char) :
    s.read (cs ++ ds) = (s.read cs).bind fun t => t.read ds := by
  unfold read
  rw [List.foldlM_append]
  rfl

theorem read_cons (s : Scanner) (c : Char) (cs : List Char) :
    s.read (c :: cs) = (s.char? c).bind fun t => t.read cs := by
  unfold read
  rw [List.foldlM_cons]
  rfl

/-! ## Quoted texts -/

/-- A character that needs no number is taken as it is, or by its letter. -/
theorem read_letter (ps : List Piece) (before : List Token) (letter : Char) {c : Char}
    (rest : List Char) (hu : letter ≠ 'u') (h : escaped? letter = some c) :
    (Scanner.mk (.quoted ps) before).read ('\\' :: letter :: rest) =
      (Scanner.mk (.quoted (.char c :: ps)) before).read rest := by
  have hslash : (Scanner.mk (.quoted ps) before).char? '\\' = some ⟨.escape ps, before⟩ := rfl
  have hletter : (Scanner.mk (.escape ps) before).char? letter =
      some ⟨.quoted (.char c :: ps), before⟩ := by
    simp only [Scanner.char?, hu, ↓reduceIte, h, Option.map_some]
  rw [read_cons, hslash, Option.bind_some, read_cons, hletter, Option.bind_some]

/-- A character by its number. -/
theorem read_unit (ps : List Piece) (before : List Token) {n : Nat} (h : n < 256)
    (rest : List Char) :
    (Scanner.mk (.quoted ps) before).read
        ('\\' :: 'u' :: '0' :: '0' :: Hex.digit (n / 16) :: Hex.digit (n % 16) :: rest) =
      (Scanner.mk (.quoted (.unit n :: ps)) before).read rest := by
  have hdigit : ∀ d ∈ List.range 16, Hex.value? (Hex.digit d) = some d := by decide
  have hhigh := hdigit (n / 16) (List.mem_range.2 (by omega))
  have hlow := hdigit (n % 16) (List.mem_range.2 (by omega))
  have hzero : Hex.value? '0' = some 0 := rfl
  have hn : n / 16 * 16 + n % 16 = n := by omega
  simp [read_cons, Scanner.char?, hhigh, hlow, hzero, hn]

/-- Inside quotes an escaped character is one piece. -/
theorem read_escapedChar (ps : List Piece) (before : List Token) (c : Char) (rest : List Char) :
    (Scanner.mk (.quoted ps) before).read (Json.escapedChar c ++ rest) =
      (Scanner.mk (.quoted (Json.pieceOf c :: ps)) before).read rest := by
  fun_cases Json.escapedChar c with
  | case1 h => subst h; exact read_letter ps before '"' rest (by decide) rfl
  | case2 _ h => subst h; exact read_letter ps before '\\' rest (by decide) rfl
  | case3 _ _ h => subst h; exact read_letter ps before 'b' rest (by decide) rfl
  | case4 _ _ _ h => subst h; exact read_letter ps before 'f' rest (by decide) rfl
  | case5 _ _ _ _ h => subst h; exact read_letter ps before 'n' rest (by decide) rfl
  | case6 _ _ _ _ _ h => subst h; exact read_letter ps before 'r' rest (by decide) rfl
  | case7 _ _ _ _ _ _ h => subst h; exact read_letter ps before 't' rest (by decide) rfl
  | case8 _ _ hb hf hn hr ht hlow =>
    have hpiece : Json.pieceOf c = .unit c.toNat :=
      if_pos ⟨hlow, by simp [hb, hf, hn, hr, ht]⟩
    rw [hpiece]
    exact read_unit ps before (by omega) rest
  | case9 hq hs _ _ _ _ _ hlow =>
    have hpiece : Json.pieceOf c = .char c := if_neg fun h => hlow h.1
    have hchar : (Scanner.mk (.quoted ps) before).char? c =
        some ⟨.quoted (.char c :: ps), before⟩ := by
      simp only [Scanner.char?, hq, hs, hlow, ↓reduceIte]
    rw [hpiece, List.singleton_append, read_cons, hchar, Option.bind_some]

theorem read_escaped (s : List Char) (ps : List Piece) (before : List Token) (rest : List Char) :
    (Scanner.mk (.quoted ps) before).read (s.flatMap Json.escapedChar ++ rest) =
      (Scanner.mk (.quoted ((s.map Json.pieceOf).reverse ++ ps)) before).read rest := by
  induction s generalizing ps with
  | nil => rfl
  | cons c s ih =>
    rw [List.flatMap_cons, List.append_assoc, read_escapedChar, ih, List.map_cons,
      List.reverse_cons, List.append_assoc]
    rfl

/-- A text in quotes is one token. -/
theorem read_quoted (s : String) (before : List Token) (rest : List Char) :
    (Scanner.mk .between before).read (Json.quoted s ++ rest) =
      (Scanner.mk .between (.quoted (Json.pieces s) :: before)).read rest := by
  have hopen : (Scanner.mk .between before).char? '"' = some ⟨.quoted [], before⟩ := rfl
  have hclose : ∀ ps, (Scanner.mk (.quoted ps) before).char? '"' =
      some ⟨.between, .quoted ps.reverse :: before⟩ := fun _ => rfl
  unfold Json.quoted
  rw [List.cons_append, read_cons, hopen, Option.bind_some, List.append_assoc, read_escaped,
    List.singleton_append, read_cons, hclose, Option.bind_some, List.append_nil,
    List.reverse_reverse]
  rfl

/-! ## Numbers and words -/

/-- Characters of a number are collected. -/
theorem read_numeric (cs : List Char) (h : ∀ c ∈ cs, isNumeric c = true) (ds : List Char)
    (before : List Token) :
    (Scanner.mk (.number ds) before).read cs = some ⟨.number (cs.reverse ++ ds), before⟩ := by
  induction cs generalizing ds with
  | nil => rfl
  | cons c cs ih =>
    have hchar : (Scanner.mk (.number ds) before).char? c = some ⟨.number (c :: ds), before⟩ :=
      if_pos (h c List.mem_cons_self)
    rw [read_cons, hchar, Option.bind_some, ih fun d hd => h d (List.mem_cons_of_mem c hd),
      List.reverse_cons, List.append_assoc]
    rfl

theorem isNumeric_of_isDigit {c : Char} (h : c.isDigit = true) : isNumeric c = true := by
  simp [isNumeric, Integer.digit_range h]

/-- A digit begins a number. -/
theorem start?_of_isDigit {c : Char} (h : c.isDigit = true) (before : List Token) :
    start? before c = some ⟨.number [c], before⟩ := by
  unfold start?
  split
  case h_12 => exact if_pos (.inr (Integer.digit_range h))
  all_goals exact absurd h (by decide)

/-- A number is begun by its sign or its first digit, and the rest of it is collected. -/
theorem read_integer (i : Int) (before : List Token) :
    (Scanner.mk .between before).read (Integer.chars i) =
      some ⟨.number (Integer.chars i).reverse, before⟩ := by
  have hnumeric : ∀ c ∈ Nat.toDigits 10 i.natAbs, isNumeric c = true :=
    fun c hc => isNumeric_of_isDigit (Integer.isDigit_toDigits c hc)
  unfold Integer.chars
  split
  · have hsign : (Scanner.mk .between before).char? '-' = some ⟨.number ['-'], before⟩ := rfl
    rw [read_cons, hsign, Option.bind_some, read_numeric _ hnumeric, List.reverse_cons]
  · obtain ⟨c, cs, hcs⟩ :=
      List.exists_cons_of_ne_nil (Nat.toDigits_ne_nil (n := i.natAbs) (b := 10))
    have hfirst : (Scanner.mk .between before).char? c = some ⟨.number [c], before⟩ :=
      start?_of_isDigit (Integer.isDigit_toDigits c (by rw [hcs]; exact List.mem_cons_self)) before
    rw [hcs] at hnumeric ⊢
    rw [read_cons, hfirst, Option.bind_some,
      read_numeric _ fun d hd => hnumeric d (List.mem_cons_of_mem c hd), List.reverse_cons]

/-- Where a value has just been read: its tokens are complete, and a delimiter goes on from them. -/
structure Closes (s : Scanner) (tokens : List Token) : Prop where
  /-- The text may end here. -/
  complete : s.complete? = some tokens
  /-- A delimiter may follow. -/
  delimiter : ∀ c ∈ [',', ']', '}'], s.char? c = start? tokens c

/-- A delimiter is part of neither a number nor a word. -/
theorem not_part_of_delimiter {c : Char} (h : c ∈ [',', ']', '}']) :
    isNumeric c = false ∧ isLetter c = false := by
  simp only [List.mem_cons, List.not_mem_nil, or_false] at h
  rcases h with rfl | rfl | rfl <;> exact ⟨rfl, rfl⟩

theorem closes_between (tokens : List Token) : (Scanner.mk .between tokens).Closes tokens :=
  ⟨rfl, fun _ _ => rfl⟩

theorem closes_number (i : Int) (before : List Token) :
    (Scanner.mk (.number (Integer.chars i).reverse) before).Closes
      (.numeral (Numeral.ofInt i) :: before) := by
  have hcomplete : (Scanner.mk (.number (Integer.chars i).reverse) before).complete? =
      some (.numeral (Numeral.ofInt i) :: before) := by
    simp only [Scanner.complete?, List.reverse_reverse, Numeral.read?_chars, Option.map_some]
  refine ⟨hcomplete, fun c hc => ?_⟩
  simp only [Scanner.char?, (not_part_of_delimiter hc).1, hcomplete, Bool.false_eq_true, ↓reduceIte,
    Option.bind_some]

theorem closes_word {letters : List Char} {t : Token} (h : word? letters.reverse = some t)
    (before : List Token) : (Scanner.mk (.word letters) before).Closes (t :: before) := by
  have hcomplete : (Scanner.mk (.word letters) before).complete? = some (t :: before) := by
    simp only [Scanner.complete?, h, Option.map_some]
  refine ⟨hcomplete, fun c hc => ?_⟩
  simp only [Scanner.char?, (not_part_of_delimiter hc).2, hcomplete, Bool.false_eq_true, ↓reduceIte,
    Option.bind_some]

/-! ## Values -/

mutual

/-- A written value is read as its tokens. -/
theorem read_chars : (j : Json) → j.Integral → (before : List Token) →
    ∃ s, (Scanner.mk .between before).read j.chars = some s ∧
      s.Closes (j.tokens.reverse ++ before)
  | .null, _, before => ⟨⟨.word ['l', 'l', 'u', 'n'], before⟩, rfl, closes_word rfl before⟩
  | .bool true, _, before => ⟨⟨.word ['e', 'u', 'r', 't'], before⟩, rfl, closes_word rfl before⟩
  | .bool false, _, before =>
    ⟨⟨.word ['e', 's', 'l', 'a', 'f'], before⟩, rfl, closes_word rfl before⟩
  | .number (.integer i inRange), _, before =>
    ⟨_, read_integer i before, by
      rw [Json.tokens, Json.numeral_integer]
      exact closes_number i before⟩
  | .text s, _, before =>
    ⟨_, by
      rw [Json.chars, ← List.append_nil (Json.quoted s)]
      exact read_quoted s before [], closes_between _⟩
  | .array items, h, before =>
    ⟨_, (read_itemsChars items h (.openArray :: before)), by
      simpa [Json.tokens] using closes_between _⟩
  | .object members, h, before =>
    ⟨_, (read_membersChars members h (.openObject :: before)), by
      simpa [Json.tokens] using closes_between _⟩
termination_by structural j => j

/-- The items of an array and its closing bracket. -/
theorem read_itemsChars : (js : List Json) → Json.IntegralItems js → (before : List Token) →
    (Scanner.mk .between before).read (Json.itemsChars js) =
      some ⟨.between, (Json.itemsTokens js).reverse ++ before⟩
  | [], _, before => rfl
  | j :: rest, h, before => by
    obtain ⟨s, hread, hs⟩ := read_chars j h.1 before
    rw [Json.itemsChars, read_append, hread, Option.bind_some,
      read_moreItemsChars rest h.2 s _ hs, Json.itemsTokens, List.reverse_append,
      List.append_assoc]
termination_by structural js => js

/-- The items behind a value and the closing bracket. -/
theorem read_moreItemsChars : (js : List Json) → Json.IntegralItems js → (s : Scanner) →
    (before : List Token) → s.Closes before →
    s.read (Json.moreItemsChars js) =
      some ⟨.between, (Json.moreItemsTokens js).reverse ++ before⟩
  | [], _, s, before, hs => by
    have hchar : s.char? ']' = some ⟨.between, .closeArray :: before⟩ :=
      hs.delimiter ']' (by decide)
    rw [Json.moreItemsChars, read_cons, hchar]
    rfl
  | j :: rest, h, s, before, hs => by
    have hchar : s.char? ',' = some ⟨.between, .comma :: before⟩ := hs.delimiter ',' (by decide)
    obtain ⟨t, hread, ht⟩ := read_chars j h.1 (.comma :: before)
    rw [Json.moreItemsChars, read_cons, hchar, Option.bind_some, read_append, hread,
      Option.bind_some, read_moreItemsChars rest h.2 t _ ht]
    simp only [Json.moreItemsTokens, List.reverse_cons, List.reverse_append, List.append_assoc,
      List.singleton_append]
termination_by structural js => js

/-- The members of an object and its closing brace. -/
theorem read_membersChars : (ms : List (String × Json)) → Json.IntegralMembers ms →
    (before : List Token) →
    (Scanner.mk .between before).read (Json.membersChars ms) =
      some ⟨.between, (Json.membersTokens ms).reverse ++ before⟩
  | [], _, before => rfl
  | m :: rest, h, before => by
    obtain ⟨s, hread, hs⟩ := read_memberChars m h.1 before
    rw [Json.membersChars, read_append, hread, Option.bind_some,
      read_moreMembersChars rest h.2 s _ hs, Json.membersTokens, List.reverse_append,
      List.append_assoc]
termination_by structural ms => ms

/-- The members behind a value and the closing brace. -/
theorem read_moreMembersChars : (ms : List (String × Json)) → Json.IntegralMembers ms →
    (s : Scanner) → (before : List Token) → s.Closes before →
    s.read (Json.moreMembersChars ms) =
      some ⟨.between, (Json.moreMembersTokens ms).reverse ++ before⟩
  | [], _, s, before, hs => by
    have hchar : s.char? '}' = some ⟨.between, .closeObject :: before⟩ :=
      hs.delimiter '}' (by decide)
    rw [Json.moreMembersChars, read_cons, hchar]
    rfl
  | m :: rest, h, s, before, hs => by
    have hchar : s.char? ',' = some ⟨.between, .comma :: before⟩ := hs.delimiter ',' (by decide)
    obtain ⟨t, hread, ht⟩ := read_memberChars m h.1 (.comma :: before)
    rw [Json.moreMembersChars, read_cons, hchar, Option.bind_some, read_append, hread,
      Option.bind_some, read_moreMembersChars rest h.2 t _ ht]
    simp only [Json.moreMembersTokens, List.reverse_cons, List.reverse_append, List.append_assoc,
      List.singleton_append]
termination_by structural ms => ms

/-- A name, a colon and a value. -/
theorem read_memberChars : (m : String × Json) → Json.IntegralMember m → (before : List Token) →
    ∃ s, (Scanner.mk .between before).read (Json.memberChars m) = some s ∧
      s.Closes ((Json.memberTokens m).reverse ++ before)
  | (name, j), h, before => by
    obtain ⟨s, hread, hs⟩ := read_chars j h (.colon :: .quoted (Json.pieces name) :: before)
    refine ⟨s, ?_, ?_⟩
    · rw [Json.memberChars, read_quoted, read_cons]
      exact hread
    · simpa only [Json.memberTokens, List.reverse_cons, List.append_assoc, List.cons_append,
        List.nil_append] using hs
termination_by structural m => m

end

end Token.Scanner

/-- The text of a value scans into its tokens. -/
theorem Token.scan?_render {j : Json} (h : j.Integral) :
    scan? (Utf8.symbols (Utf8.encode j.render)) = some j.tokens := by
  obtain ⟨s, hread, hs⟩ := Scanner.read_chars j h []
  have hsteps : (j.chars.map Utf8.Symbol.char).foldlM Scanner.step ⟨.between, []⟩ = some s := by
    rw [List.foldlM_map]
    exact hread
  unfold scan?
  rw [Utf8.symbols_encode, Json.render, String.toList_ofList, hsteps]
  simp [hs.complete]

end SealedStore
