import SealedStore.Json.Numeral
import SealedStore.Text.Hex
import SealedStore.Text.Utf8

set_option autoImplicit false

/-!
# JSON tokens

JSON text in tokens.  A quoted text is kept in the pieces that it is written in, so that it can be
judged later: stray bytes and lone surrogates are told apart here and refused, or passed over,
where the text is used.
-/

namespace SealedStore

/-- A piece of a quoted text. -/
inductive Piece
  /-- A character, written as it is or by a letter behind a backslash. -/
  | char (c : Char)
  /-- A byte that belongs to no character. -/
  | stray (b : UInt8)
  /-- A unit of UTF-16, written by four hexadecimal digits. -/
  | unit (n : Nat)
  deriving DecidableEq, Repr

/-- A token of JSON text. -/
inductive Token
  | openArray | closeArray | openObject | closeObject | comma | colon
  | null | bool (b : Bool)
  | numeral (n : Numeral)
  | quoted (pieces : List Piece)
  deriving DecidableEq, Repr

/-- The text of pieces: a high surrogate must come right before a low one, and nothing may be
stray. -/
def Piece.text? : List Piece → Option (List Char)
  | [] => some []
  | .char c :: rest => (Piece.text? rest).map (c :: ·)
  | .stray _ :: _ => none
  | .unit high :: .unit low :: rest =>
    if 0xD800 ≤ high ∧ high < 0xDC00 then
      if 0xDC00 ≤ low ∧ low < 0xE000 then
        (Piece.text? rest).map
          (Char.ofNat (0x10000 + (high - 0xD800) * 0x400 + (low - 0xDC00)) :: ·)
      else none
    else if 0xDC00 ≤ high ∧ high < 0xE000 then none
    else (Piece.text? (.unit low :: rest)).map (Char.ofNat high :: ·)
  | .unit n :: rest =>
    if 0xD800 ≤ n ∧ n < 0xE000 then none
    else (Piece.text? rest).map (Char.ofNat n :: ·)

namespace Token

/-- Where scanning stands between two symbols. -/
inductive Mode
  /-- Between tokens. -/
  | between
  /-- Inside quotes; the pieces so far, last first. -/
  | quoted (pieces : List Piece)
  /-- Inside quotes behind a backslash. -/
  | escape (pieces : List Piece)
  /-- Inside quotes within four hexadecimal digits, of which `left` are missing. -/
  | unit (pieces : List Piece) (left value : Nat)
  /-- Inside a number; its characters so far, last first. -/
  | number (chars : List Char)
  /-- Inside a word; its letters so far, last first. -/
  | word (letters : List Char)
  deriving DecidableEq, Repr

/-- A scanner: its mode and the tokens so far, last first. -/
structure Scanner where
  /-- Where scanning stands. -/
  mode : Mode
  /-- The tokens that are complete. -/
  tokens : List Token
  deriving DecidableEq, Repr

/-- The character that a letter behind a backslash stands for. -/
def escaped? : Char → Option Char
  | '"' => some '"'
  | '\\' => some '\\'
  | '/' => some '/'
  | 'b' => some '\x08'
  | 'f' => some '\x0C'
  | 'n' => some '\n'
  | 'r' => some '\r'
  | 't' => some '\t'
  | _ => none

/-- The token of a word. -/
def word? : List Char → Option Token
  | ['n', 'u', 'l', 'l'] => some .null
  | ['t', 'r', 'u', 'e'] => some (.bool true)
  | ['f', 'a', 'l', 's', 'e'] => some (.bool false)
  | _ => none

/-- Whether a character can be part of a number. -/
def isNumeric (c : Char) : Bool :=
  ('0' ≤ c ∧ c ≤ '9') ∨ c = '+' ∨ c = '-' ∨ c = '.' ∨ c = 'e' ∨ c = 'E'

/-- Whether a character can be part of a word. -/
def isLetter (c : Char) : Bool := 'a' ≤ c ∧ c ≤ 'z'

/-- Completes the token that a scanner is in, where a token can end there. -/
def Scanner.complete? (s : Scanner) : Option (List Token) :=
  match s.mode with
  | .between => some s.tokens
  | .number cs => (Numeral.read? cs.reverse).map fun n => .numeral n :: s.tokens
  | .word cs => (word? cs.reverse).map (· :: s.tokens)
  | _ => none

/-- What a character begins between tokens. -/
def start? (tokens : List Token) (c : Char) : Option Scanner :=
  match c with
  | ' ' | '\n' | '\r' | '\t' => some ⟨.between, tokens⟩
  | '[' => some ⟨.between, .openArray :: tokens⟩
  | ']' => some ⟨.between, .closeArray :: tokens⟩
  | '{' => some ⟨.between, .openObject :: tokens⟩
  | '}' => some ⟨.between, .closeObject :: tokens⟩
  | ',' => some ⟨.between, .comma :: tokens⟩
  | ':' => some ⟨.between, .colon :: tokens⟩
  | '"' => some ⟨.quoted [], tokens⟩
  | c =>
    if c = '-' ∨ ('0' ≤ c ∧ c ≤ '9') then some ⟨.number [c], tokens⟩
    else if isLetter c then some ⟨.word [c], tokens⟩
    else none

/-- One character. -/
def Scanner.char? (s : Scanner) (c : Char) : Option Scanner :=
  match s.mode with
  | .between => start? s.tokens c
  | .quoted pieces =>
    if c = '"' then some ⟨.between, .quoted pieces.reverse :: s.tokens⟩
    else if c = '\\' then some { s with mode := .escape pieces }
    else if c.toNat < 0x20 then none
    else some { s with mode := .quoted (.char c :: pieces) }
  | .escape pieces =>
    if c = 'u' then some { s with mode := .unit pieces 4 0 }
    else (escaped? c).map fun d => { s with mode := .quoted (.char d :: pieces) }
  | .unit pieces left value =>
    (Hex.value? c).map fun d =>
      if left ≤ 1 then { s with mode := .quoted (.unit (value * 16 + d) :: pieces) }
      else { s with mode := .unit pieces (left - 1) (value * 16 + d) }
  | .number cs =>
    if isNumeric c then some { s with mode := .number (c :: cs) }
    else s.complete?.bind fun tokens => start? tokens c
  | .word cs =>
    if isLetter c then some { s with mode := .word (c :: cs) }
    else s.complete?.bind fun tokens => start? tokens c

/-- One symbol; a stray byte can stand inside quotes only. -/
def Scanner.step (s : Scanner) : Utf8.Symbol → Option Scanner
  | .char c => s.char? c
  | .stray b =>
    match s.mode with
    | .quoted pieces => some { s with mode := .quoted (.stray b :: pieces) }
    | _ => none

/-- The tokens of a text, `none` when it is not made of tokens. -/
def scan? (symbols : List Utf8.Symbol) : Option (List Token) := do
  let s ← symbols.foldlM Scanner.step ⟨.between, []⟩
  let tokens ← s.complete?
  pure tokens.reverse

end Token

end SealedStore
