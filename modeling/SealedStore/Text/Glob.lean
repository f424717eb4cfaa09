set_option autoImplicit false

/-!
# Glob patterns

`*` stands for any text, `?` for one character, a backslash takes the next character as it is, and
every other character stands for itself.  `Glob.Matches` is the language; `Glob.accepts` decides it
by going back to the last star only.
-/

namespace SealedStore.Glob

/-- The texts that a pattern stands for. -/
inductive Matches : List Char → List Char → Prop
  /-- The empty pattern stands for the empty text. -/
  | nil : Matches [] []
  /-- A star stands for any text. -/
  | star (swallowed : List Char) {p t : List Char} :
      Matches p t → Matches ('*' :: p) (swallowed ++ t)
  /-- A question mark stands for any one character. -/
  | any (c : Char) {p t : List Char} : Matches p t → Matches ('?' :: p) (c :: t)
  /-- A backslash and a character stand for that character. -/
  | escaped (c : Char) {p t : List Char} : Matches p t → Matches ('\\' :: c :: p) (c :: t)
  /-- Any other character stands for itself. -/
  | literal (c : Char) {p t : List Char} (hs : c ≠ '*') (hq : c ≠ '?') (hb : c ≠ '\\') :
      Matches p t → Matches (c :: p) (c :: t)

/-- How a run of single-character patterns ends. -/
inductive Run
  /-- The pattern reached a star; what follows it, and the text that is left. -/
  | star (pattern text : List Char)
  /-- Pattern and text ended together. -/
  | done
  /-- The text does not fit. -/
  | stuck
  deriving DecidableEq, Repr

/-- Matches the pattern up to its first star against the start of a text. -/
def run : List Char → List Char → Run
  | [], [] => .done
  | [], _ :: _ => .stuck
  | '*' :: p, t => .star p t
  | '?' :: p, _ :: t => run p t
  | '\\' :: c :: p, d :: t => if c = d then run p t else .stuck
  | '\\' :: _, _ => .stuck
  | c :: p, d :: t => if c = d then run p t else .stuck
  | _ :: _, [] => .stuck

/-- A run that reaches a star leaves a shorter pattern and no longer text. -/
theorem run_star_lt {p t p' t' : List Char} (h : run p t = .star p' t') :
    p'.length < p.length ∧ t'.length ≤ t.length := by
  fun_induction run p t <;> grind

/-- Matches the pattern after a star: the star takes as little as lets the next run succeed, and a
run that reached the next star is never tried again. -/
def afterStar (p t : List Char) : Bool :=
  match _h : run p t with
  | .done => true
  | .star p' t' => afterStar p' t'
  | .stuck =>
    match t with
    | [] => false
    | _ :: rest => afterStar p rest
termination_by p.length + t.length
decreasing_by
  · have := run_star_lt _h
    omega
  · simp

/-- Whether a text matches a pattern. -/
def accepts (pattern text : String) : Bool :=
  match run pattern.toList text.toList with
  | .done => true
  | .star p t => afterStar p t
  | .stuck => false

end SealedStore.Glob
