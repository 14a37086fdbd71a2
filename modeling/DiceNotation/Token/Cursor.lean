import DiceNotation.Token

/-!
A place in a list of tokens, and the steps a grammar takes from it.

The cursor never passes an end of input; past the last token it stands on one of its own, in column zero.
-/

namespace DiceNotation

/-! ### Errors -/

/-- What is wrong with a token. -/
inductive ParseError.Cause where
  /-- Another kind of token has to stand here; an empty `hint` leaves the wording open. -/
  | missing (expected got : Token.Kind) (hint : String)
  | noExpression
  | trailingTokens
  | noModifier (lexeme : String)
  | noPoolModifier (lexeme : String)
  /-- A keep or drop modifier with a comparison other than `=`. -/
  | comparedSelection (keyword operator : String)
  deriving DecidableEq

structure ParseError where
  cause : ParseError.Cause
  token : Token
  deriving DecidableEq

namespace ParseError

def Cause.message : Cause → String
  | .missing expected got hint =>
    if hint = "" then s!"Expected {expected.displayName}, got {got.displayName}" else hint
  | .noExpression => "Expected expression"
  | .trailingTokens => "Unexpected tokens after expression"
  | .noModifier lexeme => s!"Expected dice modifier, got '{lexeme}'"
  | .noPoolModifier lexeme => s!"Expected dice pool modifier (kh, kl, dh, dl, cs), got '{lexeme}'"
  | .comparedSelection keyword operator =>
    s!"Keep/drop modifier '{keyword}' only accepts '=', got '{operator}'"

def message (e : ParseError) : String := s!"{e.cause.message} at col {e.token.column}"

end ParseError

/-! ### Cursors -/

/-- The tokens behind a place, the nearest first, and those ahead of it. -/
structure Token.Cursor where
  passed : List Token
  ahead : List Token
  deriving DecidableEq

namespace Token.Cursor

def start (tokens : List Token) : Cursor := ⟨[], tokens⟩

def position (c : Cursor) : Nat := c.passed.length

def current (c : Cursor) : Token := c.ahead.headD (endAt 0)

/-- The token just passed. -/
def previous (c : Cursor) : Token := c.passed.headD (endAt 0)

/-- The token at a distance from the current one. -/
def peek (c : Cursor) (offset : Int) : Token :=
  let index := c.position + offset
  if index < 0 then endAt 0 else (c.passed.reverse ++ c.ahead).getD index.toNat (endAt 0)

def advance (c : Cursor) : Cursor :=
  match c.ahead with
  | [] => c
  | t :: rest => if t.kind = .endOfInput then c else ⟨t :: c.passed, rest⟩

/-- Advancing keeps all tokens in their order. -/
theorem tokens_advance (c : Cursor) :
    c.advance.passed.reverse ++ c.advance.ahead = c.passed.reverse ++ c.ahead := by
  unfold advance
  split
  · rfl
  · split <;> simp_all

/-- The current token is of one of the kinds. -/
def sees (c : Cursor) (kinds : List Kind) : Bool := kinds.contains c.current.kind

/-- Passes the current token if it is of one of the kinds. -/
def skip (c : Cursor) (kinds : List Kind) : Bool × Cursor :=
  if c.sees kinds then (true, c.advance) else (false, c)

/-- Passes a token that has to be of a kind. -/
def expect (c : Cursor) (kind : Kind) (hint : String) : Except ParseError (Token × Cursor) :=
  if c.sees [kind] then .ok (c.current, c.advance)
  else .error ⟨.missing kind c.current.kind hint, c.current⟩

end Token.Cursor

end DiceNotation
