import DiceNotation.Expr
import DiceNotation.Token.Cursor
import DiceNotation.Token.Scan

/-!
From tokens to expressions.

The levels, from the loosest: `? :`, equality, comparison, terms, factors, dice, signs, calls, primaries. Every rule
gets the number of tokens that may be left, once its first one is read, as a bound on repetition and nesting. With
no token left a repetition ends and an expression is missing, which is what the rules say at a bound of zero too.
-/

namespace DiceNotation

/-- A rule of the grammar: moves a cursor and gives what it has read. -/
abbrev Rule (α : Type) := StateT Token.Cursor (Except ParseError) α

namespace Rule

open Token

/-! ### Steps -/

def sees (kinds : List Kind) : Rule Bool := return (← get).sees kinds

def next : Rule Token := fun c => .ok (c.current, c.advance)

def skip (kinds : List Kind) : Rule Bool := fun c => .ok (c.skip kinds)

def expect (kind : Kind) (hint : String) : Rule Token := fun c => c.expect kind hint

def fail {α : Type} (cause : ParseError.Cause) (token : Token) : Rule α := fun _ => .error ⟨cause, token⟩

/-- Passes all tokens ahead that are of a kind, up to the first that is not. -/
def nextAll (kind : Kind) : Rule (List Token) := fun c =>
  let run := c.ahead.takeWhile (·.kind == kind)
  .ok (run, ⟨run.reverse ++ c.passed, c.ahead.drop run.length⟩)

/-! ### Labels and lists -/

/-- Names in brackets, or no label at all. -/
def label : Rule (Option String) := do
  if ← skip [.leftBracket] then
    let words ← nextAll .name
    let _ ← expect .rightBracket "Expected ']' after label"
    return some (" ".intercalate (words.map (·.lexeme)))
  else return none

/-- A label, where one may stand. -/
def labelIf (labelled : Bool) : Rule (Option String) := if labelled then label else pure none

/-- The rules for what is nested in an expression, at a smaller bound. -/
structure Inner where
  expr : Rule Expr
  call : Rule Expr

/-- Further expressions, each behind a comma. -/
def commaExprs (inner : Inner) : Nat → Rule (List Expr)
  | 0 => pure []
  | n + 1 => do
    if ← skip [.comma] then
      let e ← inner.expr
      let es ← commaExprs inner n
      return e :: es
    else return []

/-- The expressions up to a closing token. -/
def exprsUpTo (closer : Kind) (inner : Inner) (n : Nat) : Rule (List Expr) := do
  if ← sees [closer] then return []
  else
    let e ← inner.expr
    let es ← commaExprs inner n
    return e :: es

/-! ### Modifiers -/

def comparisonOf? : Kind → Option Comparison
  | .assign => some .equal
  | .less => some .less
  | .lessEqual => some .lessEqual
  | .greater => some .greater
  | .greaterEqual => some .greaterEqual
  | _ => none

/-- The comparison behind a keyword: an operator and a value, a number alone for `=`, or nothing. -/
def comparison (value : Rule Expr) : Rule (Comparison × Option Expr) := do
  match comparisonOf? (← get).current.kind with
  | some c =>
    let _ ← next
    let e ← value
    return (c, some e)
  | none =>
    if ← sees [.number] then
      let token ← next
      return (.equal, some (.literal (some (.number token.number)) none))
    else return (.equal, none)

def one : Expr := .literal (some (.number (.ofInt 1))) none

/-- What a modifier of dice compares with. Where no value is written, a success shows the highest face and the others
take one. -/
def targetOf (modifier : Modifier) : Option Expr → Target Expr
  | some e => .value e
  | none => if modifier = .countSuccesses then .faces else .value one

/-- The modifier of dice. -/
def diceModifier (value : Rule Expr) : Rule (Modifier × Comparison × Target Expr) := do
  let keyword ← next
  match Modifier.ofKeyword? keyword.lexeme with
  | none => fail (.noModifier keyword.lexeme) keyword
  | some modifier =>
    let operator := (← get).current
    let (c, target) ← comparison value
    if modifier.isSelection && c ≠ .equal then
      fail (.comparedSelection keyword.lexeme operator.lexeme) operator
    else return (modifier, c, targetOf modifier target)

/-- The modifier of dice, where one stands. -/
def optionalModifier (value : Rule Expr) : Rule (Modifier × Comparison × Target Expr) := do
  if ← sees [.name, .bang, .doubleBang] then diceModifier value
  else return (.plain, .equal, .absent)

/-- The modifier of a pool. -/
def poolModifier (value : Rule Expr) : Rule (Modifier × Comparison × Expr) := do
  let keyword := (← get).current
  match if keyword.kind = .name then Modifier.ofPoolKeyword? keyword.lexeme else none with
  | none => fail (.noPoolModifier keyword.lexeme) keyword
  | some modifier =>
    let _ ← next
    let (c, target) ← comparison value
    return (modifier, c, target.getD one)

/-! ### Primaries and calls -/

/-- The literal, substitution, group or pool that a token at a position begins. A token that begins none of them is a
string of its own text. -/
def primaryFrom (inner : Inner) (labelled : Bool) (n : Nat) (position : Nat) (token : Token) : Rule Expr :=
  match token.kind with
  | .falseWord => return .literal (some (.bool false)) none
  | .trueWord => return .literal (some (.bool true)) none
  | .number => do
    let l ← labelIf labelled
    return .literal (some (.number token.number)) l
  | .substitution => do
    let l ← labelIf labelled
    return .substitution position (some (.string token.key)) l
  | .leftBrace => do
    let entries ← exprsUpTo .rightBrace inner n
    let _ ← expect .rightBrace "Expected '\x7d' after dice pool"
    let (modifier, c, target) ← poolModifier inner.call
    return .pool entries modifier c (some target)
  | .leftParen => do
    let e ← inner.expr
    let _ ← expect .rightParen "Expected ')' after expression"
    return .group e
  | _ => return .literal (some (.string token.lexeme)) none

/-- A primary: whatever the next token begins. -/
def primary (inner : Inner) (labelled : Bool) (n : Nat) : Rule Expr := do
  let cursor ← get
  if cursor.current.kind = .endOfInput then fail .noExpression cursor.current
  else
    let token ← next
    primaryFrom inner labelled n cursor.position token

/-- Arguments in parentheses, any number of times. -/
def applications (inner : Inner) : Nat → Expr → Rule Expr
  | 0, callee => pure callee
  | n + 1, callee => do
    if ← sees [.leftParen] then
      let token := (← get).previous
      let _ ← next
      let arguments ← exprsUpTo .rightParen inner n
      let _ ← expect .rightParen "Expected ')' after arguments"
      applications inner n (.call callee (some token) arguments)
    else return callee

/-- A primary and its arguments. -/
def call (inner : Inner) (labelled : Bool) (n : Nat) : Rule Expr := do
  let callee ← primary inner labelled n
  applications inner n callee

/-! ### Operators -/

/-- A call behind any number of signs and bangs. -/
def signed (inner : Inner) (n : Nat) : Nat → Rule Expr
  | 0 => call inner true n
  | m + 1 => do
    if ← sees [.bang, .minus] then
      let op ← next
      let operand ← signed inner n m
      return .unary (some op) operand
    else call inner true n

/-- The dice operator is a name, in either case. -/
def seesDice : Rule Bool :=
  return (← get).current.kind = .name && ["d", "D"].contains (← get).current.lexeme

/-- Dice of dice, from the left. A label behind the faces or the modifier is one of the dice. -/
def diceChain (inner : Inner) (n : Nat) : Nat → Expr → Rule Expr
  | 0, count => pure count
  | m + 1, count => do
    if ← seesDice then
      let slot := (← get).position
      let _ ← next
      let faces ← call inner false n
      let (modifier, c, target) ← optionalModifier (call inner true n)
      let l ← label
      diceChain inner n m (.dice slot count faces l modifier c target)
    else return count

def dice (inner : Inner) (n : Nat) : Rule Expr := do
  let count ← signed inner n (n + 1)
  diceChain inner n n count

/-- Operators of one level, from the left. -/
def binaryChain (kinds : List Kind) (operand : Rule Expr) : Nat → Expr → Rule Expr
  | 0, left => pure left
  | m + 1, left => do
    if ← sees kinds then
      let op ← next
      let right ← operand
      binaryChain kinds operand m (.binary (some op) left right)
    else return left

/-- Operands of one level with the operators between them. -/
def level (kinds : List Kind) (operand : Rule Expr) (n : Nat) : Rule Expr := do
  let left ← operand
  binaryChain kinds operand n left

def factor (inner : Inner) (n : Nat) : Rule Expr := level [.star, .slash, .percent] (dice inner n) n

def term (inner : Inner) (n : Nat) : Rule Expr := level [.plus, .minus] (factor inner n) n

def ordering (inner : Inner) (n : Nat) : Rule Expr :=
  level [.greater, .greaterEqual, .less, .lessEqual] (term inner n) n

def equality (inner : Inner) (n : Nat) : Rule Expr := level [.equal, .unequal] (ordering inner n) n

/-- A condition with its two branches, or an equality. -/
def choice (inner : Inner) (n : Nat) : Rule Expr := do
  let condition ← equality inner n
  if ← skip [.question] then
    let consequent ← inner.expr
    let _ ← expect .colon "Expected ':' after then-branch of '?'"
    let alternative ← inner.expr
    return .choice condition consequent alternative
  else return condition

/-- The rules for expressions and calls of at most so many tokens. -/
def inner : Nat → Inner
  | 0 =>
    let missing : Rule Expr := do fail .noExpression (← get).current
    ⟨missing, missing⟩
  | n + 1 => ⟨choice (inner n) n, call (inner n) true n⟩

/-- An expression of at most `n` tokens. -/
def expr (n : Nat) : Rule Expr := (inner n).expr

end Rule

/-! ### Whole inputs -/

/-- Why a text is no expression. -/
inductive ReadError where
  | scan (e : ScanError)
  | parse (e : ParseError)
  deriving DecidableEq

def ReadError.message : ReadError → String
  | .scan e => e.message
  | .parse e => e.message

namespace Expr

/-- The expression that a whole list of tokens is. -/
def ofTokens (tokens : List Token) : Except ParseError Expr := do
  let (e, cursor) ← Rule.expr tokens.length (Token.Cursor.start tokens)
  if cursor.sees [.endOfInput] then return e
  else throw ⟨.trailingTokens, cursor.current⟩

/-- The expression that a text is. -/
def ofText (source : String) : Except ReadError Expr :=
  match Token.scan source with
  | .error e => .error (.scan e)
  | .ok tokens =>
    match ofTokens tokens with
    | .error e => .error (.parse e)
    | .ok e => .ok e

end Expr

end DiceNotation
