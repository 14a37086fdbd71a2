import DiceNotation.Proofs.Completeness

/-!
The rules of the grammar without their bounds.

Here a rule is a program that takes steps and reads other nonterminals, and nothing stops it. `Stops` says with what it
ends, if it does; what goes on forever has no end.
-/

namespace DiceNotation

open Token

/-- The rules that call one another, by what they give. -/
inductive Nonterminal : Type → Type where
  | level (l : Level) : Nonterminal Expr
  /-- Operators of one level, from the left. -/
  | binaryChain (l : Level) (left : Expr) : Nonterminal Expr
  /-- Dice of dice, from the left. -/
  | diceChain (count : Expr) : Nonterminal Expr
  /-- The modifier of dice, where one stands. -/
  | optionalModifier : Nonterminal (Modifier × Comparison × Target Expr)
  | diceModifier : Nonterminal (Modifier × Comparison × Target Expr)
  | poolModifier : Nonterminal (Modifier × Comparison × Expr)
  /-- What stands behind a keyword. -/
  | comparison : Nonterminal (Comparison × Option Expr)
  /-- A primary and its arguments. -/
  | call (labelled : Bool) : Nonterminal Expr
  /-- Arguments in parentheses, any number of times. -/
  | applications (callee : Expr) : Nonterminal Expr
  | primary (labelled : Bool) : Nonterminal Expr
  /-- What a token at a position begins. -/
  | primaryFrom (labelled : Bool) (position : Nat) (token : Token) : Nonterminal Expr
  /-- The expressions up to a closing token. -/
  | exprsUpTo (closer : Kind) : Nonterminal (List Expr)
  /-- Further expressions, each behind a comma. -/
  | commaExprs : Nonterminal (List Expr)

/-- The steps of a rule. -/
inductive Step : Type → Type where
  /-- The token at the cursor. -/
  | current : Step Token
  /-- The token before it. -/
  | previous : Step Token
  | position : Step Nat
  | sees (kinds : List Kind) : Step Bool
  | next : Step Token
  | skip (kind : Kind) : Step Bool
  | expect (kind : Kind) (hint : String) : Step Token
  /-- All names up to the next other token. -/
  | names : Step (List Token)

namespace Step

variable {α : Type}

/-- A step moves the cursor as it does in the rules with a bound. -/
def run : Step α → Rule α
  | current => fun c => .ok (c.current, c)
  | previous => fun c => .ok (c.previous, c)
  | position => fun c => .ok (c.position, c)
  | sees kinds => Rule.sees kinds
  | next => Rule.next
  | skip kind => Rule.skip [kind]
  | expect kind hint => Rule.expect kind hint
  | names => Rule.nextAll .name

end Step

/-- What a rule does. -/
inductive Descent : Type → Type 1 where
  | give {α : Type} (a : α) : Descent α
  | step {α : Type} (x : Step α) : Descent α
  | fail {α : Type} (cause : ParseError.Cause) (token : Token) : Descent α
  | read {α : Type} (x : Nonterminal α) : Descent α
  | andThen {α β : Type} (x : Descent α) (f : α → Descent β) : Descent β

namespace Descent

variable {α β : Type}

instance : Monad Descent where
  pure := give
  bind := andThen

/-! ### The rules -/

/-- Names in brackets, or no label at all. -/
def label : Descent (Option String) := do
  if ← step (.skip .leftBracket) then
    let words ← step .names
    let _ ← step (.expect .rightBracket "Expected ']' after label")
    return some (" ".intercalate (words.map (·.lexeme)))
  else return none

def labelIf (labelled : Bool) : Descent (Option String) := if labelled then label else return none

/-- The dice operator is a name, in either case. -/
def seesDice : Descent Bool := do
  let token ← step .current
  return token.kind = .name && ["d", "D"].contains token.lexeme

/-- What the rule of a nonterminal does. -/
def ofNonterminal : Nonterminal α → Descent α
  | .level .choice => do
    let condition ← read (.level .equality)
    if ← step (.skip .question) then
      let consequent ← read (.level .choice)
      let _ ← step (.expect .colon "Expected ':' after then-branch of '?'")
      let alternative ← read (.level .choice)
      return .choice condition consequent alternative
    else return condition
  | .level .dice => do
    let count ← read (.level .sign)
    read (.diceChain count)
  | .level .sign => do
    if ← step (.sees [.bang, .minus]) then
      let op ← step .next
      let operand ← read (.level .sign)
      return .unary (some op) operand
    else read (.call true)
  | .level .call => read (.call true)
  | .level l => do
    let left ← read (.level l.tighter)
    read (.binaryChain l left)
  | .binaryChain l left => do
    if ← step (.sees l.operators) then
      let op ← step .next
      let right ← read (.level l.tighter)
      read (.binaryChain l (.binary (some op) left right))
    else return left
  | .diceChain count => do
    if ← seesDice then
      let slot ← step .position
      let _ ← step .next
      let faces ← read (.call false)
      let (modifier, c, target) ← read .optionalModifier
      let l ← label
      read (.diceChain (.dice slot count faces l modifier c target))
    else return count
  | .optionalModifier => do
    if ← step (.sees [.name, .bang, .doubleBang]) then read .diceModifier
    else return (.plain, .equal, .absent)
  | .diceModifier => do
    let keyword ← step .next
    match Modifier.ofKeyword? keyword.lexeme with
    | none => fail (.noModifier keyword.lexeme) keyword
    | some modifier =>
      let operator ← step .current
      let (c, target) ← read .comparison
      if modifier.isSelection && c ≠ .equal then
        fail (.comparedSelection keyword.lexeme operator.lexeme) operator
      else return (modifier, c, Rule.targetOf modifier target)
  | .poolModifier => do
    let keyword ← step .current
    match if keyword.kind = .name then Modifier.ofPoolKeyword? keyword.lexeme else none with
    | none => fail (.noPoolModifier keyword.lexeme) keyword
    | some modifier =>
      let _ ← step .next
      let (c, target) ← read .comparison
      return (modifier, c, target.getD Rule.one)
  | .comparison => do
    let token ← step .current
    match Rule.comparisonOf? token.kind with
    | some c =>
      let _ ← step .next
      let e ← read (.call true)
      return (c, some e)
    | none =>
      if ← step (.sees [.number]) then
        let number ← step .next
        return (.equal, some (.literal (some (.number number.number)) none))
      else return (.equal, none)
  | .call labelled => do
    let callee ← read (.primary labelled)
    read (.applications callee)
  | .applications callee => do
    if ← step (.sees [.leftParen]) then
      let token ← step .previous
      let _ ← step .next
      let arguments ← read (.exprsUpTo .rightParen)
      let _ ← step (.expect .rightParen "Expected ')' after arguments")
      read (.applications (.call callee (some token) arguments))
    else return callee
  | .primary labelled => do
    let token ← step .current
    if token.kind = .endOfInput then fail .noExpression token
    else
      let position ← step .position
      let token ← step .next
      read (.primaryFrom labelled position token)
  | .primaryFrom labelled position token =>
    match token.kind with
    | .falseWord => return .literal (some (.bool false)) none
    | .trueWord => return .literal (some (.bool true)) none
    | .number => do
      let l ← labelIf labelled
      return .literal (some (.number token.number)) l
    | .substitution => do
      let l ← labelIf labelled
      return .substitution position (some (.string token.key)) l
    | .leftBrace => do
      let entries ← read (.exprsUpTo .rightBrace)
      let _ ← step (.expect .rightBrace "Expected '\x7d' after dice pool")
      let (modifier, c, target) ← read .poolModifier
      return .pool entries modifier c (some target)
    | .leftParen => do
      let e ← read (.level .choice)
      let _ ← step (.expect .rightParen "Expected ')' after expression")
      return .group e
    | _ => return .literal (some (.string token.lexeme)) none
  | .exprsUpTo closer => do
    if ← step (.sees [closer]) then return []
    else
      let e ← read (.level .choice)
      let es ← read .commaExprs
      return e :: es
  | .commaExprs => do
    if ← step (.skip .comma) then
      let e ← read (.level .choice)
      let es ← read .commaExprs
      return e :: es
    else return []

/-- The expression that a whole list of tokens is. -/
def wholeInput : Descent Expr := do
  let e ← read (.level .choice)
  let token ← step .current
  if token.kind = .endOfInput then return e
  else fail .trailingTokens token

/-! ### Stops -/

/-- From a cursor the program ends, with an error or with what it gives and another cursor. -/
inductive Stops : {α : Type} → Descent α → Cursor → Except ParseError (α × Cursor) → Prop where
  | give {α : Type} (a : α) (c : Cursor) : Stops (.give a) c (.ok (a, c))
  | step {α : Type} (x : Step α) (c : Cursor) : Stops (.step x) c (x.run c)
  | fail {α : Type} (cause : ParseError.Cause) (token : Token) (c : Cursor) :
      Stops (.fail cause token : Descent α) c (.error ⟨cause, token⟩)
  | read {α : Type} {x : Nonterminal α} {c : Cursor} {r : Except ParseError (α × Cursor)}
      (h : Stops (ofNonterminal x) c r) : Stops (.read x) c r
  | error {α β : Type} {x : Descent α} {f : α → Descent β} {c : Cursor} {e : ParseError} (h : Stops x c (.error e)) :
      Stops (.andThen x f) c (.error e)
  | andThen {α β : Type} {x : Descent α} {f : α → Descent β} {c c' : Cursor} {a : α}
      {r : Except ParseError (β × Cursor)} (h : Stops x c (.ok (a, c'))) (h' : Stops (f a) c' r) :
      Stops (.andThen x f) c r

/-- A program has one end at most. -/
theorem Stops.unique {x : Descent α} {c : Cursor} {r r' : Except ParseError (α × Cursor)} (h : Stops x c r)
    (h' : Stops x c r') : r = r' := by
  induction h with
  | give a c => cases h' with | give => rfl
  | step x c => cases h' with | step => rfl
  | fail cause token c => cases h' with | fail => rfl
  | read _ ih => cases h' with | read h' => exact ih h'
  | error _ ih =>
    cases h' with
    | error h' => exact congrArg Except.error (Except.error.inj (ih h'))
    | andThen h' _ => cases ih h'
  | andThen _ _ ih ih' =>
    cases h' with
    | error h' => cases ih h'
    | andThen h₁ h₂ =>
      obtain ⟨rfl, rfl⟩ := Prod.mk.inj (Except.ok.inj (ih h₁))
      exact ih' h₂

end Descent

end DiceNotation
