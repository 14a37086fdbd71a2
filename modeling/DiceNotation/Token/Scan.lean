import DiceNotation.Token

/-!
From text to tokens.

Each token takes the longest text that its class allows: digits with an optional fraction, a word of letters, `@`
with a key behind it, or an operator of the table. Blanks separate tokens and belong to none.
-/

namespace DiceNotation

/-- A character that begins no token, and its column. -/
structure ScanError where
  char : Char
  column : Nat
  deriving DecidableEq

def ScanError.message (e : ScanError) : String := s!"Unexpected character '{e.char}' at col {e.column}"

namespace Token

/-! ### Classes of characters -/

def isSpace (c : Char) : Bool := c = ' ' || c = '\t' || c = '\r'

def isDigit (c : Char) : Bool := '0' ≤ c && c ≤ '9'

def isLetter (c : Char) : Bool := ('a' ≤ c && c ≤ 'z') || ('A' ≤ c && c ≤ 'Z') || c = '_'

def isKeyChar (c : Char) : Bool := isLetter c || isDigit c || c = '.'

/-! ### One token -/

/-- The operators, longer ones first. -/
def operators : List (List Char × Kind) :=
  [(['!', '!'], .doubleBang), (['!', '='], .unequal), (['=', '='], .equal), (['<', '='], .lessEqual),
    (['>', '='], .greaterEqual), (['+'], .plus), (['-'], .minus), (['*'], .star), (['/'], .slash), (['%'], .percent),
    (['<'], .less), (['>'], .greater), (['!'], .bang), (['='], .assign), (['('], .leftParen), ([')'], .rightParen),
    (['['], .leftBracket), ([']'], .rightBracket), (['{'], .leftBrace), (['}'], .rightBrace), (['.'], .dot),
    ([','], .comma), ([':'], .colon), (['?'], .question)]

def wordKind (word : List Char) : Kind :=
  if word = ['t', 'r', 'u', 'e'] then .trueWord
  else if word = ['f', 'a', 'l', 's', 'e'] then .falseWord
  else .name

/-- How many characters continue a number after its first digit: digits, then a point only if a digit follows it. -/
def numberTail (rest : List Char) : Nat :=
  let whole := (rest.takeWhile isDigit).length
  match rest.drop whole with
  | '.' :: fraction =>
    let digits := (fraction.takeWhile isDigit).length
    if digits = 0 then whole else whole + 1 + digits
  | _ => whole

/-- The class of the token that begins with `c`, and how many characters of `rest` belong to it. -/
def leading? (c : Char) (rest : List Char) : Option (Kind × Nat) :=
  if c = '@' then some (.substitution, (rest.takeWhile isKeyChar).length)
  else if isDigit c then some (.number, numberTail rest)
  else if isLetter c then
    let tail := rest.takeWhile isLetter
    some (wordKind (c :: tail), tail.length)
  else (operators.find? (·.1.isPrefixOf (c :: rest))).map fun (text, kind) => (kind, text.length - 1)

/-! ### All tokens -/

/-- The tokens of a text whose first character stands at `column`. -/
def scanFrom (column : Nat) : List Char → Except ScanError (List Token)
  | [] => .ok [endAt column]
  | c :: rest =>
    if isSpace c then scanFrom (column + 1) rest
    else
      match leading? c rest with
      | none => .error ⟨c, column⟩
      | some (kind, n) => do
        let later ← scanFrom (column + 1 + n) (rest.drop n)
        return ⟨kind, String.ofList (c :: rest.take n), column⟩ :: later
  termination_by cs => cs.length
  decreasing_by all_goals simp; try omega

/-- The tokens of a text, closed by the end of input. -/
def scan (source : String) : Except ScanError (List Token) := scanFrom 1 source.toList

end Token

end DiceNotation
