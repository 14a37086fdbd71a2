import DiceNotation.Value

/-!
The tokens of dice expressions.
-/

namespace DiceNotation

/-- The classes of tokens. The dice operator `d` is a name like any other. -/
inductive Token.Kind where
  | number | substitution | name
  | trueWord | falseWord
  | plus | minus | star | slash | percent
  | equal | unequal | less | lessEqual | greater | greaterEqual | assign
  | bang | doubleBang | question | colon
  | leftParen | rightParen | leftBracket | rightBracket | leftBrace | rightBrace
  | dot | comma | endOfInput
  deriving DecidableEq

namespace Token.Kind

/-- Every class of tokens, with its name in messages. -/
def names : List (Token.Kind × String) :=
  [(.number, "NUMBER"), (.substitution, "SUBSTITUTION"), (.name, "IDENT"), (.trueWord, "TRUE"), (.falseWord, "FALSE"),
    (.plus, "PLUS"), (.minus, "MINUS"), (.star, "STAR"), (.slash, "SLASH"), (.percent, "MOD"), (.equal, "EQ"),
    (.unequal, "NEQ"), (.less, "LT"), (.lessEqual, "LTE"), (.greater, "GT"), (.greaterEqual, "GTE"),
    (.assign, "ASSIGN"), (.bang, "NEG"), (.doubleBang, "BANGBANG"), (.question, "QMARK"), (.colon, "COLON"),
    (.leftParen, "LPAR"), (.rightParen, "RPAR"), (.leftBracket, "LSQB"), (.rightBracket, "RSQB"),
    (.leftBrace, "LBRACE"), (.rightBrace, "RBRACE"), (.dot, "DOT"), (.comma, "COMMA"), (.endOfInput, "EOF")]

def displayName (kind : Token.Kind) : String := (names.lookup kind).getD ""

def ofName? (name : String) : Option Token.Kind := (names.find? (·.2 == name)).map (·.1)

theorem ofName?_displayName (kind : Token.Kind) : ofName? kind.displayName = some kind := by cases kind <;> decide

end Token.Kind

/-- A token: its class, its text and the column, counted from one, at which it begins. -/
structure Token where
  kind : Token.Kind
  lexeme : String
  column : Nat
  deriving DecidableEq

namespace Token

/-- The token behind the last one. -/
def endAt (column : Nat) : Token := ⟨.endOfInput, "", column⟩

/-- The value of a number token. -/
def number (t : Token) : Number := (Numeral.readNumber? t.lexeme).getD .zero

/-- The context key of a substitution token: the text after its mark. -/
def key (t : Token) : String := String.ofList (t.lexeme.toList.drop 1)

/-- What a token stands for, where its text does not already say it. -/
def literal? (t : Token) : Option Value :=
  match t.kind with
  | .number => some (.number t.number)
  | .substitution => some (.string t.key)
  | _ => none

/-- The text of a token, a question mark where there is none. -/
def textOf : Option Token → String
  | some t => t.lexeme
  | none => "?"

/-- A token with all its parts. -/
def describe (t : Token) : String :=
  let literal := match t.literal? with
    | some v => ", " ++ v.toDataText
    | none => ""
  s!"Tok({t.kind.displayName}, {Text.quoted t.lexeme}{literal}, col {t.column})"

/-- A token as the token echo shows it. -/
def echo (t : Token) : String :=
  if t.kind = .endOfInput then "EOF" else s!"{t.kind.displayName}({t.lexeme})"

/-- The token echo of a line. -/
def echoAll (ts : List Token) : String := " ".intercalate (ts.map echo)

end Token

end DiceNotation
