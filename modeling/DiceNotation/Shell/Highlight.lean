import DiceNotation.Modifier
import DiceNotation.Token.Scan

/-!
Highlighting of the lines in the shell.

A line that scans is shown token by token, with what lies between the tokens plain. A line that does not scan is
plain altogether.
-/

namespace DiceNotation.Shell

/-! ### Styles -/

/-- What a token is to a reader. -/
inductive Group where
  | dice | modifier | boolean | number | substitution | function | label | plain
  deriving DecidableEq

def Group.style : Group → String
  | .dice => "bold ansicyan"
  | .modifier | .boolean => "ansicyan"
  | .number => "ansimagenta"
  | .substitution => "ansigreen"
  | .function => "bold ansiyellow"
  | .label => "italic ansigray"
  | .plain => ""

/-- A piece of a line in one style. -/
structure Fragment where
  group : Group
  text : List Char
  deriving DecidableEq

/-! ### Tokens -/

/-- What a name is: a label in brackets, the dice operator, a function before a parenthesis, or a modifier. -/
def nameGroup (inLabel : Bool) (t : Token) (next : Option Token) : Group :=
  if inLabel then .label
  else if t.lexeme = "d" || t.lexeme = "D" then .dice
  else if next.any (·.kind = .leftParen) then .function
  else if (Modifier.ofKeyword? t.lexeme).isSome then .modifier
  else .plain

/-- What a token is; a bang behind a number or a parenthesis is a modifier. -/
def groupOf (inLabel : Bool) (previous : Option Token) (t : Token) (next : Option Token) : Group :=
  match t.kind with
  | .name => nameGroup inLabel t next
  | .bang =>
    if previous.any fun p => p.kind = .number || p.kind = .rightParen then .modifier else .plain
  | .doubleBang => .modifier
  | .trueWord | .falseWord => .boolean
  | .number => .number
  | .substitution => .substitution
  | _ => .plain

/-- Whether names behind a token are in a label. -/
def labelAfter (inLabel : Bool) (t : Token) : Bool :=
  if t.kind = .leftBracket then true else if t.kind = .rightBracket then false else inLabel

/-! ### Lines -/

/-- A plain piece, if there is anything in it. -/
def gap (text : List Char) : List Fragment := if text.isEmpty then [] else [⟨.plain, text⟩]

/-- The fragments of the rest of a line, which begins at `column` and has the tokens `ts`. A token without a text has no
fragment, nor has one that begins before the rest. -/
def fragmentsFrom (column : Nat) (rest : List Char) (inLabel : Bool) (previous : Option Token) :
    List Token → List Fragment
  | [] => gap rest
  | t :: ts =>
    if t.kind = .endOfInput || t.lexeme = "" || t.column < column then fragmentsFrom column rest inLabel (some t) ts
    else
      let before := t.column - column
      let behind := labelAfter inLabel t
      let text := t.lexeme.toList
      gap (rest.take before) ++ ⟨groupOf behind previous t ts.head?, text⟩ ::
        fragmentsFrom (t.column + text.length) (rest.drop (before + text.length)) behind (some t) ts

/-- The fragments of a line, at least one. -/
def highlightLine (line : String) : List Fragment :=
  let cs := line.toList
  if line = "" then [⟨.plain, []⟩]
  else
    match Token.scan line with
    | .error _ => [⟨.plain, cs⟩]
    | .ok tokens =>
      let fragments := fragmentsFrom 1 cs false none tokens
      if fragments.isEmpty then [⟨.plain, cs⟩] else fragments

/-! ### Documents -/

/-- The lines of a text. -/
def lines (text : String) : List String := (text.toList.splitOn '\n').map String.ofList

/-- A text in the shell: its lines, and the fragments of those that were asked for. -/
structure Document where
  lines : List String
  known : List (Nat × List Fragment) := []

namespace Document

def ofText (text : String) : Document := { lines := Shell.lines text }

/-- The fragments of the line with a number, counted from zero; past the last line there is an empty one. -/
def fragments (d : Document) (number : Nat) : List Fragment :=
  match d.lines[number]? with
  | some line => highlightLine line
  | none => [⟨.plain, []⟩]

/-- Asks for the fragments of a line, which are known from then on. -/
def ask (d : Document) (number : Nat) : List Fragment × Document :=
  match d.known.lookup number with
  | some fragments => (fragments, d)
  | none => (d.fragments number, { d with known := (number, d.fragments number) :: d.known })

/-- Asks for one line after the other. -/
def askAll (d : Document) : List Nat → List (List Fragment)
  | [] => []
  | number :: numbers => (d.ask number).1 :: (d.ask number).2.askAll numbers

end Document

/-- The fragments of a line of a text. -/
def highlight (text : String) (number : Nat) : List Fragment := ((Document.ofText text).ask number).1

end DiceNotation.Shell
