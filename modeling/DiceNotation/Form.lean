import DiceNotation.Evaluate
import DiceNotation.Expr.Parse
import DiceNotation.Expr.Rolled

/-!
Expressions with their sheets, from the text to the result.

A form is an expression with the sheet that its evaluations fill in. Evaluating a form again goes on from what its
sheet already shows.
-/

namespace DiceNotation

/-! ### Forms -/

structure Form where
  expr : Expr
  sheet : Sheet := .blank

namespace Form

def ofText (source : String) : Except ReadError Form := (Expr.ofText source).map fun e => { expr := e }

/-- Evaluates a form on a script of rolls; the sheet of the table is the form's next one. -/
def evaluate (form : Form) (setting : Setting) (script : List Int) : Except Failure (Option Value) × Table :=
  (form.expr.evaluate setting).run.run ⟨form.sheet, script, []⟩

def prefixText (form : Form) (context : Context) : Except Unprintable String :=
  form.expr.prefixText form.sheet context

def rolledText (form : Form) : Except Unprintable String := form.expr.rolledText form.sheet

end Form

/-! ### Trouble -/

/-- All that can keep a text from having a result. -/
inductive Trouble where
  | read (e : ReadError)
  | play (failure : Failure)
  | print (e : Unprintable)
  deriving DecidableEq

namespace Trouble

def message : Trouble → String
  | .read e => e.message
  | .play failure => failure.message
  | .print (.foreign e) => e.message
  | .print (.lacking l) => l.message
  | .print .overflow => Failure.overflow.message

/-- The trouble lies in the text or in its evaluation, and whoever asked is told so. The rest ends the program. -/
def isReported : Trouble → Bool
  | .read _ | .play (.fault ..) => true
  | _ => false

end Trouble

/-! ### From text to result -/

/-- A table on which nothing has happened. -/
def Table.fresh (script : List Int) : Table := ⟨.blank, script, []⟩

/-- The result of a text, and the table afterwards. -/
def evaluateText (setting : Setting) (source : String) (script : List Int) :
    Except Trouble (Option Value) × Table :=
  match Form.ofText source with
  | .error e => (.error (.read e), .fresh script)
  | .ok form =>
    match form.evaluate setting script with
    | (.error failure, table) => (.error (.play failure), table)
    | (.ok v, table) => (.ok v, table)

/-- A text with everything that becomes of it: its tokens, its debug form before the evaluation, its result and its
rolled form. -/
structure Echo where
  tokens : List Token
  prefixed : String
  value : Option Value
  rolled : String

/-- The echo of a text, and the table afterwards. -/
def Echo.ofText (setting : Setting) (source : String) (script : List Int) : Except Trouble Echo × Table :=
  match Token.scan source with
  | .error e => (.error (.read (.scan e)), .fresh script)
  | .ok tokens =>
    match Expr.ofTokens tokens with
    | .error e => (.error (.read (.parse e)), .fresh script)
    | .ok expr =>
      let form : Form := { expr }
      match form.prefixText setting.context with
      | .error e => (.error (.print e), .fresh script)
      | .ok prefixed =>
        match form.evaluate setting script with
        | (.error failure, table) => (.error (.play failure), table)
        | (.ok value, table) =>
          match Form.rolledText { expr, sheet := table.sheet } with
          | .error e => (.error (.print e), table)
          | .ok rolled => (.ok { tokens, prefixed, value, rolled }, table)

end DiceNotation
