import DiceNotation.Number.Numeral
import DiceNotation.Text.Lowercase
import DiceNotation.Text.Quoted

/-!
What the environment sets: a seed for the dice, and whether errors come with a trace.
-/

namespace DiceNotation

structure Environment where
  seed : Option String
  trace : Option String

namespace Environment

/-- The seed that is set, none if it is blank; the error is the message for one that is no whole number. -/
def readSeed (env : Environment) : Except String (Option Int) :=
  match env.seed with
  | none => .ok none
  | some raw =>
    let text := Text.trim raw
    if text = "" then .ok none
    else
      match Numeral.readInt? text with
      | some n => .ok (some n)
      | none => .error s!"ROLLEXPR_SEED must be an integer, got {Text.quoted raw}"

/-- A seed that is given, or else the one that is set. -/
def chooseSeed (env : Environment) : Option Int → Except String (Option Int)
  | some n => .ok (some n)
  | none => env.readSeed

def traces (env : Environment) : Bool :=
  ["1", "true", "yes", "on"].contains (Text.lowercase (Text.trim (env.trace.getD "")))

/-- What is said about an error, with the head of a trace if one is asked for. -/
def errorText (env : Environment) (message : String) : String :=
  s!"Error: {message}\n" ++ if env.traces then "\nPython traceback:\n" else ""

end Environment

end DiceNotation
