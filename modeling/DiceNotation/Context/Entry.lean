import DiceNotation.Context
import DiceNotation.Text.Lowercase

/-!
Context entries as people type them: a key, `=` and a value.
-/

namespace DiceNotation.Context

/-- The data that a typed value is: a truth value, a number, or else a string. -/
def readDatum (text : String) : Datum :=
  let lowered := Text.lowercase text
  if lowered = "true" then .bool true
  else if lowered = "false" then .bool false
  else
    match Numeral.readNumber? text with
    | some x => .number x
    | none => .string text

/-- Reads an entry, without the blanks around key and value. The error is the message for a text that is none. -/
def readEntry (text : String) : Except String (String × Datum) :=
  let cs := text.toList
  let key := Text.trim (String.ofList (cs.takeWhile (· ≠ '=')))
  let value := Text.trim (String.ofList ((cs.dropWhile (· ≠ '=')).drop 1))
  if cs.contains '=' && key ≠ "" then .ok (key, readDatum value)
  else .error s!"Expected key=value, got {Text.quoted text}"

end DiceNotation.Context
