import DiceNotation.Number.Numeral
import DiceNotation.Text.Quoted

/-!
The values of expressions: numbers, truth values and strings.

A result may also be absent, which only a tree that was not parsed can show; it is `none` in `Option Value`.
-/

namespace DiceNotation

inductive Value where
  | number (x : Number)
  | bool (b : Bool)
  | string (s : String)
  deriving DecidableEq

instance : Inhabited Value := ⟨.bool false⟩

namespace Value

/-- The text of a value as a result. -/
def toText : Value → String
  | .number x => x.toText
  | .bool b => if b then "true" else "false"
  | .string s => s

/-- The text of a value as data: a number with its point, a truth value with a capital, a string unquoted. -/
def toPlainText : Value → String
  | .number x => x.toPointText
  | .bool b => if b then "True" else "False"
  | .string s => s

/-- The text of a value as data, strings quoted. -/
def toDataText : Value → String
  | .string s => Text.quoted s
  | v => v.toPlainText

/-- The name that error messages give to the kind of a result. -/
def kindName : Option Value → String
  | some (.number _) => "RollNumber"
  | some (.bool _) => "RollBool"
  | some (.string _) => "RollString"
  | none => "NoneType"

/-- The text of a result that may be absent. -/
def resultText : Option Value → String
  | some v => v.toText
  | none => "None"

/-- `false` and absence are false, everything else is true, zero and the empty string included. -/
def isTruthy : Option Value → Bool
  | none => false
  | some (.bool b) => b
  | some _ => true

end Value

/-- Numbers closer than this are equal. -/
def Number.tolerance : Number := .ofDecimal false 1 (-5)

/-- Equality of numbers up to the tolerance. -/
def Number.close (x y : Number) : Bool := (x.sub y).abs.lt .tolerance

/-- Equality of results: numbers up to the tolerance, everything else exactly. -/
def Value.same : Option Value → Option Value → Bool
  | some (.number x), some (.number y) => x.close y
  | v, w => v == w

end DiceNotation
