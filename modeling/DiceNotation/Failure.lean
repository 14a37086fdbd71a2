import DiceNotation.Context
import DiceNotation.Expr

/-!
How an evaluation fails.

A fault is something wrong with the expression on its context; it remembers the innermost operator at work. The
other failures, such as a sum too large for a number or a lack of rolls, have no place and are no faults.
-/

namespace DiceNotation

/-! ### Faults -/

/-- The operands of dice and pools. -/
inductive Role where
  | count | faces | target | poolEntry | poolTarget
  deriving DecidableEq

def Role.text : Role → String
  | .count => "number"
  | .faces => "faces"
  | .target => "modifier value"
  | .poolEntry => "pool entry"
  | .poolTarget => "pool modifier value"

/-- The cause of a fault. -/
inductive Fault where
  /-- The operand of `what` is no number. -/
  | notNumber (what : String) (got : Option Value)
  | roleNotNumber (role : Role) (got : Option Value)
  | notFinite (what : String) (x : Number)
  | noFaces (faces : Int)
  | noTarget (modifier : Modifier)
  | noPoolTarget (modifier : Modifier)
  | unknownPoolModifier (modifier : Modifier)
  | missingKey (key : String)
  | unsupportedData (kind : String)
  | namelessCall
  | unknownFunction (key : String)
  | wrongArity (name : String) (expected got : Nat)
  | fewArguments (name : String) (least got : Nat)
  | unknownUnary (text : String)
  | unknownBinary (text : String)
  | notExpression
  deriving DecidableEq

/-- The families of faults. -/
inductive Fault.Family where
  | general | type | arity | key
  deriving DecidableEq

namespace Fault

def family : Fault → Family
  | .notNumber .. | .roleNotNumber .. | .unsupportedData _ => .type
  | .wrongArity .. | .fewArguments .. => .arity
  | .missingKey _ => .key
  | _ => .general

def message : Fault → String
  | .notNumber what got => s!"{what}: Operand must be a number, got {Value.kindName got}"
  | .roleNotNumber role got => s!"Dice {role.text} must be a number but is a {Value.kindName got}"
  | .notFinite what x => s!"{what} must be finite, got {x.toPointText}"
  | .noFaces faces => s!"Dice must have at least one face, got {faces}"
  | .noTarget modifier => s!"Dice modifier '{modifier.name}' has no value"
  | .noPoolTarget modifier => s!"Dice pool modifier '{modifier.name}' has no value"
  | .unknownPoolModifier modifier => s!"Unknown dice pool modifier '{modifier.name}'"
  | .missingKey key => s!"Context does not contain key '{key}'"
  | .unsupportedData kind => s!"Unsupported context value of type {kind}"
  | .namelessCall => "Function call without a name"
  | .unknownFunction key => s!"Unknown function '{key}'"
  | .wrongArity name expected got =>
    s!"{name} takes exactly {expected} argument" ++ (if expected = 1 then "" else "s") ++ s!", got {got}"
  | .fewArguments name least got => s!"{name} takes at least {least} argument, got {got}"
  | .unknownUnary text => s!"Unsupported unary operator '{text}'"
  | .unknownBinary text => s!"Unknown operator {text}"
  | .notExpression => "Unsupported node type str"

end Fault

/-! ### Failures -/

/-- Where a fault happened: the text of an operator and its column. -/
structure Place where
  column : Nat
  lexeme : String
  deriving DecidableEq

inductive Failure where
  | fault (cause : Fault) (place : Option Place)
  /-- A whole number is too large for a number. -/
  | overflow
  /-- No roll is left for a die with so many faces. -/
  | outOfRolls (faces : Nat)
  | lacking (l : Lack)
  /-- A function is applied to fewer arguments than it looks at. -/
  | missingArgument
  deriving DecidableEq

namespace Failure

def message : Failure → String
  | .fault cause none => cause.message
  | .fault cause (some place) => s!"{cause.message} (col {place.column})"
  | .overflow => "int too large to convert to float"
  | .outOfRolls faces => s!"no roll left for d{faces}"
  | .lacking l => l.message
  | .missingArgument => "list index out of range"

/-- Gives a fault without place the place of an operator; a token in column zero has none. -/
def locate (failure : Failure) (op : Token) : Failure :=
  match failure with
  | .fault cause none => if op.column = 0 then failure else .fault cause (some ⟨op.column, op.lexeme⟩)
  | _ => failure

end Failure

/-- The value of a piece of data. -/
def requireValue (d : Datum) : Except Failure Value :=
  match d.toValue with
  | .ok v => .ok v
  | .error (.kind name) => .error (.fault (.unsupportedData name) none)
  | .error .overflow => .error .overflow

/-- The number that a value has to be. -/
def requireNumber (what : String) : Option Value → Except Fault Number
  | some (.number x) => .ok x
  | v => .error (.notNumber what v)

/-- The number that an operand of dice has to be. -/
def requireRole (role : Role) : Option Value → Except Fault Number
  | some (.number x) => .ok x
  | v => .error (.roleNotNumber role v)

/-- The whole number nearest to a finite number. -/
def requireFinite (what : String) (x : Number) : Except Fault Int :=
  match x.round? with
  | some n => .ok n
  | none => .error (.notFinite what x)

end DiceNotation
