import DiceNotation.Expr.Prefix

/-!
The rolled form of an expression: the way it was written, with the sum of its rolls in the place of each roll that
was made.
-/

namespace DiceNotation.Expr

/-- The text of a modifier behind its dice or pool; selections leave out their comparison. -/
def modifierText (modifier : Modifier) (comparison : Comparison) (target : String) : String :=
  if modifier = .plain then ""
  else modifier.suffix ++ (if modifier.isSelection then "" else comparison.symbol) ++ target

/-- The rolls of settled dice. -/
def rollsText (rolls : List Number) : String := "(" ++ " + ".intercalate (rolls.map Number.toText) ++ ")"

mutual
/-- The rolled form. -/
def rolledText (sheet : Sheet) : Expr → Except Unprintable String
  | .literal v label => .ok (withLabel (Value.resultText v) label)
  | .substitution slot key label =>
    match sheet.resolved slot with
    | some v => .ok (withLabel v.toText label)
    | none => do
      let key ← Unprintable.check (keyText key)
      return withLabel ("@" ++ key) label
  | .group inner => do
    let inner ← inner.rolledText sheet
    return "(" ++ inner ++ ")"
  | .unary op operand => do
    let op ← operatorText op
    let operand ← operand.rolledText sheet
    return op ++ operand
  | .binary op left right => do
    let left ← left.rolledText sheet
    let op ← operatorText op
    let right ← right.rolledText sheet
    return left ++ " " ++ op ++ " " ++ right
  | .choice condition consequent alternative => do
    let condition ← condition.rolledText sheet
    let consequent ← consequent.rolledText sheet
    let alternative ← alternative.rolledText sheet
    return condition ++ " ? " ++ consequent ++ " : " ++ alternative
  | .call callee _ arguments => do
    let name ← match ← Unprintable.check (callee.name? sheet) with
      | some name => if name = "" then callee.rolledText sheet else pure name
      | none => callee.rolledText sheet
    let arguments ← rolledTexts sheet arguments
    return name ++ "(" ++ ", ".intercalate arguments ++ ")"
  | .dice slot count faces label modifier comparison target => do
    let body ←
      if (sheet.result slot).isSome then pure (rollsText (sheet.rolls slot))
      else do
        let count ← count.rolledText sheet
        let faces ← faces.rolledText sheet
        pure (count ++ "d" ++ faces)
    let targetText ←
      if modifier = .plain then pure ""
      else
        match target with
        | .absent => pure ""
        | .faces => faces.rolledText sheet
        | .value target => target.rolledText sheet
    return withLabel (body ++ modifierText modifier comparison targetText) label
  | .pool entries modifier comparison target => do
    let entries ← rolledTexts sheet entries
    let targetText ←
      if modifier = .plain then pure ""
      else
        match target with
        | none => pure ""
        | some target => target.rolledText sheet
    return "\x7b" ++ ", ".intercalate entries ++ "\x7d" ++ modifierText modifier comparison targetText
  | .foreign text => .error (.foreign ⟨text⟩)
  termination_by structural e => e

/-- The rolled forms of a list. -/
def rolledTexts (sheet : Sheet) : List Expr → Except Unprintable (List String)
  | [] => .ok []
  | e :: es => do
    let text ← e.rolledText sheet
    let texts ← rolledTexts sheet es
    return text :: texts
  termination_by structural es => es
end

end DiceNotation.Expr
