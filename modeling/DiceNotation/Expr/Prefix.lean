import DiceNotation.Context
import DiceNotation.Expr.Walk

/-!
The debug form of an expression: every operation in parentheses, its name first.

A substitution that is still open shows its key and, if the context has one, the value that it would get.
-/

namespace DiceNotation

/-- Why an expression cannot be printed. -/
inductive Unprintable where
  | foreign (e : NotExpression)
  | lacking (l : Lack)
  /-- The context holds a whole number too large for a number. -/
  | overflow
  deriving DecidableEq

/-- A text of which a part may be lacking. -/
def Unprintable.check {α : Type} (r : Except Lack α) : Except Unprintable α := r.mapError .lacking

/-- The text of an operator. -/
def operatorText (op : Option Token) : Except Unprintable String :=
  (Unprintable.check (require .operatorText op)).map (·.lexeme)

/-- A text with a label behind it. -/
def withLabel (text : String) : Option String → String
  | none => text
  | some label => text ++ "[" ++ label ++ "]"

/-- The text of the value that a piece of data gives, or of the data if it gives none. -/
def Datum.previewText (d : Datum) : Except Unprintable String :=
  match d.toValue with
  | .ok v => .ok v.toText
  | .error .overflow => .error .overflow
  | .error (.kind _) => .ok d.toText

/-- Words in parentheses. -/
def parenthesized (words : List String) : String := "(" ++ " ".intercalate words ++ ")"

namespace Expr

mutual
/-- The debug form. -/
def prefixText (sheet : Sheet) (context : Context) : Expr → Except Unprintable String
  | .literal v label => .ok (withLabel (Value.resultText v) label)
  | .substitution slot key label =>
    match sheet.resolved slot with
    | some v => .ok (withLabel v.toText label)
    | none => do
      let key ← Unprintable.check (keyText key)
      match context.get? key with
      | some d => do
        let preview ← d.previewText
        return withLabel (parenthesized ["@", key, preview]) label
      | none => return withLabel (parenthesized ["@", key]) label
  | .group inner => do
    let inner ← inner.prefixText sheet context
    return parenthesized ["group", inner]
  | .unary op operand => do
    let op ← operatorText op
    let operand ← operand.prefixText sheet context
    return parenthesized [op, operand]
  | .binary op left right => do
    let op ← operatorText op
    let left ← left.prefixText sheet context
    let right ← right.prefixText sheet context
    return parenthesized [op, left, right]
  | .choice condition consequent alternative => do
    let condition ← condition.prefixText sheet context
    let consequent ← consequent.prefixText sheet context
    let alternative ← alternative.prefixText sheet context
    return parenthesized ["?:", condition, consequent, alternative]
  | .call callee _ arguments => do
    let name ← match ← Unprintable.check (callee.name? sheet) with
      | some name => if name = "" then callee.prefixText sheet context else pure name
      | none => callee.prefixText sheet context
    let arguments ← prefixTexts sheet context arguments
    return parenthesized (name :: arguments)
  | .dice _ count faces label modifier comparison target => do
    let count ← count.prefixText sheet context
    let facesText ← faces.prefixText sheet context
    let tail ←
      if modifier = .plain then pure []
      else
        match target with
        | .absent => pure [modifier.name, comparison.name]
        | .faces => pure [modifier.name, comparison.name, facesText]
        | .value target => do
          let target ← target.prefixText sheet context
          pure [modifier.name, comparison.name, target]
    return withLabel (parenthesized ("d" :: count :: facesText :: tail)) label
  | .pool entries modifier comparison target => do
    let entries ← prefixTexts sheet context entries
    let target ← match target with
      | none => pure []
      | some target => do
        let target ← target.prefixText sheet context
        pure [target]
    return parenthesized ("pool" :: entries ++ modifier.name :: comparison.name :: target)
  | .foreign text => .error (.foreign ⟨text⟩)
  termination_by structural e => e

/-- The debug forms of a list. -/
def prefixTexts (sheet : Sheet) (context : Context) : List Expr → Except Unprintable (List String)
  | [] => .ok []
  | e :: es => do
    let text ← e.prefixText sheet context
    let texts ← prefixTexts sheet context es
    return text :: texts
  termination_by structural es => es
end

end Expr

end DiceNotation
