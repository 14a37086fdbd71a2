import DiceNotation.Modifier
import DiceNotation.Token

/-!
Expressions, and the sheet that an evaluation fills in.

An expression never changes. What evaluating it settles, the values of its substitutions and the rolls of its dice,
stands on a sheet, under the slots that the expression gives to them. Two occurrences with one slot are one roll or
one substitution.
-/

namespace DiceNotation

/-- The value that a modifier of dice compares with. -/
inductive Target (α : Type) where
  | absent
  /-- The very expression that gives the number of faces. -/
  | faces
  | value (e : α)

abbrev Slot := Nat

/-- An expression. Only those built by hand may be `foreign`, or lack an operator, a key or the value of a literal. -/
inductive Expr where
  | literal (value : Option Value) (label : Option String)
  /-- A substitution, for which the context has a value under `key`. -/
  | substitution (slot : Slot) (key : Option Value) (label : Option String)
  | group (inner : Expr)
  | unary (op : Option Token) (operand : Expr)
  | binary (op : Option Token) (left right : Expr)
  | choice (condition consequent alternative : Expr)
  /-- `token` is the one before the parenthesis. -/
  | call (callee : Expr) (token : Option Token) (arguments : List Expr)
  | dice (slot : Slot) (count faces : Expr) (label : Option String) (modifier : Modifier)
      (comparison : Comparison) (target : Target Expr)
  | pool (entries : List Expr) (modifier : Modifier) (comparison : Comparison) (target : Option Expr)
  /-- Something in the place of an expression that is none. -/
  | foreign (text : String)

instance : Inhabited Expr := ⟨.literal none none⟩

/-! ### Sheets -/

/-- What evaluations have settled so far: the values of substitutions, and rolls and results of dice. -/
structure Sheet where
  resolved : Slot → Option Value
  rolls : Slot → List Number
  result : Slot → Option Number

namespace Sheet

/-- Nothing is settled. -/
def blank : Sheet := ⟨fun _ => none, fun _ => [], fun _ => none⟩

/-- Settles a substitution. -/
def resolve (s : Sheet) (slot : Slot) (v : Value) : Sheet :=
  { s with resolved := fun i => if i = slot then some v else s.resolved i }

/-- Adds rolls at the end of those of a slot. -/
def record (s : Sheet) (slot : Slot) (xs : List Number) : Sheet :=
  { s with rolls := fun i => if i = slot then s.rolls i ++ xs else s.rolls i }

/-- Settles the result of dice. -/
def settle (s : Sheet) (slot : Slot) (x : Number) : Sheet :=
  { s with result := fun i => if i = slot then some x else s.result i }

@[simp] theorem resolved_resolve (s : Sheet) (slot i : Slot) (v : Value) :
    (s.resolve slot v).resolved i = if i = slot then some v else s.resolved i := rfl

@[simp] theorem rolls_record (s : Sheet) (slot i : Slot) (xs : List Number) :
    (s.record slot xs).rolls i = if i = slot then s.rolls i ++ xs else s.rolls i := rfl

@[simp] theorem result_settle (s : Sheet) (slot i : Slot) (x : Number) :
    (s.settle slot x).result i = if i = slot then some x else s.result i := rfl

end Sheet

/-! ### What may be lacking -/

/-- A part that is lacking where it is needed. -/
inductive Lack where
  /-- The key of a substitution, or the value of a callee. -/
  | value
  /-- The operator that is to be applied. -/
  | operator
  /-- The operator that is to be printed. -/
  | operatorText
  deriving DecidableEq

def Lack.message : Lack → String
  | .value => "'NoneType' object has no attribute 'to_python'"
  | .operator => "'NoneType' object has no attribute 'type'"
  | .operatorText => "'NoneType' object has no attribute 'lexeme'"

/-- A part that has to be there. -/
def require {α : Type} (lack : Lack) : Option α → Except Lack α
  | some a => .ok a
  | none => .error lack

/-- The text of the key of a substitution. -/
def keyText (key : Option Value) : Except Lack String := (require .value key).map Value.toPlainText

/-! ### Names -/

/-- The name of a callee: a string that stands there, or that a substitution was given. -/
def Expr.name? (sheet : Sheet) : Expr → Except Lack (Option String)
  | .literal v _ => do
    match ← require .value v with
    | .string s => return some s
    | _ => return none
  | .substitution slot _ _ =>
    match sheet.resolved slot with
    | some (.string s) => .ok (some s)
    | _ => .ok none
  | _ => .ok none

end DiceNotation
