import DiceNotation.Expr

/-!
The parts of an expression, in the order of the text.
-/

namespace DiceNotation

/-- A part that is no expression, and the text it shows instead. -/
structure NotExpression where
  text : String
  deriving DecidableEq

def NotExpression.message (e : NotExpression) : String :=
  s!"Not an expression node: {Text.quoted e.text}"

namespace Expr

/-- The direct parts of an expression. A target that is the faces themselves is not another part. -/
def children : Expr → Except NotExpression (List Expr)
  | .literal .. | .substitution .. => .ok []
  | .group inner => .ok [inner]
  | .unary _ operand => .ok [operand]
  | .binary _ left right => .ok [left, right]
  | .choice c t e => .ok [c, t, e]
  | .call callee _ arguments => .ok (callee :: arguments)
  | .dice _ count faces _ _ _ (.value target) => .ok [count, faces, target]
  | .dice _ count faces _ _ _ _ => .ok [count, faces]
  | .pool entries _ _ (some target) => .ok (entries ++ [target])
  | .pool entries _ _ none => .ok entries
  | .foreign text => .error ⟨text⟩

/-! ### Size -/

mutual
/-- The number of parts of an expression, itself included. -/
def size : Expr → Nat
  | .literal .. | .substitution .. | .foreign _ => 1
  | .group inner => inner.size + 1
  | .unary _ operand => operand.size + 1
  | .binary _ left right => left.size + right.size + 1
  | .choice c t e => c.size + t.size + e.size + 1
  | .call callee _ arguments => callee.size + sizes arguments + 1
  | .dice _ count faces _ _ _ (.value target) => count.size + faces.size + target.size + 1
  | .dice _ count faces _ _ _ _ => count.size + faces.size + 1
  | .pool entries _ _ (some target) => sizes entries + target.size + 1
  | .pool entries _ _ none => sizes entries + 1
  termination_by structural e => e

/-- The number of parts of all expressions of a list. -/
def sizes : List Expr → Nat
  | [] => 0
  | e :: es => e.size + sizes es
  termination_by structural es => es
end

theorem sizes_append (es fs : List Expr) : sizes (es ++ fs) = sizes es + sizes fs := by
  induction es with
  | nil => simp [sizes]
  | cons e es ih => simp [sizes, ih, Nat.add_assoc]

theorem size_eq_of_children {e : Expr} {es : List Expr} (h : e.children = .ok es) : e.size = sizes es + 1 := by
  unfold children at h
  split at h <;> cases h <;> simp [size, sizes, sizes_append] <;> omega

/-! ### Walks -/

/-- Visits the expressions of a stack and all their parts, each before its own parts. -/
def walkFrom (stack : List Expr) : Except NotExpression (List Expr) :=
  match stack with
  | [] => .ok []
  | e :: rest =>
    match _h : e.children with
    | .error err => .error err
    | .ok es => (walkFrom (es ++ rest)).map (e :: ·)
  termination_by sizes stack
  decreasing_by simp only [sizes_append, sizes, size_eq_of_children _h]; omega

/-- All parts of an expression, itself first. -/
def walk (e : Expr) : Except NotExpression (List Expr) := walkFrom [e]

def isDice : Expr → Bool
  | .dice .. => true
  | _ => false

/-- The dice of an expression. -/
def diceParts (e : Expr) : Except NotExpression (List Expr) := e.walk.map (·.filter isDice)

end Expr

end DiceNotation
