import DiceNotation.Failure
import DiceNotation.Text.Lowercase

/-!
The functions that expressions may call.

A library looks functions up by name, whatever the case; the last one registered under a name is the one that is
called.
-/

namespace DiceNotation

/-- A function: its own name, how many arguments it takes, and what it makes of them. -/
structure Builtin where
  name : String
  arity : Option Nat
  leastArity : Nat
  apply : List (Option Value) → Except Failure Value

namespace Builtin

/-- A function of a first argument and others. -/
def fromFirst (f : Option Value → List (Option Value) → Except Fault Value) :
    List (Option Value) → Except Failure Value
  | [] => .error .missingArgument
  | v :: vs => (f v vs).mapError (.fault · none)

/-- The number nearest to a whole number that `round` finds; numbers without one stay. -/
def integral (name : String) (round : Number → Option Int) (v : Option Value) : Except Fault Value := do
  let x ← requireNumber name v
  return .number (match round x with
    | some n => .ofInt n
    | none => x)

/-- The better of two numbers; not-a-number beats all. -/
def pickStep (name : String) (pick : Number → Number → Number) (best : Number) (v : Option Value) :
    Except Fault Number := do
  let x ← requireNumber name v
  return if best.isNaN || x.isNaN then .nan else pick best x

/-- The best of the arguments. -/
def pickFrom (name : String) (pick : Number → Number → Number) (v : Option Value) (vs : List (Option Value)) :
    Except Fault Value := do
  let first ← requireNumber name v
  let best ← vs.foldlM (pickStep name pick) first
  return .number best

/-- The lesser of two numbers, the first if neither is. -/
def lesser (x y : Number) : Number := if y.lt x then y else x

/-- The greater of two numbers, the first if neither is. -/
def greater (x y : Number) : Number := if x.lt y then y else x

def unary (name shown : String) (round : Number → Option Int) : Builtin :=
  ⟨name, some 1, 0, fromFirst fun v _ => integral shown round v⟩

def variadic (name : String) (pick : Number → Number → Number) : Builtin := ⟨name, none, 1, fromFirst (pickFrom name pick)⟩

end Builtin

/-! ### Libraries -/

/-- Functions under their lower-case names. -/
abbrev Builtins := List (String × Builtin)

namespace Builtins

def register (fs : Builtins) (f : Builtin) : Builtins := (Text.lowercase f.name, f) :: fs

def find (fs : Builtins) (name : String) : Except Fault Builtin :=
  let key := Text.lowercase name
  match List.lookup key fs with
  | some f => .ok f
  | none => .error (.unknownFunction key)

/-- The functions that are always there. -/
def standard : Builtins :=
  [("floor", .unary "floor" "floor" Number.floor?), ("ceil", .unary "ceil" "ceil" Number.ceil?),
    ("ceiling", .unary "ceiling" "ceil" Number.ceil?), ("round", .unary "round" "round" Number.round?),
    ("min", .variadic "min" Builtin.lesser), ("max", .variadic "max" Builtin.greater)]

end Builtins

end DiceNotation
