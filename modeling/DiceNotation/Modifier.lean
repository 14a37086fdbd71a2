import DiceNotation.Value

/-!
Modifiers of dice and pools, and the comparisons that go with them.
-/

namespace DiceNotation

/-! ### Comparisons -/

/-- How a rolled value is compared with the value of a modifier. -/
inductive Comparison where
  | equal | less | lessEqual | greater | greaterEqual
  deriving DecidableEq

namespace Comparison

/-- Every comparison with its name and its symbol. -/
def table : List (Comparison × String × String) :=
  [(.equal, "Equal", "="), (.less, "Less", "<"), (.lessEqual, "LessEqual", "<="), (.greater, "Greater", ">"),
    (.greaterEqual, "GreaterEqual", ">=")]

def name (c : Comparison) : String := ((table.lookup c).map (·.1)).getD ""

def symbol (c : Comparison) : String := ((table.lookup c).map (·.2)).getD ""

def ofName? (name : String) : Option Comparison := (table.find? (·.2.1 == name)).map (·.1)

theorem ofName?_name (c : Comparison) : ofName? c.name = some c := by cases c <;> decide

/-- The orders that an ordering comparison admits. -/
def admits : Comparison → Ordering → Bool
  | .equal, o => o.isEq
  | .less, o => o.isLT
  | .lessEqual, o => o.isLE
  | .greater, o => o.isGT
  | .greaterEqual, o => o.isGE

/-- Compares a number with a target; `equal` allows the tolerance, the others are exact. -/
def test (c : Comparison) (x target : Number) : Bool :=
  match c with
  | .equal => x.close target
  | c => (x.compare? target).any c.admits

/-- Compares a face with a target. The face is exact but for `equal`, which takes the number nearest to it. -/
def testFace (c : Comparison) (face : Nat) (target : Number) : Bool :=
  match c with
  | .equal => (Number.ofNat face).close target
  | c => (Number.compareInt? face target).any c.admits

end Comparison

/-! ### Modifiers -/

/-- Which values of a sorted list count: those up to a number, or those beyond it, from the highest or the lowest
on. -/
structure Selection where
  keep : Bool
  highest : Bool
  deriving DecidableEq

/-- What is done with the dice of a roll. -/
inductive Modifier where
  | plain
  | reroll
  | explode
  | compoundExplode
  | countSuccesses
  | marginOfSuccess
  | select (selection : Selection)
  deriving DecidableEq

namespace Modifier

abbrev keepHighest : Modifier := .select ⟨true, true⟩
abbrev keepLowest : Modifier := .select ⟨true, false⟩
abbrev dropHighest : Modifier := .select ⟨false, true⟩
abbrev dropLowest : Modifier := .select ⟨false, false⟩

/-- Every modifier with its name and the suffix it has in a rolled expression. -/
def table : List (Modifier × String × String) :=
  [(.plain, "None", ""), (.reroll, "ReRoll", "r"), (.explode, "Explode", "x"),
    (.compoundExplode, "CompoundExplode", "cx"), (.countSuccesses, "CountSuccesses", "cs"),
    (.marginOfSuccess, "MarginOfSuccess", "ms"), (keepHighest, "KeepHighest", "kh"),
    (keepLowest, "KeepLowest", "kl"), (dropHighest, "DropHighest", "dh"), (dropLowest, "DropLowest", "dl")]

def name (m : Modifier) : String := ((table.lookup m).map (·.1)).getD ""

def suffix (m : Modifier) : String := ((table.lookup m).map (·.2)).getD ""

def ofName? (name : String) : Option Modifier := (table.find? (·.2.1 == name)).map (·.1)

theorem ofName?_name (m : Modifier) : ofName? m.name = some m := by
  rcases m with _ | _ | _ | _ | _ | _ | ⟨_ | _, _ | _⟩ <;> decide

def isSelection : Modifier → Bool
  | .select _ => true
  | _ => false

/-- The selection that a modifier makes; one that makes none drops the lowest. -/
def selection : Modifier → Selection
  | .select s => s
  | _ => ⟨false, false⟩

/-- The modifier that a keyword names behind dice. The bangs are other spellings of `x` and `cx`. -/
def ofKeyword? : String → Option Modifier
  | "r" => some .reroll
  | "x" | "!" => some .explode
  | "cx" | "!!" => some .compoundExplode
  | "cs" => some .countSuccesses
  | "ms" => some .marginOfSuccess
  | "kh" => some keepHighest
  | "kl" => some keepLowest
  | "dh" => some dropHighest
  | "dl" => some dropLowest
  | _ => none

/-- The modifier that a keyword names behind a pool. -/
def ofPoolKeyword? : String → Option Modifier
  | "kh" => some keepHighest
  | "kl" => some keepLowest
  | "dh" => some dropHighest
  | "dl" => some dropLowest
  | "cs" => some .countSuccesses
  | _ => none

end Modifier

end DiceNotation
