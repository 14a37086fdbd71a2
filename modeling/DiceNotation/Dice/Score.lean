import DiceNotation.Failure

/-!
What the values of dice and pools come to under a modifier.
-/

namespace DiceNotation

/-- How many values compare with the target as asked. -/
def countSuccesses (c : Comparison) (target : Number) (xs : List Number) : Nat :=
  xs.countP fun x => c.test x target

/-- How many faces compare with the target as asked. -/
def countFaces (c : Comparison) (target : Number) (faces : List Nat) : Nat :=
  faces.countP fun face => c.testFace face target

/-! ### Keep and drop -/

/-- Sorted from the highest or the lowest on. Values that are equal or without order keep theirs. -/
def sortFrom (highest : Bool) (xs : List Number) : List Number :=
  xs.mergeSort fun x y => if highest then !x.lt y else !y.lt x

/-- The values that a selection with `n` keeps, in sorted order. -/
def Selection.kept (s : Selection) (n : Nat) (xs : List Number) : List Number :=
  let sorted := sortFrom s.highest xs
  if s.keep then sorted.take n else sorted.drop n

/-- The sum of the values that a selection keeps. Its number is rounded, and none at all if negative. -/
def Selection.score (s : Selection) (xs : List Number) (number : Number) : Except Fault Number := do
  let n ← requireFinite "Keep/drop count" number
  return .sum (s.kept n.toNat xs)

/-! ### Margins -/

/-- By how much a total passes its target; below it for the comparisons that ask for less. -/
def margin (c : Comparison) (total target : Number) : Number :=
  match c with
  | .less | .lessEqual => target.sub total
  | _ => total.sub target

end DiceNotation
