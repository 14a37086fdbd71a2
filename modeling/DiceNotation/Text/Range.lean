/-!
Classes of characters, written as tables of ranges of code points.
-/

namespace DiceNotation.Text

/-- A class of characters: the first and last code point of each range. -/
abbrev CharClass := List (Nat × Nat)

def CharClass.has (table : CharClass) (c : Char) : Bool :=
  table.any fun (first, last) => first ≤ c.toNat && c.toNat ≤ last

end DiceNotation.Text
