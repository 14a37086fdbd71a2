/-!
A place in a text, from which characters are looked at and taken.

The place may lie past the end, where every character is the null character.
-/

namespace DiceNotation.Text

structure Cursor where
  text : List Char
  position : Nat
  /-- The column of the place, counted from one. -/
  column : Nat

namespace Cursor

def start (text : String) : Cursor := ⟨text.toList, 0, 1⟩

/-- The character at a distance from the place. Places before the text count from its end; there is none before
those. -/
def peek? (c : Cursor) (offset : Int) : Option Char :=
  let index := c.position + offset
  if 0 ≤ index then some (c.text.getD index.toNat '\x00')
  else if -index ≤ c.text.length then c.text[(index + c.text.length).toNat]?
  else none

/-- Takes characters from the place on. The error is the message for a number below zero. -/
def advance (c : Cursor) (n : Int) : Except String (String × Cursor) :=
  if n < 0 then .error s!"advance() requires n >= 0, got {n}"
  else
    let taken := (List.range n.toNat).map fun i => c.text.getD (c.position + i) '\x00'
    .ok (String.ofList taken, { c with position := c.position + n.toNat, column := c.column + n.toNat })

end Cursor

end DiceNotation.Text
