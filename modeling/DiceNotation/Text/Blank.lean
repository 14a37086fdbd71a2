/-!
Blank characters, and texts without the blanks around them.
-/

namespace DiceNotation.Text

/-- Separators of every script, the line and page breaks, and the four information separators. -/
def isBlank (c : Char) : Bool :=
  let n := c.toNat
  (0x09 ≤ n && n ≤ 0x0d) || (0x1c ≤ n && n ≤ 0x20) || n == 0x85 || n == 0xa0 || n == 0x1680 ||
    (0x2000 ≤ n && n ≤ 0x200a) || n == 0x2028 || n == 0x2029 || n == 0x202f || n == 0x205f || n == 0x3000

theorem isBlank_of_isWhitespace {c : Char} (h : c.isWhitespace = true) : isBlank c = true := by
  simp only [Char.isWhitespace, Bool.or_eq_true, decide_eq_true_eq] at h
  rcases h with ((rfl | rfl) | rfl) | rfl <;> rfl

/-- The list without the leading and trailing elements that satisfy `p`. -/
def strip {α : Type} (p : α → Bool) (xs : List α) : List α :=
  ((xs.dropWhile p).reverse.dropWhile p).reverse

/-- The text without the blanks around it. -/
def trim (s : String) : String := String.ofList (strip isBlank s.toList)

/-- The first word of a text and what follows it, both without blanks around them. -/
def splitWord (s : String) : String × String :=
  let cs := s.toList.dropWhile isBlank
  (String.ofList (cs.takeWhile (!isBlank ·)), trim (String.ofList (cs.dropWhile (!isBlank ·))))

end DiceNotation.Text
