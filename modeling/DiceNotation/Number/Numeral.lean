import DiceNotation.Number.Decimal
import DiceNotation.Text.Blank
import DiceNotation.Text.Digit

/-!
Numbers as people type them.

A typed numeral may have blanks around it, a sign, single underscores between digits, and digits of any script. A
typed number may also have a fraction, an exponent, or be one of the words `inf`, `infinity` and `nan` in any case.
-/

namespace DiceNotation.Numeral

open Text

/-! ### Digits and separators -/

def isDigit (c : Char) : Bool := '0' ≤ c && c ≤ '9'

/-- The value of a run of ASCII digits. -/
def digitsValue (cs : List Char) : Nat := cs.foldl (fun n c => n * 10 + (c.toNat - '0'.toNat)) 0

/-- Digits of every script become ASCII digits. -/
def plainDigit (c : Char) : Char :=
  match digitValue? c with
  | some d => Nat.digitChar d
  | none => c

/-- The information separators are blank in a text but not around a numeral. -/
def isMargin (c : Char) : Bool := isBlank c && !(0x1c ≤ c.toNat && c.toNat ≤ 0x1f)

/-- Leaves out underscores, each of which has to stand between two digits; `afterDigit` tells of the character
before. -/
def dropUnderscores (afterDigit : Bool) : List Char → Option (List Char)
  | [] => some []
  | c :: rest =>
    if c = '_' then
      if afterDigit && rest.head?.any isDigit then dropUnderscores false rest else none
    else (dropUnderscores (isDigit c) rest).map (c :: ·)

/-- The characters of a numeral without margins and underscores, in plain digits. -/
def clean? (s : String) : Option (List Char) :=
  dropUnderscores false ((strip isMargin s.toList).map plainDigit)

/-- Splits off a sign; `true` is minus. -/
def splitSign : List Char → Bool × List Char
  | '-' :: rest => (true, rest)
  | '+' :: rest => (false, rest)
  | cs => (false, cs)

/-! ### Whole numbers -/

/-- No whole number with more digits is read. -/
def digitLimit : Nat := 4300

def readInt? (s : String) : Option Int := do
  let (negative, ds) := splitSign (← clean? s)
  if ds.isEmpty || !ds.all isDigit || ds.length > digitLimit then none
  else some (Number.signed negative (digitsValue ds))

/-! ### Numbers -/

/-- The exponent after its mark; no text at all is exponent zero. -/
def readExponent? : List Char → Option Int
  | [] => some 0
  | c :: rest =>
    if c = 'e' || c = 'E' then
      let (negative, ds) := splitSign rest
      if ds.isEmpty || !ds.all isDigit then none else some (Number.signed negative (digitsValue ds))
    else none

/-- A number without sign: digits with at most one point among them or beside them, then an exponent. -/
def readUnsigned? (negative : Bool) (cs : List Char) : Option Number := do
  let whole := cs.takeWhile isDigit
  let rest := cs.dropWhile isDigit
  let (fraction, rest) := match rest with
    | '.' :: rest => (rest.takeWhile isDigit, rest.dropWhile isDigit)
    | rest => ([], rest)
  if whole.isEmpty && fraction.isEmpty then none
  else
    let exponent ← readExponent? rest
    some (.ofDecimal negative (digitsValue (whole ++ fraction)) (exponent - fraction.length))

def readNumber? (s : String) : Option Number := do
  let (negative, cs) := splitSign (← clean? s)
  let word := String.ofList (cs.map Char.toLower)
  if word = "inf" || word = "infinity" then some (.infinite negative)
  else if word = "nan" then some .nan
  else readUnsigned? negative cs

end DiceNotation.Numeral
