import DiceNotation.Number.Arithmetic

/-!
Decimal digits and numbers, both ways.

`Number.ofDecimal` reads `digits * 10 ^ exponent` to the nearest number. `shortest` goes back: of the decimals that
read to a given number it takes one with the fewest digits, and of those the nearest.
-/

namespace DiceNotation.Number

/-! ### From digits -/

/-- The number nearest to `digits * 10 ^ exponent`. Exponents beyond every finite number are settled at once. -/
def ofDecimal (negative : Bool) (digits : Nat) (exponent : Int) : Number :=
  if digits = 0 then .finite negative 0 representable_zero
  else if exponent > 400 then .infinite negative
  else if digits.log2 + 1 + 3 * exponent < -1100 then .finite negative 0 representable_zero
  else if exponent < 0 then ofQuotient negative (digits * unitQuanta) (Nat.pow 10 exponent.natAbs)
  else ofQuotient negative (digits * Nat.pow 10 exponent.natAbs * unitQuanta) 1

/-! ### To digits -/

/-- The digits of a natural number in base ten. -/
def decimalDigits (n : Nat) : List Char := Nat.toDigits 10 n

/-- The exponent of the leading decimal digit of a positive magnitude. -/
def leadingExponent (quanta : Nat) : Int :=
  (decimalDigits (quanta * Nat.pow 10 400 / unitQuanta)).length - 401

/-- The two multiples of `10 ^ exponent` around a magnitude, the greater as the next of the returned one, and the
part of a step that lies between the magnitude and the lesser, as numerator and denominator. -/
def gridBelow (quanta : Nat) (exponent : Int) : Nat × Nat × Nat :=
  let num := if exponent < 0 then quanta * Nat.pow 10 exponent.natAbs else quanta
  let den := if exponent < 0 then unitQuanta else unitQuanta * Nat.pow 10 exponent.natAbs
  (num / den, num % den, den)

/-- A decimal with digits `digits` at `exponent` reads back to the magnitude. -/
def readsBack (quanta digits : Nat) (exponent : Int) : Bool :=
  match ofDecimal false digits exponent with
  | .finite _ q _ => q == quanta
  | _ => false

/-- The decimal on the grid of `10 ^ exponent` that reads back to the magnitude, the nearer if there are two. -/
def onGrid? (quanta : Nat) (exponent : Int) : Option Nat :=
  let (below, part, step) := gridBelow quanta exponent
  let nearer := if 2 * part < step then below
    else if step < 2 * part then below + 1 else below + below % 2
  let further := if nearer = below then below + 1 else below
  if readsBack quanta nearer exponent then some nearer
  else if readsBack quanta further exponent then some further
  else none

/-- Searches the grids of `count`, `count + 1`, … digits, `tries` of them. -/
def shortestFrom (quanta : Nat) (lead : Int) (count : Nat) : Nat → Nat × Int
  | 0 => (0, 0)
  | tries + 1 =>
    let exponent := lead - count + 1
    match onGrid? quanta exponent with
    | some digits => (digits, exponent)
    | none => shortestFrom quanta lead (count + 1) tries

/-- The digits and exponent of the shortest decimal that reads back to a positive magnitude. Seventeen digits
always suffice. -/
def shortest (quanta : Nat) : Nat × Int :=
  shortestFrom quanta (leadingExponent quanta) 1 17

/-! ### Texts -/

/-- Pads on the left to two digits. -/
def exponentDigits (n : Nat) : List Char :=
  if n < 10 then '0' :: decimalDigits n else decimalDigits n

/-- A positive magnitude in its shortest decimal. Leading exponents from -4 to 15 are written positionally, with a
point in any case; the others with the mark `e`, a sign and two exponent digits at least. -/
def magnitudeText (quanta : Nat) : List Char :=
  let (digits, exponent) := shortest quanta
  let all := decimalDigits digits
  let lead := exponent + all.length - 1
  let ds := (all.reverse.dropWhile (· == '0')).reverse
  if lead < -4 || 16 ≤ lead then
    ds.take 1 ++ (if ds.length ≤ 1 then [] else '.' :: ds.drop 1) ++
      'e' :: (if lead < 0 then '-' else '+') :: exponentDigits lead.natAbs
  else if lead < 0 then
    '0' :: '.' :: (List.replicate (lead.natAbs - 1) '0' ++ ds)
  else
    let whole := lead.natAbs + 1
    if ds.length ≤ whole then ds ++ List.replicate (whole - ds.length) '0' ++ ['.', '0']
    else ds.take whole ++ '.' :: ds.drop whole

def signText (negative : Bool) : List Char := if negative then ['-'] else []

/-- The shortest text that reads back, always with a point, an exponent or a word: `2.0`, `1e+16`, `-inf`. -/
def toPointText : Number → String
  | .nan => "nan"
  | .infinite s => String.ofList (signText s ++ ['i', 'n', 'f'])
  | .finite s q _ =>
    String.ofList (signText s ++ if q = 0 then ['0', '.', '0'] else magnitudeText q)

/-- The text of a result: a whole number in full, without point or sign of zero, any other number in its shortest
text. -/
def toText (x : Number) : String :=
  match x.toInt? with
  | some n => toString n
  | none => x.toPointText

end DiceNotation.Number
