import DiceNotation.Number

/-!
Arithmetic, comparison and rounding to whole numbers.

Infinities, signed zeros and not-a-number follow the usual rules of binary floating point: an exact zero sum is
negative only when both terms are, a product or quotient has the sign that its operands' signs give, and
not-a-number absorbs everything and compares with nothing.
-/

namespace DiceNotation.Number

/-! ### Arithmetic -/

def neg : Number → Number
  | .nan => .nan
  | .infinite s => .infinite (!s)
  | .finite s q h => .finite (!s) q h

def abs : Number → Number
  | .nan => .nan
  | .infinite _ => .infinite false
  | .finite _ q h => .finite false q h

def add : Number → Number → Number
  | .nan, _ | _, .nan => .nan
  | .infinite s, .infinite t => if s = t then .infinite s else .nan
  | .infinite s, .finite .. | .finite .., .infinite s => .infinite s
  | .finite s p _, .finite t q _ => ofQuanta (s && t) (signed s p + signed t q)

def sub (x y : Number) : Number := x.add y.neg

def mul : Number → Number → Number
  | .nan, _ | _, .nan => .nan
  | .infinite s, .infinite t => .infinite (s != t)
  | .infinite s, .finite t q _ | .finite s q _, .infinite t =>
    if q = 0 then .nan else .infinite (s != t)
  | .finite s p _, .finite t q _ => ofQuotient (s != t) (p * q) unitQuanta

/-- A number over zero is an infinity, zero over zero is not a number. -/
def div : Number → Number → Number
  | .nan, _ | _, .nan => .nan
  | .infinite _, .infinite _ => .nan
  | .infinite s, .finite t .. => .infinite (s != t)
  | .finite s .., .infinite t => .finite (s != t) 0 representable_zero
  | .finite s p _, .finite t q _ =>
    if q = 0 then if p = 0 then .nan else .infinite (s != t)
    else ofQuotient (s != t) (p * unitQuanta) q

/-- The remainder of the quotient cut towards zero; it has the sign of the dividend. -/
def mod : Number → Number → Number
  | .nan, _ | _, .nan | .infinite _, _ => .nan
  | x@(.finite ..), .infinite _ => x
  | .finite s p _, .finite _ q _ => if q = 0 then .nan else ofQuotient s (p % q) 1

/-- The sum of the list, added from the left onto zero. -/
def sum (xs : List Number) : Number := xs.foldl add zero

/-! ### Comparison -/

/-- The order of two numbers; not-a-number has none. -/
def compare? : Number → Number → Option Ordering
  | .nan, _ | _, .nan => none
  | .infinite s, .infinite t => some (if s = t then .eq else if s then .lt else .gt)
  | .infinite s, .finite .. => some (if s then .lt else .gt)
  | .finite .., .infinite t => some (if t then .gt else .lt)
  | .finite s p _, .finite t q _ => some (compare (signed s p) (signed t q))

/-- The order of a whole number, of any size, and a number. -/
def compareInt? (n : Int) : Number → Option Ordering
  | .nan => none
  | .infinite t => some (if t then .gt else .lt)
  | .finite t q _ => some (compare (n * unitQuanta) (signed t q))

def lt (x y : Number) : Bool := x.compare? y == some .lt

def le (x y : Number) : Bool := (x.compare? y).any Ordering.isLE

/-! ### Rounding to a whole number -/

/-- The whole number nearest to a finite number; a half goes to the even neighbour. -/
def round? : Number → Option Int
  | .finite s q _ => some (signed s (roundQuotient q unitQuanta))
  | _ => none

/-- The greatest whole number not above a finite number. -/
def floor? : Number → Option Int
  | .finite s q _ => some ((signed s q).fdiv unitQuanta)
  | _ => none

/-- The least whole number not below a finite number. -/
def ceil? (x : Number) : Option Int := x.neg.floor?.map (- ·)

/-- The value of a finite number without fractional part. -/
def toInt? : Number → Option Int
  | .finite s q _ => if q % unitQuanta = 0 then some (signed s (q / unitQuanta)) else none
  | _ => none

/-! ### Interchange format -/

/-- The 64 bits of the interchange format; not-a-number is the quiet one. -/
def toBits : Number → Nat
  | .nan => 0x7ff8000000000000
  | .infinite s => (if s then 0x8000000000000000 else 0) + 0x7ff0000000000000
  | .finite s q _ =>
    let exponent := q.log2 - 52
    (if s then 0x8000000000000000 else 0) +
      if q < 0x10000000000000 then q else exponent * 0x10000000000000 + q >>> exponent

end DiceNotation.Number
