/-!
Binary64 numbers, kept as whole numbers of quanta.

A quantum is the least positive number, 2 ^ -1074. A finite number is a sign and a magnitude in quanta of which
only the leading 53 binary digits may differ from zero. Every operation hands its exact result to
`Number.ofQuotient`, which rounds once, so two operations differ only in the exact value that they name.

Main statement: `representable_nearestQuanta`, a rounded magnitude below the overflow threshold is representable.
-/

namespace DiceNotation

/-! ### Magnitudes -/

/-- The number of quanta in one. -/
def unitQuanta : Nat := Nat.pow 2 1074

/-- The first magnitude, in quanta, that is too large for a finite number. -/
def overflowQuanta : Nat := Nat.pow 2 2098

/-- The place value of the last of the 53 binary digits kept from `n`. -/
def lastPlace (n : Nat) : Nat := Nat.pow 2 (n.log2 - 52)

/-- `n` quanta are a finite magnitude: 53 significant binary digits at most, and no overflow. -/
def Representable (n : Nat) : Prop := lastPlace n ∣ n ∧ n < overflowQuanta

instance (n : Nat) : Decidable (Representable n) := inferInstanceAs (Decidable (_ ∧ _))

theorem representable_zero : Representable 0 :=
  ⟨Nat.dvd_zero _, by decide +kernel⟩

/-- The whole number nearest to `num / den`; a half goes to the even neighbour. -/
def roundQuotient (num den : Nat) : Nat :=
  let floor := num / den
  let twice := 2 * (num % den)
  if twice < den then floor else if den < twice then floor + 1 else floor + floor % 2

/-- `num / den` quanta rounded to 53 significant binary digits. -/
def nearestQuanta (num den : Nat) : Nat :=
  let place := lastPlace (num / den)
  roundQuotient num (den * place) * place

theorem roundQuotient_le (num den : Nat) : roundQuotient num den ≤ num / den + 1 := by
  simp only [roundQuotient]
  split
  · omega
  · split <;> omega

theorem lastPlace_dvd_of_le {m e : Nat} (h : m ≤ Nat.pow 2 53) :
    lastPlace (m * Nat.pow 2 e) ∣ m * Nat.pow 2 e := by
  simp only [Nat.pow_eq] at h ⊢
  rcases Nat.lt_or_eq_of_le h with h | rfl
  · refine Nat.dvd_trans (Nat.pow_dvd_pow 2 ?_) (Nat.dvd_mul_left (2 ^ e) m)
    rcases Nat.eq_zero_or_pos m with rfl | hm
    · simp
    · have : m * 2 ^ e < 2 ^ (53 + e) := by
        rw [Nat.pow_add]; exact (Nat.mul_lt_mul_right (Nat.two_pow_pos e)).2 h
      have hne : m * 2 ^ e ≠ 0 := Nat.ne_of_gt (Nat.mul_pos hm (Nat.two_pow_pos e))
      have := (Nat.log2_lt hne).2 this
      omega
  · unfold lastPlace
    rw [Nat.pow_eq, ← Nat.pow_add, Nat.log2_two_pow]
    exact Nat.pow_dvd_pow 2 (by omega)

theorem quotient_lastPlace_lt (n : Nat) : n / lastPlace n < Nat.pow 2 53 := by
  have hlt : n < 2 ^ (n.log2 + 1) := Nat.lt_log2_self
  simp only [lastPlace, Nat.pow_eq]
  refine (Nat.div_lt_iff_lt_mul (Nat.two_pow_pos _)).2 (Nat.lt_of_lt_of_le hlt ?_)
  rw [← Nat.pow_add]
  exact Nat.pow_le_pow_right (by decide) (by omega)

theorem representable_nearestQuanta {num den : Nat} (h : nearestQuanta num den < overflowQuanta) :
    Representable (nearestQuanta num den) := by
  refine ⟨lastPlace_dvd_of_le ?_, h⟩
  have := roundQuotient_le num (den * lastPlace (num / den))
  rw [← Nat.div_div_eq_div_mul] at this
  have := quotient_lastPlace_lt (num / den)
  omega

/-! ### Numbers -/

/-- A binary64 number. The two zeros differ in their sign; there is one not-a-number. -/
inductive Number where
  | nan
  | infinite (negative : Bool)
  | finite (negative : Bool) (quanta : Nat) (fits : Representable quanta)
  deriving DecidableEq

namespace Number

/-- The number nearest to `num / den` quanta, an infinity when that overflows. -/
def ofQuotient (negative : Bool) (num den : Nat) : Number :=
  if h : nearestQuanta num den < overflowQuanta then
    .finite negative (nearestQuanta num den) (representable_nearestQuanta h)
  else .infinite negative

/-- The number nearest to a whole number of quanta; zero gets the sign `zeroSign`. -/
def ofQuanta (zeroSign : Bool) (n : Int) : Number :=
  ofQuotient (if n = 0 then zeroSign else n < 0) n.natAbs 1

/-- The number nearest to a whole number. -/
def ofInt (n : Int) : Number := ofQuanta false (n * unitQuanta)

def ofNat (n : Nat) : Number := ofInt n

def zero : Number := .finite false 0 representable_zero

instance : Inhabited Number := ⟨zero⟩

def isFinite : Number → Bool
  | .finite .. => true
  | _ => false

def isNaN : Number → Bool
  | .nan => true
  | _ => false

/-- The number nearest to a whole number, unless that overflows. -/
def ofInt? (n : Int) : Option Number :=
  let x := ofInt n
  if x.isFinite then some x else none

/-- A magnitude in quanta under a sign. -/
def signed (negative : Bool) (quanta : Nat) : Int := if negative then -quanta else quanta

end Number

end DiceNotation
