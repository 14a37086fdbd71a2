import DiceNotation.Value
import DiceNotation.Proofs.Wholes

/-!
Numbers that are close to whole ones.

Both roundings lose at most half of a step: that to a whole number half of one, that to a number half of the last
place. The tolerance is far less than a half. So of all faces at most one is close to a number, and it is the whole
number that this one is rounded to.

Main statement: `Number.close_ofNat`.
-/

namespace DiceNotation

/-! ### What rounding loses -/

section Quotients

variable {num den : Nat}

theorem div_le_roundQuotient (num den : Nat) : num / den ≤ roundQuotient num den := by
  simp only [roundQuotient]
  split
  · exact Nat.le_refl _
  · split
    · exact Nat.le_succ _
    · exact Nat.le_add_right _ _

/-- A quotient that is whole is not rounded. -/
theorem roundQuotient_mul (n : Nat) (hden : 0 < den) : roundQuotient (n * den) den = n := by
  simp [roundQuotient, Nat.mul_div_cancel _ hden, hden]

/-- A quotient is rounded by a half at most. -/
theorem roundQuotient_near (num : Nat) (hden : 0 < den) :
    2 * num ≤ 2 * (roundQuotient num den * den) + den ∧ 2 * (roundQuotient num den * den) ≤ 2 * num + den := by
  have hdiv := Nat.div_add_mod' num den
  have hmod := Nat.mod_lt num hden
  simp only [roundQuotient]
  by_cases hbelow : 2 * (num % den) < den
  · rw [if_pos hbelow]
    omega
  rw [if_neg hbelow]
  by_cases habove : den < 2 * (num % den)
  · rw [if_pos habove, Nat.add_one_mul (num / den)]
    omega
  rw [if_neg habove]
  -- a half goes either way
  rcases Nat.mod_two_eq_zero_or_one (num / den) with heven | hodd
  · rw [heven, Nat.add_zero]
    omega
  · rw [hodd, Nat.add_one_mul (num / den)]
    omega

end Quotients

section Quanta

variable {n : Nat}

theorem lastPlace_pos (n : Nat) : 0 < lastPlace n := Nat.two_pow_pos _

theorem lastPlace_le (h : n ≠ 0) : lastPlace n ≤ n :=
  Nat.le_trans (Nat.pow_le_pow_right (by decide) (Nat.sub_le _ _)) (Nat.log2_self_le h)

/-- A magnitude is at most halved by rounding. -/
theorem le_two_mul_nearestQuanta (n : Nat) : n ≤ 2 * nearestQuanta n 1 := by
  rcases Nat.eq_zero_or_pos n with rfl | hn
  · exact Nat.zero_le _
  have hplace := lastPlace_pos n
  have hone : 1 ≤ n / lastPlace n := (Nat.one_le_div_iff hplace).2 (lastPlace_le (by omega))
  have hfloor : n / lastPlace n * lastPlace n ≤ nearestQuanta n 1 := by
    rw [nearestQuanta, Nat.div_one, Nat.one_mul]
    exact Nat.mul_le_mul_right _ (div_le_roundQuotient _ _)
  have hdigit : lastPlace n ≤ n / lastPlace n * lastPlace n := Nat.le_mul_of_pos_left _ hone
  have := Nat.div_add_mod' n (lastPlace n)
  have := Nat.mod_lt n hplace
  omega

/-- A whole number remains one when it is rounded. -/
theorem unitQuanta_dvd_nearestQuanta (k : Nat) : unitQuanta ∣ nearestQuanta (k * unitQuanta) 1 := by
  have hpowers : unitQuanta ∣ lastPlace (k * unitQuanta) ∨ lastPlace (k * unitQuanta) ∣ unitQuanta := by
    unfold unitQuanta
    generalize 1074 = e
    exact (Nat.le_total e _).imp (Nat.pow_dvd_pow 2) (Nat.pow_dvd_pow 2)
  have hpos := lastPlace_pos (k * unitQuanta)
  rw [nearestQuanta, Nat.div_one, Nat.one_mul]
  generalize lastPlace (k * unitQuanta) = place at hpowers hpos ⊢
  rcases hpowers with h | ⟨m, hm⟩
  · exact Nat.dvd_mul_left_of_dvd h _
  · -- the last place is below the point, so nothing is lost
    have hnum : k * unitQuanta = k * m * place := by rw [Nat.mul_assoc, Nat.mul_comm m, ← hm]
    rw [hnum, roundQuotient_mul _ hpos, ← hnum]
    exact Nat.dvd_mul_left _ _

end Quanta

namespace Number

variable {x : Number} {n : Int} {s t : Bool} {p q : Nat}

/-! ### Whole numbers of any size -/

/-- The number nearest to a whole number is whole, unless it is infinite. -/
theorem ofNat_eq (k : Nat) : ofNat k = infinite false ∨ ∃ m hm, ofNat k = finite false (m * unitQuanta) hm := by
  obtain ⟨m, hm⟩ := unitQuanta_dvd_nearestQuanta k
  rw [ofNat_eq_ofQuotient, ofQuotient]
  split
  next h =>
    rw [Nat.mul_comm unitQuanta] at hm
    have hfits := representable_nearestQuanta h
    rw [hm] at hfits
    exact .inr ⟨m, hfits, (finite.injEq ..).mpr ⟨rfl, hm⟩⟩
  next => exact .inl rfl

theorem toInt?_finite (m : Nat) (hm : Representable (m * unitQuanta)) :
    (finite s (m * unitQuanta) hm).toInt? = some (signed s m) := by
  rw [toInt?, if_pos (Nat.mul_mod_left _ _), Nat.mul_div_cancel _ unitQuanta_pos]

/-- A whole number from zero on is the number nearest to its value. -/
theorem ofNat_eq_ofInt {k : Nat} (h : (ofNat k).toInt? = some n) : ofNat k = ofInt n := by
  rcases ofNat_eq k with hk | ⟨m, hm, hk⟩
  · rw [hk] at h
    cases h
  · rw [hk, toInt?_finite] at h
    cases h
    rw [hk, ← ofNat_exact hm]
    rfl

/-! ### The tolerance -/

theorem exists_tolerance : ∃ q hq, tolerance = finite false q hq ∧ 4 * q < unitQuanta :=
  ⟨nearestQuanta (1 * unitQuanta) (Nat.pow 10 5), by decide +kernel, by decide +kernel, by decide +kernel⟩

/-- Finite numbers that are close differ by less than a half. -/
theorem near_of_close {hp : Representable p} {hq : Representable q}
    (h : (finite s p hp).close (finite t q hq) = true) : 2 * (signed s p - signed t q).natAbs < unitQuanta := by
  obtain ⟨r, hr, htolerance, hsmall⟩ := exists_tolerance
  have hneg : signed (!t) q = -signed t q := by cases t <;> simp [signed]
  rw [close, htolerance, sub, neg, add, hneg, ← Int.sub_eq_add_neg, ofQuanta, ofQuotient] at h
  split at h
  next =>
    have hlt : (nearestQuanta (signed s p - signed t q).natAbs 1 : Int) < r := by
      simpa [abs, lt, compare?, signed, compare_lt_iff_lt] using h
    have := le_two_mul_nearestQuanta (signed s p - signed t q).natAbs
    omega
  next => cases h

/-! ### Faces close to a number -/

theorem signed_near (t : Bool) (q : Nat) :
    2 * (signed t (roundQuotient q unitQuanta) * unitQuanta - signed t q).natAbs ≤ unitQuanta := by
  obtain ⟨hbelow, habove⟩ := roundQuotient_near q unitQuanta_pos
  cases t with
  | false =>
    simp only [signed, Bool.false_eq_true, if_false]
    rw [← Int.natCast_mul]
    omega
  | true =>
    simp only [signed, if_true]
    rw [Int.neg_mul, ← Int.natCast_mul]
    omega

/-- A number that is less than a half away from a whole one is rounded to it. -/
theorem eq_of_near {m : Int} (h : 2 * (m * unitQuanta - signed t q).natAbs < unitQuanta) :
    signed t (roundQuotient q unitQuanta) = m := by
  have hnear := signed_near t q
  generalize signed t (roundQuotient q unitQuanta) = r at hnear ⊢
  have hclose : ((r - m) * unitQuanta).natAbs < unitQuanta := by
    rw [Int.sub_mul]
    omega
  rw [Int.natAbs_mul, Int.natAbs_natCast] at hclose
  have : (r - m).natAbs < 1 := Nat.lt_of_mul_lt_mul_right (a := unitQuanta) (by omega)
  omega

/-- **At most one face is close to a number.** It is the one to which the number is rounded, if that is close. -/
theorem close_ofNat (hx : x.round? = some n) (k : Nat) :
    (ofNat k).close x = true ↔ (ofNat k).toInt? = some n ∧ (ofInt n).close x = true := by
  constructor
  · intro h
    have hvalue : (ofNat k).toInt? = some n := by
      cases x with
      | nan => cases hx
      | infinite t => cases hx
      | finite t q hq =>
        rcases ofNat_eq k with hk | ⟨m, hm, hk⟩
        · obtain ⟨r, hr, htolerance, -⟩ := exists_tolerance
          rw [hk, close, htolerance] at h
          cases h
        · rw [hk] at h
          rw [hk, toInt?_finite, ← hx, round?]
          have hnear := near_of_close h
          rw [signed, if_neg Bool.false_ne_true, Int.natCast_mul] at hnear
          exact congrArg some (eq_of_near hnear).symm
    exact ⟨hvalue, ofNat_eq_ofInt hvalue ▸ h⟩
  · rintro ⟨hvalue, h⟩
    rwa [ofNat_eq_ofInt hvalue]

theorem round?_of_toInt? (hx : x.toInt? = some n) : x.round? = some n := by
  obtain ⟨t, q, hq, rfl, hvalue⟩ := exists_of_toInt? hx
  refine congrArg some (eq_of_near ?_)
  rw [hvalue, Int.sub_self]
  exact unitQuanta_pos

theorem close_of_signed_eq {hp : Representable p} {hq : Representable q} (h : signed s p = signed t q) :
    (finite s p hp).close (finite t q hq) = true := by
  have hneg : signed (!t) q = -signed t q := by cases t <;> simp [signed]
  have hzero : ∀ z, ((ofQuanta z 0).abs.lt tolerance) = true := by
    intro z
    cases z <;> decide +kernel
  rw [close, sub, neg, add, hneg, h, Int.add_right_neg]
  exact hzero _

theorem signed_mul (s : Bool) (m k : Nat) : signed s (m * k) = signed s m * k := by
  cases s <;> simp [signed]

/-- A number is close to the whole number that it is. -/
theorem close_of_toInt? (hx : x.toInt? = some n) : (ofInt n).close x = true := by
  obtain ⟨t, q, hq, rfl, hvalue⟩ := exists_of_toInt? hx
  have hquanta : n.natAbs * unitQuanta = q := by
    have := congrArg Int.natAbs hvalue
    rw [Int.natAbs_mul, Int.natAbs_natCast] at this
    rw [← this]
    cases t <;> simp [signed]
  rw [ofInt_exact (hquanta ▸ hq)]
  exact close_of_signed_eq (by rw [signed_mul, signed_natAbs, hvalue])

end Number

end DiceNotation
