import Mathlib.Algebra.BigOperators.Group.List.Basic
import Mathlib.Algebra.Order.Ring.Int
import DiceNotation.Proofs.Chains

/-!
Whole numbers among the numbers.

The magnitude of a whole number is a multiple of the quanta in one. So whole numbers compare as their values do, and
up to `2 ^ 53` they are added without rounding: a sum that stays within that bound is the sum of the values, in
whatever order it is formed.

Main statements: `lt_of_wholes`, `sum_of_wholes`.
-/

namespace DiceNotation

theorem unitQuanta_pos : 0 < unitQuanta := by
  unfold unitQuanta
  generalize 1074 = e
  exact Nat.two_pow_pos e

namespace Number

variable {x y : Number} {m n : Int}

/-! ### One number -/

theorem exists_round? (h : x.isFinite = true) : ∃ n, x.round? = some n := by
  cases x with
  | finite s q hq => exact ⟨_, rfl⟩
  | _ => cases h

theorem exists_of_toInt? (h : x.toInt? = some n) :
    ∃ s q hq, x = finite s q hq ∧ signed s q = n * unitQuanta := by
  cases x with
  | nan => cases h
  | infinite s => cases h
  | finite s q hq =>
    rw [toInt?] at h
    by_cases hdvd : q % unitQuanta = 0
    · rw [if_pos hdvd] at h
      cases h
      have hq' : (q : Int) = (q / unitQuanta : Nat) * unitQuanta := by
        exact_mod_cast (Nat.div_mul_cancel (Nat.dvd_of_mod_eq_zero hdvd)).symm
      refine ⟨s, q, hq, rfl, ?_⟩
      cases s with
      | false => exact hq'
      | true =>
        show -(q : Int) = -((q / unitQuanta : Nat) : Int) * unitQuanta
        rw [Int.neg_mul, ← hq']
    · rw [if_neg hdvd] at h
      cases h

theorem signed_natAbs (n : Int) : signed (decide (n < 0)) n.natAbs = n := by
  unfold signed
  by_cases hn : n < 0
  · rw [decide_eq_true hn, if_pos rfl]
    omega
  · rw [decide_eq_false hn, if_neg Bool.false_ne_true]
    omega

/-- A whole number whose magnitude is representable is not rounded. -/
theorem ofInt_exact (h : Representable (n.natAbs * unitQuanta)) :
    ofInt n = finite (decide (n < 0)) (n.natAbs * unitQuanta) h := by
  have hpos := unitQuanta_pos
  have hsign : (if n * unitQuanta = 0 then false else decide (n * unitQuanta < 0)) = decide (n < 0) := by
    by_cases hn : n < 0
    · have : n * unitQuanta < 0 := Int.mul_neg_of_neg_of_pos hn (by omega)
      rw [if_neg (by omega), decide_eq_true hn, decide_eq_true this]
    · have : 0 ≤ n * unitQuanta := Int.mul_nonneg (by omega) (by omega)
      rw [decide_eq_false hn, decide_eq_false (by omega), ite_self]
  rw [ofInt, ofQuanta, hsign, Int.natAbs_mul, Int.natAbs_natCast]
  have := ofQuotient_mul (decide (n < 0)) Nat.one_pos h
  rwa [Nat.mul_one] at this

theorem ofInt_eq_finite (h : n.natAbs ≤ exactBound) :
    ofInt n = finite (decide (n < 0)) (n.natAbs * unitQuanta) (representable_of_le h) :=
  ofInt_exact (representable_of_le h)

/-- A whole number within the bound is a number itself. -/
theorem toInt?_ofInt (h : n.natAbs ≤ exactBound) : (ofInt n).toInt? = some n := by
  rw [ofInt_eq_finite h, toInt?, if_pos (Nat.mul_mod_left _ _), Nat.mul_div_cancel _ unitQuanta_pos, signed_natAbs]

theorem toInt?_ofNat {n : Nat} (h : n ≤ exactBound) : (ofNat n).toInt? = some (n : Int) := by
  rw [ofNat]
  exact toInt?_ofInt (by rwa [Int.natAbs_natCast])

/-! ### Two numbers -/

theorem compare_mul_unitQuanta (m n : Int) : compare (m * unitQuanta) (n * unitQuanta) = compare m n := by
  have hpos : (0 : Int) < unitQuanta := by
    have := unitQuanta_pos
    omega
  simp only [compare, compareOfLessAndEq, Int.mul_lt_mul_right hpos, Int.mul_eq_mul_right_iff (Int.ne_of_gt hpos)]

/-- Whole numbers stand in the order of their values. -/
theorem lt_of_wholes (hx : x.toInt? = some m) (hy : y.toInt? = some n) : x.lt y = decide (m < n) := by
  obtain ⟨s, p, hp, rfl, hsp⟩ := exists_of_toInt? hx
  obtain ⟨t, q, hq, rfl, htq⟩ := exists_of_toInt? hy
  rw [lt, compare?, hsp, htq, compare_mul_unitQuanta]
  rcases Int.lt_trichotomy m n with h | h | h
  · simp [compare, compareOfLessAndEq, h]
  · simp [h]
  · simp [compare, compareOfLessAndEq, Int.lt_asymm h, Int.ne_of_gt h]

/-- A whole number within the bound compares as the number itself. -/
theorem compare?_ofNat {n : Nat} (h : n ≤ exactBound) (y : Number) : (ofNat n).compare? y = compareInt? n y := by
  rw [ofNat_eq_finite h]
  cases y with
  | nan => rfl
  | infinite t => rfl
  | finite t q hq =>
    rw [compare?, compareInt?, signed, if_neg Bool.false_ne_true, Int.natCast_mul]

/-- Whole numbers are added as their values are, and a sum of zero has no sign. -/
theorem ofInt_add (hm : m.natAbs ≤ exactBound) (hy : y.toInt? = some n) : (ofInt m).add y = ofInt (m + n) := by
  obtain ⟨s, p, hp, hx, hsp⟩ := exists_of_toInt? (toInt?_ofInt hm)
  obtain ⟨t, q, hq, rfl, htq⟩ := exists_of_toInt? hy
  have hpos := unitQuanta_pos
  rw [hx, add, hsp, htq, ← Int.add_mul, ofInt, ofQuanta, ofQuanta]
  by_cases hzero : (m + n) * unitQuanta = 0
  · -- of two negative terms the first is below zero, and so is the sum
    have hsum : m + n = 0 := (Int.mul_eq_zero.1 hzero).resolve_right (by omega)
    have hsign : (s && t) = false := by
      rw [ofInt_eq_finite hm] at hx
      cases hx
      cases t with
      | false => exact Bool.and_false _
      | true =>
        rw [Bool.and_true, decide_eq_false]
        intro hneg
        have hn : 0 < n * unitQuanta := Int.mul_pos (by omega) (by omega)
        simp only [signed, if_true] at htq
        omega
    rw [if_pos hzero, if_pos hzero, hsign]
  · rw [if_neg hzero, if_neg hzero]

/-! ### Lists of numbers -/

/-- Numbers that are whole, with their values. -/
def Wholes (xs : List Number) (ns : List Int) : Prop := xs.map toInt? = ns.map some

instance (xs : List Number) (ns : List Int) : Decidable (Wholes xs ns) := inferInstanceAs (Decidable (_ = _))

variable {xs ys : List Number} {ns : List Int}

theorem wholes_map_ofNat {ms : List Nat} (h : ∀ m ∈ ms, m ≤ exactBound) :
    Wholes (ms.map ofNat) (ms.map Int.ofNat) := by
  unfold Wholes
  rw [List.map_map, List.map_map]
  refine List.map_congr_left fun m hm => ?_
  rw [Function.comp_apply, Function.comp_apply, toInt?_ofNat (h m hm), Int.ofNat_eq_natCast]

theorem foldl_add_of_wholes (hxs : Wholes xs ns) (h : m.natAbs + (ns.map Int.natAbs).sum ≤ exactBound) :
    xs.foldl add (ofInt m) = ofInt (m + ns.sum) := by
  induction xs generalizing m ns with
  | nil =>
    obtain rfl := List.map_eq_nil_iff.1 hxs.symm
    simp
  | cons x xs ih =>
    cases ns with
    | nil => cases hxs
    | cons n ns =>
      obtain ⟨hx, hxs⟩ := List.cons.inj hxs
      rw [List.map_cons, List.sum_cons] at h
      have := Int.natAbs_add_le m n
      rw [List.foldl_cons, ofInt_add (by omega) hx, ih hxs (by omega), List.sum_cons, Int.add_assoc]

/-- Whole numbers whose magnitudes stay within the bound add up to the sum of their values. -/
theorem sum_of_wholes (hxs : Wholes xs ns) (h : (ns.map Int.natAbs).sum ≤ exactBound) : sum xs = ofInt ns.sum := by
  have hzero : zero = ofInt 0 := by decide +kernel
  rw [sum, hzero, foldl_add_of_wholes hxs (by simpa using h), Int.zero_add]

theorem Wholes.perm (hxs : Wholes xs ns) (h : ys.Perm xs) : ∃ ms, ms.Perm ns ∧ Wholes ys ms := by
  have hvalues : Wholes ys (ys.map fun y => y.toInt?.getD 0) := by
    unfold Wholes
    rw [List.map_map]
    refine List.map_congr_left fun y hy => ?_
    have hmem := List.mem_map_of_mem (f := toInt?) (h.subset hy)
    rw [hxs] at hmem
    obtain ⟨n, -, hn⟩ := List.mem_map.1 hmem
    simp [← hn]
  refine ⟨_, ?_, hvalues⟩
  have hperm := h.map toInt?
  rw [hvalues, hxs] at hperm
  exact List.map_perm_map_iff (Option.some_injective Int) |>.1 hperm

end Number

end DiceNotation
