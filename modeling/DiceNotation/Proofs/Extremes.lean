import Mathlib.Algebra.Order.Ring.Int
import DiceNotation.Builtin

/-!
The least and the greatest of many arguments.

Every number lies at an offset from zero, in quanta; the infinities lie where the finite numbers end, and the two
zeros at one offset. Two numbers, neither of them not-a-number, compare as their offsets do. So of the numbers that
were passed none beats the one that is held, however often that has changed on the way; and what is held at the end in
two orders of the same numbers lies at one offset: it is the same number or a zero of the other sign.

Main statement: `Extremum.apply_picks`.
-/

namespace DiceNotation

/-! ### Offsets -/

namespace Number

variable {x y : Number} {s t : Bool} {p q : Nat}

/-- How far a number lies from zero, in quanta. -/
def offset : Number → Int
  | nan => 0
  | infinite s => signed s overflowQuanta
  | finite s q _ => signed s q

theorem signed_between (s : Bool) (h : Representable q) :
    -(overflowQuanta : Int) < signed s q ∧ signed s q < overflowQuanta := by
  have hlt := h.2
  cases s with
  | false =>
    rw [signed, if_neg Bool.false_ne_true]
    omega
  | true =>
    rw [signed, if_pos rfl]
    omega

/-- Numbers compare as their offsets do. -/
theorem compare?_eq_compare_offset (hx : x ≠ nan) (hy : y ≠ nan) :
    x.compare? y = some (compare x.offset y.offset) := by
  have hpos : 0 < overflowQuanta := representable_zero.2
  cases x with
  | nan => exact absurd rfl hx
  | infinite s =>
    cases y with
    | nan => exact absurd rfl hy
    | infinite t =>
      have hlt : -(overflowQuanta : Int) < overflowQuanta := by omega
      cases s <;> cases t
      · exact congrArg some (compare_eq_iff_eq.2 rfl).symm
      · exact congrArg some (compare_gt_iff_gt.2 hlt).symm
      · exact congrArg some (compare_lt_iff_lt.2 hlt).symm
      · exact congrArg some (compare_eq_iff_eq.2 rfl).symm
    | finite t q hq =>
      obtain ⟨hbelow, habove⟩ := signed_between t hq
      cases s with
      | false => exact congrArg some (compare_gt_iff_gt.2 habove).symm
      | true => exact congrArg some (compare_lt_iff_lt.2 hbelow).symm
  | finite s p hp =>
    cases y with
    | nan => exact absurd rfl hy
    | infinite t =>
      obtain ⟨hbelow, habove⟩ := signed_between s hp
      cases t with
      | false => exact congrArg some (compare_lt_iff_lt.2 habove).symm
      | true => exact congrArg some (compare_gt_iff_gt.2 hbelow).symm
    | finite t q hq => rfl

theorem lt_iff_offset_lt (hx : x ≠ nan) (hy : y ≠ nan) : x.lt y = true ↔ x.offset < y.offset := by
  rw [lt, compare?_eq_compare_offset hx hy, beq_iff_eq, Option.some.injEq, compare_lt_iff_lt]

theorem isNaN_eq_false (h : x ≠ nan) : x.isNaN = false := by
  cases x with
  | nan => exact absurd rfl h
  | _ => rfl

/-- Not-a-number is less than nothing, and nothing is less than it. -/
theorem lt_eq_false_of_nan (h : x = nan ∨ y = nan) : x.lt y = false := by
  rcases h with rfl | rfl
  · rfl
  · cases x <;> rfl

theorem eq_of_signed_eq (h : signed s p = signed t q) : p = q ∧ (s = t ∨ p = 0) := by
  cases s <;> cases t <;> simp only [signed, Bool.false_eq_true, if_true, if_false] at h
  · exact ⟨by omega, .inl rfl⟩
  · exact ⟨by omega, .inr (by omega)⟩
  · exact ⟨by omega, .inr (by omega)⟩
  · exact ⟨by omega, .inl rfl⟩

/-- One number, or two zeros of any signs. -/
def EqualOrZeros (x y : Number) : Prop := x = y ∨ x.abs = zero ∧ y.abs = zero

/-- Of different numbers only the two zeros lie at one offset. -/
theorem equalOrZeros_of_offset_eq (hx : x ≠ nan) (hy : y ≠ nan) (h : x.offset = y.offset) : EqualOrZeros x y := by
  have hpos : 0 < overflowQuanta := representable_zero.2
  cases x with
  | nan => exact absurd rfl hx
  | infinite s =>
    cases y with
    | nan => exact absurd rfl hy
    | infinite t =>
      obtain ⟨-, rfl | hzero⟩ := eq_of_signed_eq h
      · exact .inl rfl
      · exact absurd hzero (Nat.ne_of_gt hpos)
    | finite t q hq =>
      obtain ⟨hend, -⟩ := eq_of_signed_eq h
      exact absurd hend (Nat.ne_of_gt hq.2)
  | finite s p hp =>
    cases y with
    | nan => exact absurd rfl hy
    | infinite t =>
      obtain ⟨hend, -⟩ := eq_of_signed_eq h
      exact absurd hend (Nat.ne_of_lt hp.2)
    | finite t q hq =>
      obtain ⟨rfl, rfl | rfl⟩ := eq_of_signed_eq h
      · exact .inl rfl
      · exact .inr ⟨rfl, rfl⟩

end Number

/-! ### The two functions -/

/-- Which end of the order a function picks from. -/
inductive Extremum where
  | least | greatest

namespace Extremum

variable {e : Extremum} {x y z z' : Number} {xs ys : List Number}

def name : Extremum → String
  | least => "min"
  | greatest => "max"

def pick : Extremum → Number → Number → Number
  | least => Builtin.lesser
  | greatest => Builtin.greater

def builtin (e : Extremum) : Builtin := .variadic e.name e.pick

/-- `x` lies further to the end than `y`. -/
def beats : Extremum → Number → Number → Bool
  | least, x, y => x.lt y
  | greatest, x, y => y.lt x

/-- The offset, counted towards the other end. -/
def rank : Extremum → Number → Int
  | least, x => x.offset
  | greatest, x => -x.offset

theorem find_name (e : Extremum) : Builtins.standard.find e.name = .ok e.builtin := by
  cases e <;> rfl

/-- The later number is picked only if it beats the earlier one. -/
theorem pick_eq (e : Extremum) (x y : Number) : e.pick x y = if e.beats y x then y else x := by
  cases e <;> rfl

theorem beats_iff_rank_lt (hx : x ≠ .nan) (hy : y ≠ .nan) : e.beats x y = true ↔ e.rank x < e.rank y := by
  cases e with
  | least => exact Number.lt_iff_offset_lt hx hy
  | greatest =>
    rw [beats, Number.lt_iff_offset_lt hy hx, rank, rank]
    omega

theorem beats_eq_false_iff (hx : x ≠ .nan) (hy : y ≠ .nan) : e.beats x y = false ↔ e.rank y ≤ e.rank x := by
  rw [← Bool.not_eq_true, beats_iff_rank_lt hx hy, Int.not_lt]

theorem beats_eq_false_of_nan (h : x = .nan ∨ y = .nan) : e.beats x y = false := by
  cases e with
  | least => exact Number.lt_eq_false_of_nan h
  | greatest => exact Number.lt_eq_false_of_nan h.symm

theorem equalOrZeros_of_rank_eq (hx : x ≠ .nan) (hy : y ≠ .nan) (h : e.rank x = e.rank y) :
    Number.EqualOrZeros x y := by
  refine Number.equalOrZeros_of_offset_eq hx hy ?_
  cases e with
  | least => exact h
  | greatest => exact Int.neg_inj.1 h

theorem pick_eq_or (e : Extremum) (x y : Number) : e.pick x y = x ∨ e.pick x y = y := by
  rw [pick_eq]
  split
  · exact .inr rfl
  · exact .inl rfl

theorem rank_pick (hx : x ≠ .nan) (hy : y ≠ .nan) : e.rank (e.pick x y) = min (e.rank x) (e.rank y) := by
  rw [pick_eq]
  split
  next h =>
    have := (beats_iff_rank_lt hy hx).1 h
    omega
  next h =>
    have := (beats_eq_false_iff hy hx).1 (Bool.eq_false_iff.2 h)
    omega

/-! ### What is held -/

/-- The number that is held when another one comes. -/
def next (e : Extremum) (z x : Number) : Number := if z.isNaN || x.isNaN then .nan else e.pick z x

theorem next_of_nan (h : z = .nan ∨ x = .nan) : e.next z x = .nan := by
  rcases h with rfl | rfl
  · rfl
  · rw [next, show Number.nan.isNaN = true from rfl, Bool.or_true, if_pos rfl]

theorem next_of_ne (hz : z ≠ .nan) (hx : x ≠ .nan) : e.next z x = e.pick z x := by
  rw [next, Number.isNaN_eq_false hz, Number.isNaN_eq_false hx, Bool.or_false, if_neg Bool.false_ne_true]

/-- What may be held after some numbers: one of them that none of them beats, and not-a-number if that is among them. -/
structure Holds (e : Extremum) (xs : List Number) (z : Number) : Prop where
  mem : z ∈ xs
  unbeaten : ∀ x ∈ xs, e.beats x z = false
  nan_of_mem : .nan ∈ xs → z = .nan

theorem Holds.nan_iff (h : e.Holds xs z) : z = .nan ↔ .nan ∈ xs :=
  ⟨fun hz => hz ▸ h.mem, h.nan_of_mem⟩

theorem Holds.ne_nan (h : e.Holds xs z) (hz : z ≠ .nan) (hx : x ∈ xs) : x ≠ .nan :=
  fun hnan => hz (h.nan_of_mem (hnan ▸ hx))

theorem Holds.rank_le (h : e.Holds xs z) (hz : z ≠ .nan) (hx : x ∈ xs) : e.rank z ≤ e.rank x :=
  (beats_eq_false_iff (h.ne_nan hz hx) hz).1 (h.unbeaten x hx)

theorem holds_of_rank_le (hmem : z ∈ xs) (hne : ∀ x ∈ xs, x ≠ .nan) (hrank : ∀ x ∈ xs, e.rank z ≤ e.rank x) :
    e.Holds xs z where
  mem := hmem
  unbeaten x hx := (beats_eq_false_iff (hne x hx) (hne z hmem)).2 (hrank x hx)
  nan_of_mem hnan := absurd rfl (hne _ hnan)

theorem holds_of_nan (h : .nan ∈ xs) : e.Holds xs .nan where
  mem := h
  unbeaten _ _ := beats_eq_false_of_nan (.inr rfl)
  nan_of_mem _ := rfl

theorem holds_single (e : Extremum) (x : Number) : e.Holds [x] x := by
  by_cases hx : x = .nan
  · subst hx
    exact holds_of_nan List.mem_cons_self
  · exact holds_of_rank_le List.mem_cons_self (by simpa using hx) (by simp)

/-- One more number. -/
theorem Holds.next (h : e.Holds xs z) (x : Number) : e.Holds (xs ++ [x]) (e.next z x) := by
  by_cases hnan : z = .nan ∨ x = .nan
  · rw [next_of_nan hnan]
    refine holds_of_nan (List.mem_append.2 (hnan.imp h.nan_iff.1 fun hx => ?_))
    exact List.mem_singleton.2 hx.symm
  · -- the pick has the lesser of the two ranks, and the rank of `z` is the least so far
    obtain ⟨hz, hx⟩ := not_or.1 hnan
    rw [next_of_ne hz hx]
    have hmin := rank_pick (e := e) hz hx
    refine holds_of_rank_le ?_ ?_ ?_
    · rcases pick_eq_or e z x with hpick | hpick <;> rw [hpick]
      · exact List.mem_append_left _ h.mem
      · exact List.mem_append_right _ List.mem_cons_self
    · exact List.forall_mem_append.2 ⟨fun y hy => h.ne_nan hz hy, by simpa using hx⟩
    · refine List.forall_mem_append.2 ⟨fun y hy => ?_, fun y hy => ?_⟩
      · have := h.rank_le hz hy
        omega
      · obtain rfl := List.mem_singleton.1 hy
        omega

/-- Any number of more numbers. -/
theorem Holds.foldl (h : e.Holds xs z) (ys : List Number) : e.Holds (xs ++ ys) (ys.foldl e.next z) := by
  induction ys generalizing xs z with
  | nil => rwa [List.append_nil]
  | cons y ys ih =>
    rw [List.foldl_cons, ← List.singleton_append, ← List.append_assoc]
    exact ih (h.next y)

/-- What is held does not depend on the order in which the numbers came, but for the sign of a zero. -/
theorem Holds.equalOrZeros (h : e.Holds xs z) (h' : e.Holds ys z') (hperm : ys.Perm xs) :
    Number.EqualOrZeros z' z := by
  by_cases hz : z = .nan
  · rw [hz, h'.nan_of_mem (hperm.mem_iff.2 (h.nan_iff.1 hz))]
    exact .inl rfl
  · have hz' : z' ≠ .nan := h.ne_nan hz (hperm.subset h'.mem)
    have hle := h.rank_le hz (hperm.subset h'.mem)
    have hle' := h'.rank_le hz' (hperm.symm.subset h.mem)
    exact equalOrZeros_of_rank_eq hz' hz (Int.le_antisymm hle' hle)

/-! ### Arguments -/

variable {v : Option Value} {before : List Number} {after : List (Option Value)}

/-- Numbers as arguments. -/
def numbers (xs : List Number) : List (Option Value) := xs.map fun x => some (.number x)

theorem requireNumber_of_ne (what : String) (h : ∀ x, v ≠ some (.number x)) :
    requireNumber what v = .error (.notNumber what v) := by
  match v with
  | some (.number x) => exact absurd rfl (h x)
  | some (.bool _) | some (.string _) | none => rfl

theorem pickStep_number (e : Extremum) (z x : Number) :
    Builtin.pickStep e.name e.pick z (some (.number x)) = .ok (e.next z x) := rfl

theorem pickStep_stranger (h : ∀ x, v ≠ some (.number x)) (z : Number) :
    Builtin.pickStep e.name e.pick z v = .error (.notNumber e.name v) := by
  rw [Builtin.pickStep, requireNumber_of_ne e.name h]
  rfl

theorem foldlM_numbers (e : Extremum) (z : Number) (xs : List Number) :
    (numbers xs).foldlM (Builtin.pickStep e.name e.pick) z = .ok (xs.foldl e.next z) := by
  induction xs generalizing z with
  | nil => rfl
  | cons x xs ih =>
    rw [numbers, List.map_cons, List.foldlM_cons, pickStep_number]
    exact ih (e.next z x)

/-- The numbers in front are passed, and the first value that is no number ends the run. -/
theorem foldlM_stranger (h : ∀ x, v ≠ some (.number x)) (z : Number) :
    (numbers before ++ v :: after).foldlM (Builtin.pickStep e.name e.pick) z = .error (.notNumber e.name v) := by
  rw [List.foldlM_append, foldlM_numbers]
  change (v :: after).foldlM (Builtin.pickStep e.name e.pick) (before.foldl e.next z) = _
  rw [List.foldlM_cons, pickStep_stranger h]
  rfl

theorem apply_cons_number (e : Extremum) (x : Number) (vs : List (Option Value)) :
    e.builtin.apply (some (.number x) :: vs) =
      (vs.foldlM (Builtin.pickStep e.name e.pick) x >>= fun best => .ok (Value.number best)).mapError (.fault · none) :=
  rfl

theorem apply_numbers (e : Extremum) (x : Number) (xs : List Number) :
    e.builtin.apply (numbers (x :: xs)) = .ok (.number (xs.foldl e.next x)) := by
  rw [numbers, List.map_cons, apply_cons_number, ← numbers, foldlM_numbers]
  rfl

theorem apply_stranger (h : ∀ x, v ≠ some (.number x)) :
    e.builtin.apply (numbers before ++ v :: after) = .error (.fault (.notNumber e.name v) none) := by
  cases before with
  | nil =>
    change (requireNumber e.name v >>= _).mapError _ = _
    rw [requireNumber_of_ne e.name h]
    rfl
  | cons x before =>
    rw [numbers, List.map_cons, List.cons_append, apply_cons_number, ← numbers, foldlM_stranger h]
    rfl

theorem exists_holds (e : Extremum) (hne : xs ≠ []) :
    ∃ z, e.builtin.apply (numbers xs) = .ok (.number z) ∧ e.Holds xs z := by
  obtain ⟨x, xs, rfl⟩ := List.exists_cons_of_ne_nil hne
  exact ⟨_, apply_numbers e x xs, (holds_single e x).foldl xs⟩

/-- **`min` and `max` of any arguments.** The first of them that is no number is told by its kind, whatever numbers
stand before it. Of numbers, not-a-number is the result exactly if it is among them; otherwise the result is one of
them that none beats. In another order they give the same result, but for the sign of a zero. -/
theorem apply_picks (e : Extremum) (args : List (Option Value)) (hargs : args ≠ []) :
    Builtins.standard.find e.name = .ok e.builtin ∧
      (∀ before v after, args = numbers before ++ v :: after → (∀ x, v ≠ some (.number x)) →
        ∃ cause, e.builtin.apply args = .error (.fault cause none) ∧ cause.family = .type ∧
          cause.message = s!"{e.name}: Operand must be a number, got {Value.kindName v}") ∧
      ∀ xs, args = numbers xs →
        ∃ z, e.builtin.apply args = .ok (.number z) ∧ (z = .nan ↔ .nan ∈ xs) ∧
          (z ∈ xs ∧ ∀ x ∈ xs, e.beats x z = false) ∧
          ∀ ys, ys.Perm xs → ∃ z', e.builtin.apply (numbers ys) = .ok (.number z') ∧ z'.EqualOrZeros z := by
  refine ⟨find_name e, ?_, ?_⟩
  · rintro before v after rfl hv
    exact ⟨.notNumber e.name v, apply_stranger hv, rfl, rfl⟩
  · rintro xs rfl
    have hxs : xs ≠ [] := fun h => hargs (by rw [h]; rfl)
    obtain ⟨z, hz, hholds⟩ := exists_holds e hxs
    refine ⟨z, hz, hholds.nan_iff, ⟨hholds.mem, hholds.unbeaten⟩, fun ys hys => ?_⟩
    have hys' : ys ≠ [] := fun h => hxs (List.perm_nil.1 (h ▸ hys.symm))
    obtain ⟨z', hz', hholds'⟩ := exists_holds e hys'
    exact ⟨z', hz', hholds.equalOrZeros hholds' hys⟩

/-- A word behind not-a-number is told. The least of two zeros is the first of them, so another order changes its
sign. -/
theorem apply_picks_zeros :
    let refused : List (Option Value) := [some (.number .nan), some (.string "wild"), some (.bool true)]
    let zeros := [Number.zero, .infinite false, Number.zero.neg]
    refused ≠ [] ∧
      (∃ cause, least.builtin.apply refused = .error (.fault cause none) ∧ cause.family = .type ∧
        cause.message = "min: Operand must be a number, got RollString") ∧
      numbers zeros ≠ [] ∧
      ∃ z z', least.builtin.apply (numbers zeros) = .ok (.number z) ∧ z = .zero ∧
        least.builtin.apply (numbers zeros.reverse) = .ok (.number z') ∧ z' = Number.zero.neg ∧ z'.EqualOrZeros z := by
  intro refused zeros
  have hrefused : refused ≠ [] := List.cons_ne_nil _ _
  have hzeros : numbers zeros ≠ [] := List.cons_ne_nil _ _
  obtain ⟨-, htells, -⟩ := apply_picks least refused hrefused
  obtain ⟨-, -, hpicks⟩ := apply_picks least (numbers zeros) hzeros
  obtain ⟨z, hz, -, -, hreordered⟩ := hpicks zeros rfl
  obtain ⟨z', hz', hsame⟩ := hreordered zeros.reverse (List.reverse_perm zeros)
  have hfirst : least.builtin.apply (numbers zeros) = .ok (.number .zero) := rfl
  have hlast : least.builtin.apply (numbers zeros.reverse) = .ok (.number Number.zero.neg) := rfl
  refine ⟨hrefused, htells [.nan] _ [some (.bool true)] rfl (by simp), hzeros, z, z', hz, ?_, hz', ?_, hsame⟩
  · exact (Value.number.inj (Except.ok.inj (hfirst.symm.trans hz))).symm
  · exact (Value.number.inj (Except.ok.inj (hlast.symm.trans hz'))).symm

end Extremum

end DiceNotation
