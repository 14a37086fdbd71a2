import Mathlib.Data.List.Sort
import Mathlib.Order.Bounds.Basic
import DiceNotation.Proofs.Wholes

/-!
What keeping and dropping select.

A selection keeps a beginning of the sorted values, or leaves one out. No choice of as many values has a better sum
than that beginning, since each value that is chosen can be exchanged for one that stands before it. For whole numbers
the scores are the exact sums of the values, and these depend on the values only, not on their order.

Main statement: `Selection.score_selects`.
-/

namespace DiceNotation

/-! ### Sorted values -/

/-- The first value comes before the second one, from the highest or the lowest on. -/
def leads (highest : Bool) (m n : Int) : Bool := if highest then decide (n ≤ m) else decide (m ≤ n)

section Leads

variable {highest : Bool} {a b c d : Int}

theorem leads_trans (a b c : Int) (h : leads highest a b) (h' : leads highest b c) : leads highest a c := by
  cases highest <;> simp_all [leads] <;> omega

theorem leads_total (a b : Int) : leads highest a b || leads highest b a := by
  cases highest <;> simp [leads] <;> omega

theorem leads_antisymm (h : leads highest a b) (h' : leads highest b a) : a = b := by
  cases highest <;> simp_all [leads] <;> omega

theorem leads_add (h : leads highest a b) (h' : leads highest c d) : leads highest (a + c) (b + d) := by
  cases highest <;> simp_all [leads] <;> omega

theorem leads_self (a : Int) : leads highest a a := by
  cases highest <;> simp [leads]

theorem leads_not (h : leads highest a b) : leads (!highest) b a := by
  cases highest <;> simp_all [leads]

end Leads

/-- Whole values, sorted from the highest or the lowest on. -/
def sortValues (highest : Bool) (ns : List Int) : List Int := ns.mergeSort (leads highest)

section Sorted

variable (highest : Bool) (ns : List Int)

theorem sortValues_perm : (sortValues highest ns).Perm ns := List.mergeSort_perm ns _

theorem pairwise_sortValues : (sortValues highest ns).Pairwise fun m n => leads highest m n :=
  List.pairwise_mergeSort leads_trans leads_total ns

variable {highest ns}

/-- There is one way to sort values. -/
theorem eq_sortValues {ms : List Int} (hperm : ms.Perm ns) (hsorted : ms.Pairwise fun m n => leads highest m n) :
    ms = sortValues highest ns :=
  List.Perm.eq_of_pairwise (fun _ _ _ _ => leads_antisymm) hsorted (pairwise_sortValues highest ns)
    (hperm.trans (sortValues_perm highest ns).symm)

theorem sortValues_of_perm {ms : List Int} (h : ms.Perm ns) : sortValues highest ms = sortValues highest ns :=
  eq_sortValues ((sortValues_perm highest ms).trans h) (pairwise_sortValues highest ms)

theorem sortValues_not : sortValues (!highest) ns = (sortValues highest ns).reverse := by
  refine (eq_sortValues ((List.reverse_perm _).trans (sortValues_perm highest ns)) ?_).symm
  exact List.pairwise_reverse.2 ((pairwise_sortValues highest ns).imp leads_not)

end Sorted

/-! ### Sums of values -/

/-- The sums of so many values chosen from a list. -/
def sumsOf (k : Nat) (ns : List Int) : Set Int :=
  {total | ∃ chosen : List Int, chosen.Subperm ns ∧ chosen.length = k ∧ chosen.sum = total}

section Sums

variable {highest : Bool} {ns l chosen : List Int}

/-- One more value in front makes a beginning no worse. -/
theorem leads_sum_take_cons {a : Int} {k : Nat} (ha : ∀ b ∈ l, leads highest a b) (hk : k ≤ l.length) :
    leads highest ((a :: l).take k).sum (l.take k).sum := by
  cases k with
  | zero => exact leads_self 0
  | succ k =>
    rw [List.take_succ_cons, List.sum_cons, List.take_succ_eq_append_getElem hk, List.sum_append, List.sum_singleton,
      Int.add_comm a]
    exact leads_add (leads_self _) (ha _ (List.getElem_mem hk))

/-- No values of a sorted list have a better sum than as many at its beginning. -/
theorem leads_sum_take (hsorted : l.Pairwise fun m n => leads highest m n) (h : chosen.Sublist l) :
    leads highest (l.take chosen.length).sum chosen.sum := by
  induction h with
  | slnil => exact leads_self 0
  | @cons chosen l a h ih =>
    obtain ⟨ha, hsorted⟩ := List.pairwise_cons.1 hsorted
    exact leads_trans _ _ _ (leads_sum_take_cons ha h.length_le) (ih hsorted)
  | @cons_cons chosen l a h ih =>
    obtain ⟨-, hsorted⟩ := List.pairwise_cons.1 hsorted
    rw [List.length_cons, List.take_succ_cons, List.sum_cons, List.sum_cons]
    exact leads_add (leads_self a) (ih hsorted)

/-- The beginning of the sorted values has the best sum of all choices of as many values. -/
theorem best_sum_take (highest : Bool) (n : Nat) (ns : List Int) :
    ((sortValues highest ns).take n).sum ∈ sumsOf (min n ns.length) ns ∧
      ∀ total ∈ sumsOf (min n ns.length) ns, leads highest ((sortValues highest ns).take n).sum total := by
  have hperm := sortValues_perm highest ns
  constructor
  · refine ⟨_, (List.take_sublist n _).subperm.trans hperm.subperm, ?_, rfl⟩
    rw [List.length_take, hperm.length_eq]
  · rintro total ⟨chosen, hchosen, hlength, rfl⟩
    obtain ⟨chosen', hperm', hsub⟩ := hperm.symm.subperm_left.1 hchosen
    have htake : (sortValues highest ns).take n = (sortValues highest ns).take chosen'.length := by
      rw [hperm'.length_eq, hlength, List.take_eq_take_iff, hperm.length_eq]
      omega
    rw [htake, ← hperm'.sum_eq]
    exact leads_sum_take (pairwise_sortValues highest ns) hsub

end Sums

theorem natAbs_sum_le (ns : List Int) : ns.sum.natAbs ≤ (ns.map Int.natAbs).sum := by
  induction ns with
  | nil => exact Nat.le_refl _
  | cons n ns ih =>
    rw [List.sum_cons, List.map_cons, List.sum_cons]
    have := Int.natAbs_add_le n ns.sum
    omega

/-! ### Selections -/

open Number

section Selections

variable {highest : Bool} {n : Nat} {m : Int} {ns ms : List Int} {xs ys : List Number} {number : Number}

/-- Whole numbers are sorted as their values are. -/
theorem sortFrom_of_wholes (highest : Bool) (h : Wholes xs ns) :
    Wholes (sortFrom highest xs) (sortValues highest ns) := by
  let before (a b : Option Int) : Bool := leads highest (a.getD 0) (b.getD 0)
  have hxs : (sortFrom highest xs).map toInt? = (xs.map toInt?).mergeSort before := by
    refine List.map_mergeSort fun x hx y hy => ?_
    obtain ⟨a, -, ha⟩ := List.mem_map.1 (h ▸ List.mem_map_of_mem (f := toInt?) hx)
    obtain ⟨b, -, hb⟩ := List.mem_map.1 (h ▸ List.mem_map_of_mem (f := toInt?) hy)
    simp only [before, leads, lt_of_wholes ha.symm hb.symm, lt_of_wholes hb.symm ha.symm, ← ha, ← hb,
      Option.getD_some, ← decide_not, Int.not_lt]
  have hns : (sortValues highest ns).map some = (ns.map some).mergeSort before :=
    List.map_mergeSort fun _ _ _ _ => rfl
  rw [Wholes, hxs, hns, h]

namespace Selection

/-- The whole values that a selection keeps. -/
def keptValues (s : Selection) (n : Nat) (ns : List Int) : List Int :=
  let sorted := sortValues s.highest ns
  if s.keep then sorted.take n else sorted.drop n

/-- The sum of the whole values that a selection keeps. -/
def total (s : Selection) (n : Nat) (ns : List Int) : Int := (s.keptValues n ns).sum

/-- What is kept and what is dropped make up the values. -/
theorem keptValues_append (highest : Bool) (n : Nat) (ns : List Int) :
    keptValues ⟨true, highest⟩ n ns ++ keptValues ⟨false, highest⟩ n ns = sortValues highest ns :=
  List.take_append_drop _ _

theorem keptValues_of_perm (s : Selection) (n : Nat) (h : ms.Perm ns) : s.keptValues n ms = s.keptValues n ns := by
  unfold keptValues
  rw [sortValues_of_perm h]

theorem total_keep_add_drop (highest : Bool) (n : Nat) (ns : List Int) :
    total ⟨true, highest⟩ n ns + total ⟨false, highest⟩ n ns = ns.sum := by
  unfold total
  rw [← List.sum_append, keptValues_append, (sortValues_perm highest ns).sum_eq]

/-- To drop values from one end is to keep the others from the other end. -/
theorem total_drop (highest : Bool) (h : n ≤ ns.length) :
    total ⟨false, highest⟩ n ns = total ⟨true, !highest⟩ (ns.length - n) ns := by
  show ((sortValues highest ns).drop n).sum = ((sortValues (!highest) ns).take (ns.length - n)).sum
  have hlength := (sortValues_perm highest ns).length_eq
  rw [sortValues_not, List.take_reverse, List.sum_reverse, hlength, Nat.sub_sub_self h]

theorem total_of_length_le (highest : Bool) (h : ns.length ≤ n) :
    total ⟨true, highest⟩ n ns = ns.sum ∧ total ⟨false, highest⟩ n ns = 0 := by
  have hdrop : total ⟨false, highest⟩ n ns = 0 := by
    show ((sortValues highest ns).drop n).sum = 0
    rw [List.drop_of_length_le (by rwa [(sortValues_perm highest ns).length_eq]), List.sum_nil]
  have := total_keep_add_drop highest n ns
  exact ⟨by omega, hdrop⟩

theorem isGreatest_total (n : Nat) (ns : List Int) :
    IsGreatest (sumsOf (min n ns.length) ns) (total ⟨true, true⟩ n ns) := by
  obtain ⟨hmem, hbest⟩ := best_sum_take true n ns
  exact ⟨hmem, fun sum hsum => of_decide_eq_true (hbest sum hsum)⟩

theorem isLeast_total (n : Nat) (ns : List Int) :
    IsLeast (sumsOf (min n ns.length) ns) (total ⟨true, false⟩ n ns) := by
  obtain ⟨hmem, hbest⟩ := best_sum_take false n ns
  exact ⟨hmem, fun sum hsum => of_decide_eq_true (hbest sum hsum)⟩

/-- The magnitudes of the values kept add up to no more than those of all. -/
theorem sum_natAbs_keptValues_le (s : Selection) (n : Nat) (ns : List Int) :
    ((s.keptValues n ns).map Int.natAbs).sum ≤ (ns.map Int.natAbs).sum := by
  obtain ⟨keep, highest⟩ := s
  have hsplit := congrArg (fun l => (l.map Int.natAbs).sum) (keptValues_append highest n ns)
  rw [List.map_append, List.sum_append, ((sortValues_perm highest ns).map Int.natAbs).sum_eq] at hsplit
  cases keep <;> omega

theorem kept_of_wholes (s : Selection) (n : Nat) (h : Wholes xs ns) : Wholes (s.kept n xs) (s.keptValues n ns) := by
  have hsorted := sortFrom_of_wholes s.highest h
  unfold kept keptValues
  cases s.keep with
  | true => exact (List.map_take.trans (congrArg (List.take n) hsorted)).trans List.map_take.symm
  | false => exact (List.map_drop.trans (congrArg (List.drop n) hsorted)).trans List.map_drop.symm

theorem score_of_round (s : Selection) (xs : List Number) (h : number.round? = some m) :
    s.score xs number = .ok (sum (s.kept m.toNat xs)) := by
  rw [score, requireFinite, h]
  rfl

/-- The score of whole numbers is the exact sum of the values kept. -/
theorem score_of_wholes (s : Selection) (hxs : Wholes xs ns) (hbound : (ns.map Int.natAbs).sum ≤ exactBound)
    (hm : number.round? = some m) :
    s.score xs number = .ok (ofInt (s.total m.toNat ns)) ∧
      (ofInt (s.total m.toNat ns)).toInt? = some (s.total m.toNat ns) := by
  have hkept := Nat.le_trans (sum_natAbs_keptValues_le s m.toNat ns) hbound
  refine ⟨?_, toInt?_ofInt (Nat.le_trans (natAbs_sum_le _) hkept)⟩
  rw [score_of_round s xs hm, sum_of_wholes (kept_of_wholes s m.toNat hxs) hkept, total]

/-- What selections with `n` make of whole numbers: `sums` are their sums. A choice has as many values as there are,
at most `n`. -/
structure Selects (xs : List Number) (ns : List Int) (number : Number) (n : Nat) (sums : Selection → Int) : Prop where
  /-- The scores are these sums, exactly. -/
  score_eq : ∀ s, s.score xs number = .ok (ofInt (sums s)) ∧ (ofInt (sums s)).toInt? = some (sums s)
  greatest : IsGreatest (sumsOf (min n ns.length) ns) (sums ⟨true, true⟩)
  least : IsLeast (sumsOf (min n ns.length) ns) (sums ⟨true, false⟩)
  /-- What is kept and what is dropped add up to all. -/
  complement : ∀ highest, sums ⟨true, highest⟩ + sums ⟨false, highest⟩ = ns.sum
  /-- To drop from one end is to keep the others from the other end. -/
  opposite : ∀ rest r, rest.round? = some r → n + r.toNat = ns.length → ∀ highest,
    Selection.score ⟨false, highest⟩ xs number = Selection.score ⟨true, !highest⟩ xs rest
  /-- The order of the numbers does not matter. -/
  unordered : ∀ ys, ys.Perm xs → ∀ s : Selection, s.score ys number = s.score xs number
  /-- There is nothing to drop beyond the end. -/
  whole : ns.length ≤ n → ∀ highest, sums ⟨true, highest⟩ = ns.sum ∧ sums ⟨false, highest⟩ = 0

/-- **Keeping and dropping select the right values.** Among whole numbers whose magnitudes stay within the bound, the
selections for a finite number that rounds to `m` keep the best of all choices of `m` values, or none for a negative
`m`. -/
theorem score_selects (hxs : Wholes xs ns) (hbound : (ns.map Int.natAbs).sum ≤ exactBound)
    (hfinite : number.isFinite = true) :
    ∃ m, number.round? = some m ∧ Selects xs ns number m.toNat fun s => s.total m.toNat ns := by
  obtain ⟨m, hm⟩ := exists_round? hfinite
  refine ⟨m, hm, ?_⟩
  constructor
  case score_eq => exact fun s => score_of_wholes s hxs hbound hm
  case greatest => exact isGreatest_total _ _
  case least => exact isLeast_total _ _
  case complement => exact fun highest => total_keep_add_drop highest _ _
  case opposite =>
    intro rest r hr hlength highest
    rw [(score_of_wholes _ hxs hbound hm).1, (score_of_wholes _ hxs hbound hr).1, total_drop highest (by omega),
      show ns.length - m.toNat = r.toNat by omega]
  case unordered =>
    intro ys hys s
    obtain ⟨ms, hms, hwholes⟩ := hxs.perm hys
    have hbound' : (ms.map Int.natAbs).sum ≤ exactBound := by rwa [(hms.map Int.natAbs).sum_eq]
    rw [(score_of_wholes s hwholes hbound' hm).1, (score_of_wholes s hxs hbound hm).1, total, total,
      keptValues_of_perm s _ hms]
  case whole => exact fun h highest => total_of_length_le highest h

/-- Of `3`, `-1`, `3` and `0` the two highest are the two threes; two and a half rounds to two. -/
theorem score_selects_tied :
    let xs := [Number.ofInt 3, Number.ofInt (-1), Number.ofInt 3, Number.zero]
    let ns := [3, -1, 3, 0]
    let number := Number.ofDecimal false 25 (-1)
    Wholes xs ns ∧ (ns.map Int.natAbs).sum ≤ exactBound ∧ number.isFinite = true ∧ number.round? = some 2 ∧
      Selects xs ns number 2 (fun s => s.total 2 ns) ∧
      Selection.score ⟨true, true⟩ xs number = .ok (Number.ofInt 6) ∧
      Selection.score ⟨true, false⟩ xs number = .ok (Number.ofInt (-1)) := by
  intro xs ns number
  have hxs : Wholes xs ns := by decide +kernel
  have hbound : (ns.map Int.natAbs).sum ≤ exactBound := by decide +kernel
  have hfinite : number.isFinite = true := by decide +kernel
  have htwo : number.round? = some 2 := by decide +kernel
  obtain ⟨m, hm, hselects⟩ := score_selects hxs hbound hfinite
  obtain rfl : m = 2 := Option.some.inj (hm.symm.trans htwo)
  have hhighest : sortValues true ns = [3, 3, 0, -1] := (eq_sortValues (by decide) (by decide)).symm
  have hlowest : sortValues false ns = [-1, 0, 3, 3] := (eq_sortValues (by decide) (by decide)).symm
  refine ⟨hxs, hbound, hfinite, hm, hselects, ?_, ?_⟩
  · rw [(hselects.score_eq ⟨true, true⟩).1, total, keptValues]
    dsimp only
    rw [show (2 : Int).toNat = 2 from rfl, hhighest]
    rfl
  · rw [(hselects.score_eq ⟨true, false⟩).1, total, keptValues]
    dsimp only
    rw [show (2 : Int).toNat = 2 from rfl, hlowest]
    rfl

end Selection

end Selections

end DiceNotation
