import DiceNotation.Proofs.Shown

/-!
A pool of single dice is a roll of as many dice.

Each entry of the pool takes one roll from the script, so the entries are the faces that the dice would show, and the
pool ends where the dice would: with the rolls that are there, or for want of one. What keeps, drops or counts entries
does not see whether they are faces or numbers, since up to the bound a face is the number that is recorded for it.

Main statement: `Expr.evaluate_singles`.
-/

namespace DiceNotation

open Play

/-! ### Dice with literals -/

/-- A number that stands there. -/
def Expr.ofNumber (x : Number) : Expr := .literal (some (.number x)) none

/-- One die, rolled alone: `one` is the number of dice, `y` that of its faces. -/
def Expr.single (slot : Slot) (one y : Number) : Expr :=
  .dice slot (.ofNumber one) (.ofNumber y) none .plain .equal .absent

/-- Dice with literals: `x` dice with `y` faces under a modifier with the target `z`. -/
def Expr.several (slot : Slot) (x y : Number) (modifier : Modifier) (comparison : Comparison) (z : Number) : Expr :=
  .dice slot (.ofNumber x) (.ofNumber y) none modifier comparison (.value (.ofNumber z))

/-- A pool of single dice, each with a slot of its own. -/
def Expr.singles (slots : List Slot) (one y : Number) (modifier : Modifier) (comparison : Comparison) (z : Number) :
    Expr :=
  .pool (slots.map fun i => .single i one y) modifier comparison (some (.ofNumber z))

section Dice

variable {setting : Setting} {slot : Slot} {count faces : Expr} {label : Option String} {modifier : Modifier}
  {comparison : Comparison} {target : Target Expr} {n f : Nat} {z : Number} {t t' : Table}

/-- Dice whose operands are known come to what their roll does. -/
theorem on_dice (hopen : t.sheet.result slot = none)
    (ho : (count.evaluateOperands setting faces modifier target).on t = (.ok ⟨n, f, z⟩, t)) :
    let r := (make slot f (roll modifier comparison z n f)).on t
    ((Expr.dice slot count faces label modifier comparison target).evaluate setting).on t =
      (r.1.map fun x => some (.number x), r.2) := by
  have h : ((Expr.dice slot count faces label modifier comparison target).evaluate setting).on t = _ :=
    Expr.on_evaluate_dice hopen ho
  simp only [Int.toNat_natCast] at h
  exact h

theorem on_operands_plain {x y : Number} {target : Play (Option Value)} (hx : x.round? = some (n : Int))
    (hy : y.round? = some (f : Int)) (hf : 1 ≤ f) :
    (operands .plain (pure (some (.number x))) (pure (some (.number y))) target).on t = (.ok ⟨n, f, .zero⟩, t) := by
  have hr : requireFaces n f = .ok () := if_neg fun h => absurd h.2 (Int.not_lt.2 (by omega))
  rw [operands, on_bind_ok (on_wholeOperand _ _ hx), on_bind_ok (on_wholeOperand _ _ hy), on_bind_ok (by rw [hr]; rfl)]
  rfl

end Dice

/-! ### Single dice -/

theorem total_of_le {faces : List Nat} (h : faceSum faces ≤ Number.exactBound) :
    total faces = .ok (.ofNat (faceSum faces)) := by
  have hfinite : (Number.ofNat (faceSum faces)).isFinite = true := by rw [Number.ofNat_eq_finite h]; rfl
  rw [Number.ofNat] at hfinite ⊢
  show (Number.ofInt? (faceSum faces : Nat)).elim _ _ = _
  simp only [Number.ofInt?, hfinite, if_true, Option.elim_some]

theorem roll_single (c : Comparison) (target : Number) {f face : Nat} (h : face ≤ Number.exactBound)
    (shown : List Nat) : roll .plain c target 1 f (face :: shown) = ⟨1, [.ofNat face], .ok (.ofNat face)⟩ := by
  have htotal : total [face] = .ok (.ofNat face) := by
    rw [total_of_le (by simpa using h), faceSum_cons, faceSum_nil, Nat.add_zero]
  simp only [roll, rollPlain_eq, Roll.whole, List.take_succ_cons, List.take_zero, List.length_cons, List.map_cons,
    List.map_nil, htotal]
  simp

section Single

variable (setting : Setting) {one y : Number} {f : Nat} {slot : Slot} {slots : List Slot} {t : Table}
  (hone : one.round? = some ((1 : Nat) : Int)) (hy : y.round? = some (f : Int)) (hf : 1 ≤ f)

include hone hy hf

theorem on_single (hopen : t.sheet.result slot = none) : ((Expr.single slot one y).evaluate setting).on t =
    let r := (make slot f (roll .plain .equal .zero 1 f)).on t
    (r.1.map fun x => some (.number x), r.2) :=
  on_dice hopen (on_operands_plain hone hy hf)

/-- A single die fails where no roll is left. -/
theorem on_entry_nil (hopen : t.sheet.result slot = none) (hscript : t.script = []) :
    ((Expr.single slot one y).evaluateEntry setting).on t =
      (.error (.outOfRolls f), rolled slot f ⟨0, [], .error (.outOfRolls f)⟩ t) := by
  rw [Expr.evaluateEntry, on_bind, on_single setting hone hy hf hopen, on_make, hscript]
  rfl

/-- A single die takes a roll, calls its faces and leaves the other slots alone. -/
theorem on_entry_cons (hopen : t.sheet.result slot = none) (hbound : f ≤ Number.exactBound) {entry : Int}
    {script : List Int} (hscript : t.script = entry :: script) :
    ∃ sheet : Sheet, (∀ i, i ≠ slot → sheet.result i = t.sheet.result i) ∧
      ((Expr.single slot one y).evaluateEntry setting).on t =
        (.ok (.ofNat (faceOf f entry)), ⟨sheet, script, t.calls ++ [f]⟩) := by
  have hface : faceOf f entry ≤ Number.exactBound := Nat.le_trans (faceOf_le hf entry) hbound
  refine ⟨(t.sheet.record slot [.ofNat (faceOf f entry)]).settle slot (.ofNat (faceOf f entry)), ?_, ?_⟩
  · intro i hi
    simp [hi, Sheet.record]
  · rw [Expr.evaluateEntry, on_bind, on_single setting hone hy hf hopen, on_make, hscript, List.map_cons,
      roll_single _ _ hface]
    generalize Number.ofNat (faceOf f entry) = x
    simp only [rolled, hscript]
    rfl

/-- Single dice in turn take the rolls that as many dice take. -/
theorem on_singles (hbound : f ≤ Number.exactBound) (hslots : slots.Nodup)
    (hopen : ∀ i ∈ slots, t.sheet.result i = none) :
    let r := (Expr.evaluateEntries setting (slots.map fun i => Expr.single i one y)).on t
    (r.1 = if slots.length ≤ t.script.length then
        .ok (((t.script.map (faceOf f)).take slots.length).map .ofNat) else .error (.outOfRolls f)) ∧
      r.2.script = t.script.drop slots.length ∧
      r.2.calls = t.calls ++ List.replicate (min slots.length t.script.length) f := by
  induction slots generalizing t with
  | nil => exact ⟨rfl, rfl, (List.append_nil _).symm⟩
  | cons i slots ih =>
    obtain ⟨hi, hslots⟩ := List.nodup_cons.1 hslots
    obtain ⟨hopen, hothers⟩ := List.forall_mem_cons.1 hopen
    rw [Expr.evaluateEntries_eq_mapM] at ih ⊢
    rw [List.map_cons, List.mapM_cons, on_bind]
    cases hscript : t.script with
    | nil =>
      rw [on_entry_nil setting hone hy hf hopen hscript]
      simp [rolled, hscript]
    | cons entry script =>
      obtain ⟨sheet, hsheet, hentry⟩ := on_entry_cons setting hone hy hf hopen hbound hscript
      have hopen' : ∀ j ∈ slots, (⟨sheet, script, t.calls ++ [f]⟩ : Table).sheet.result j = none := fun j hj => by
        rw [hsheet j fun h => hi (h ▸ hj)]
        exact hothers j hj
      obtain ⟨hvalues, hleft, hcalls⟩ := ih hslots hopen'
      rw [hentry]
      dsimp only
      rw [on_bind]
      generalize ((slots.map fun j => Expr.single j one y).mapM (Expr.evaluateEntry setting)).on
        ⟨sheet, script, t.calls ++ [f]⟩ = rest at hvalues hleft hcalls ⊢
      obtain ⟨outcome, u⟩ := rest
      dsimp only at hvalues hleft hcalls
      subst hvalues
      by_cases hlength : slots.length ≤ script.length
      · rw [if_pos hlength]
        simp [hleft, hcalls, hlength, List.replicate_succ]
      · rw [if_neg hlength]
        simp [hleft, hcalls, hlength, List.replicate_succ]

end Single

/-! ### Scores -/

section Scores

variable {modifier : Modifier} {c : Comparison} {z : Number} {n f : Nat} {shown : List Nat}

/-- What is made of dice that are kept, dropped or counted is what is made of a pool with their faces. -/
theorem roll_score (hm : modifier = .countSuccesses ∨ modifier.isSelection = true)
    (hshown : ∀ face ∈ shown, face ≤ Number.exactBound) :
    (roll modifier c z n f shown).used = min n shown.length ∧
      (roll modifier c z n f shown).outcome = if n ≤ shown.length then
        (scorePool modifier c ((shown.take n).map .ofNat) z).mapError (.fault · none) else .error (.outOfRolls f) := by
  have whole (score : List Nat → Except Failure Number) :
      (Roll.whole f (rollPlain n shown) score).used = min n shown.length ∧
        (Roll.whole f (rollPlain n shown) score).outcome =
          if n ≤ shown.length then score (shown.take n) else .error (.outOfRolls f) := by
    rw [rollPlain_eq, Roll.whole]
    by_cases h : n ≤ shown.length
    · simp [h]
    · simp [h]
  cases modifier with
  | countSuccesses =>
    obtain ⟨hused, houtcome⟩ := whole fun fs => .ok (.ofNat (countFaces c z fs))
    refine ⟨hused, houtcome.trans ?_⟩
    rw [scorePool, countSuccesses_map_ofNat c z fun face hface => hshown face (List.mem_of_mem_take hface)]
    rfl
  | select s =>
    have hroll : roll (.select s) c z n f shown = .whole f (rollPlain n shown) fun fs =>
        (s.score (fs.map .ofNat) z).mapError (.fault · none) := by
      rw [roll]
      congr 1
      funext fs
      cases s.score (fs.map .ofNat) z <;> rfl
    rw [hroll]
    exact whole _
  | _ => simp [Modifier.isSelection] at hm

/-- The values of a pool with a finite target have a score. -/
theorem exists_scorePool (hm : modifier = .countSuccesses ∨ modifier.isSelection = true) (hz : z.isFinite = true)
    (xs : List Number) : ∃ r, scorePool modifier c xs z = .ok r := by
  cases modifier with
  | countSuccesses => exact ⟨_, rfl⟩
  | select s =>
    cases z with
    | finite negative quanta fits => exact ⟨_, rfl⟩
    | _ => cases hz
  | _ => simp [Modifier.isSelection] at hm

end Scores

namespace Expr

variable {setting : Setting} {slot : Slot} {slots : List Slot} {modifier : Modifier} {comparison : Comparison}
  {x y z one : Number} {f : Nat} {t : Table}

/-- A pool with a literal for its target comes to the score of its entries. -/
theorem on_evaluate_pool (entries : List Expr) :
    let r := (evaluateEntries setting entries).on t
    ((Expr.pool entries modifier comparison (some (.ofNumber z))).evaluate setting).on t =
      (r.1.bind fun xs => ((scorePool modifier comparison xs z).mapError (.fault · none)).map
        fun x => some (.number x), r.2) := by
  show (evaluateEntries setting entries >>= fun xs =>
    lift (scorePool modifier comparison xs z) >>= fun r => pure (some (.number r)) : Play (Option Value)).on t = _
  rw [on_bind]
  generalize (evaluateEntries setting entries).on t = r
  obtain ⟨failure | xs, u⟩ := r
  · rfl
  · show _ = (((scorePool modifier comparison xs z).mapError (Failure.fault · none)).map fun x =>
      some (Value.number x), u)
    dsimp only
    rw [on_bind, on_lift]
    cases scorePool modifier comparison xs z <;> rfl

/-- Two evaluations end alike: with the same number, or both for lack of a roll of a die with so many faces. They call
the same dice and leave the same rolls. -/
structure EndsAlike (faces : Nat) (d p : Except Failure (Option Value) × Table) : Prop where
  outcome : d.1 = p.1
  calls : d.2.calls = p.2.calls
  script : d.2.script = p.2.script
  ends : (∃ r, d.1 = .ok (some (.number r))) ∨ d.1 = .error (.outOfRolls faces)

/-- **A pool of single dice is a roll of as many dice**, for the modifiers that keep, drop or count, and a finite
target. The number of dice and the number of faces may be any that round to these. -/
theorem evaluate_singles (hx : x.round? = some (slots.length : Int)) (hone : one.round? = some ((1 : Nat) : Int))
    (hy : y.round? = some (f : Int)) (hf : 1 ≤ f) (hbound : f ≤ Number.exactBound) (hz : z.isFinite = true)
    (hm : modifier = .countSuccesses ∨ modifier.isSelection = true) (hopen : t.sheet.result slot = none)
    (hslots : slots.Nodup) (hopens : ∀ i ∈ slots, t.sheet.result i = none) :
    EndsAlike f (((several slot x y modifier comparison z).evaluate setting).on t)
      (((singles slots one y modifier comparison z).evaluate setting).on t) := by
  have hne : modifier ≠ .plain := by rintro rfl; simp [Modifier.isSelection] at hm
  have hshown : ∀ face ∈ t.script.map (faceOf f), face ≤ Number.exactBound := by
    intro face hface
    obtain ⟨entry, -, rfl⟩ := List.mem_map.1 hface
    exact Nat.le_trans (faceOf_le hf entry) hbound
  obtain ⟨hused, houtcome⟩ := roll_score (c := comparison) (z := z) (n := slots.length) (f := f) hm hshown
  rw [List.length_map] at hused houtcome
  obtain ⟨hvalues, hleft, hcalls⟩ := on_singles setting hone hy hf hbound hslots hopens
  have ho : ((ofNumber x).evaluateOperands setting (.ofNumber y) modifier (.value (.ofNumber z))).on t =
      (.ok ⟨slots.length, f, z⟩, t) := on_operands_numbers hne hx hy (by omega)
  rw [several, singles, on_evaluate_pool, on_dice hopen ho]
  constructor
  case outcome =>
    rw [fst_on_make, houtcome, hvalues]
    by_cases h : slots.length ≤ t.script.length
    · rw [if_pos h, if_pos h]
      rfl
    · rw [if_neg h, if_neg h]
      rfl
  case calls => rw [calls_on_make, hcalls, hused]
  case script => rw [script_on_make, hleft, hused, ← List.drop_eq_drop_min]
  case ends =>
    rw [fst_on_make, houtcome]
    by_cases h : slots.length ≤ t.script.length
    · obtain ⟨r, hr⟩ := exists_scorePool (c := comparison) hm hz
        (((t.script.map (faceOf f)).take slots.length).map .ofNat)
      rw [if_pos h, hr]
      exact .inl ⟨r, rfl⟩
    · rw [if_neg h]
      exact .inr rfl

/-- Two dice of which those from four on count, with a number of faces that rounds to six. -/
theorem evaluate_singles_counted :
    let x := Number.ofNat 2
    let y := Number.ofDecimal false 64 (-1)
    let z := Number.ofNat 4
    let one := Number.ofNat 1
    let t : Table := ⟨.blank, [3, 5, 2], []⟩
    let d := ((several 0 x y .countSuccesses .greaterEqual z).evaluate ⟨[], .standard⟩).on t
    let p := ((singles [1, 2] one y .countSuccesses .greaterEqual z).evaluate ⟨[], .standard⟩).on t
    (x.round? = some ([1, 2].length : Int) ∧ one.round? = some ((1 : Nat) : Int) ∧ y.round? = some ((6 : Nat) : Int) ∧
        6 ≤ Number.exactBound ∧ z.isFinite = true ∧ t.sheet.result 0 = none ∧ [1, 2].Nodup ∧
        ∀ i ∈ [1, 2], t.sheet.result i = none) ∧
      EndsAlike 6 d p ∧ p.1 = .ok (some (.number (.ofNat 1))) := by
  intro x y z one t d p
  have hx : x.round? = some ([1, 2].length : Int) := by decide +kernel
  have hone : one.round? = some ((1 : Nat) : Int) := by decide +kernel
  have hy : y.round? = some ((6 : Nat) : Int) := by decide +kernel
  have hbound : 6 ≤ Number.exactBound := by decide +kernel
  have hz : z.isFinite = true := by decide +kernel
  have hopen : t.sheet.result 0 = none := rfl
  have hopens : ∀ i ∈ [1, 2], t.sheet.result i = none := fun _ _ => rfl
  have hvalue : p.1.toOption = some (some (.number (.ofNat 1))) := by decide +kernel
  have halike : EndsAlike 6 d p :=
    evaluate_singles hx hone hy (by decide) hbound hz (.inl rfl) hopen (by decide) hopens
  exact ⟨⟨hx, hone, hy, hbound, hz, hopen, by decide, hopens⟩, halike, eq_ok_of_toOption hvalue⟩

end Expr

end DiceNotation
