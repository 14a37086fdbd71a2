import DiceNotation.Form
import DiceNotation.Proofs.Course
import DiceNotation.Proofs.Replay
import DiceNotation.Proofs.Rolls

/-!
Dice that were rolled and have no result.

Dice record their rolls before they score them, and one way of scoring can fail: to keep or drop some of the rolls
takes a finite number. Such dice show their rolls and are rolled once more by the next evaluation. The invariant is
`Tidy`: a step that begins with no dice halfway ends so, or with a fault of this one kind and one such die.

Main statement: `Form.evaluate_leaves_whole`. That it needs its exception is `Form.rolled_again`.
-/

namespace DiceNotation

/-! ### Rolls without a result -/

namespace Sheet

/-- What a slot shows is the whole of a roll, or nothing at all. -/
def WholeAt (s : Sheet) (slot : Slot) : Prop := s.rolls slot = [] ∨ (s.result slot).isSome

/-- No slot shows rolls without a result. -/
def Whole (s : Sheet) : Prop := ∀ slot, s.WholeAt slot

/-- Some dice of an expression lack a finite number of rolls to keep or drop, and at most these are halfway. -/
def HalfwayIn (s : Sheet) (e : Expr) (cause : Fault) : Prop :=
  ∃ odd x count faces label selection comparison target,
    cause = .notFinite "Keep/drop count" x ∧ x.isFinite = false ∧
      (Expr.dice odd count faces label (.select selection) comparison target).PartOf e ∧
      ∀ slot, slot ≠ odd → s.WholeAt slot

theorem whole_blank : blank.Whole := fun _ => .inl rfl

theorem Whole.resolve {s : Sheet} (h : s.Whole) (slot : Slot) (v : Value) : (s.resolve slot v).Whole := h

/-- A roll and its result are recorded together. -/
theorem Whole.settle {s : Sheet} (h : s.Whole) (slot : Slot) (xs : List Number) (x : Number) :
    ((s.record slot xs).settle slot x).Whole := by
  intro i
  unfold WholeAt
  by_cases hi : i = slot
  · right
    simp [hi]
  · rcases h i with hr | hr
    · left
      simp [Sheet.settle, hr, hi]
    · right
      simpa [Sheet.settle, Sheet.record, hi] using hr

/-- Rolls alone leave at most their own slot halfway. -/
theorem Whole.record {s : Sheet} (h : s.Whole) {slot i : Slot} (hi : i ≠ slot) (xs : List Number) :
    (s.record slot xs).WholeAt i := by
  unfold WholeAt
  rcases h i with hr | hr
  · left
    simp [hr, hi]
  · exact .inr hr

end Sheet

namespace Play

variable {α β : Type}

/-! ### Faults of a roll -/

theorem isFinite_of_score {s : Selection} {xs : List Number} {number : Number} {cause : Fault}
    (h : s.score xs number = .error cause) : number.isFinite = false := by
  unfold Selection.score requireFinite at h
  cases number with
  | finite negative quanta fits => cases h
  | _ => rfl

/-- Only a selection makes a fault of a roll. -/
theorem select_of_fault {modifier : Modifier} {c : Comparison} {target : Number} {count faces : Nat}
    {shown : List Nat} {cause : Fault} {place : Option Place}
    (h : (roll modifier c target count faces shown).outcome = .error (.fault cause place)) :
    ∃ s, modifier = .select s ∧ cause = .notFinite "Keep/drop count" target ∧ target.isFinite = false := by
  rcases outcome_error_roll h with h' | h' | h'
  · cases h'
  · cases h'
  · cases h'
    unfold roll at h
    cases modifier with
    | select s =>
      refine ⟨s, rfl, rfl, ?_⟩
      rcases error_of_whole h with h | h
      · cases h
      · generalize hx : s.score _ target = score at h
        cases score with
        | ok x => cases h
        | error cause => exact isFinite_of_score hx
    | plain =>
      rcases error_of_whole h with h | h
      · cases h
      · cases error_of_total h
    | marginOfSuccess =>
      rcases error_of_whole h with h | h
      · cases h
      · generalize ht : total _ = sum at h
        cases sum with
        | ok x => cases h
        | error failure => cases h; cases error_of_total ht
    | countSuccesses => rcases error_of_whole h with h | h <;> cases h
    | reroll => cases error_of_running h
    | explode => cases error_of_running h
    | compoundExplode => cases error_of_running h

/-! ### Tidy steps -/

/-- What a step that began on a whole sheet leaves, by its outcome. A failure that is no fault may leave anything. -/
def Leaves (e : Expr) : Except Failure α → Sheet → Prop
  | .ok _, s => s.Whole
  | .error (.fault cause _), s => s.Whole ∨ s.HalfwayIn e cause
  | .error _, _ => True

/-- From a whole sheet the step leaves a whole sheet, or dice of `e` halfway. -/
def Tidy (e : Expr) (x : Play α) : Prop := ∀ t : Table, t.sheet.Whole → Leaves e (x.on t).1 (x.on t).2.sheet

theorem leaves_of_whole {e : Expr} {r : Except Failure α} {s : Sheet} (h : s.Whole) : Leaves e r s := by
  rcases r with failure | a
  · cases failure with
    | fault cause place => exact .inl h
    | _ => trivial
  · exact h

namespace Tidy

variable {e : Expr}

theorem of_still {x : Play α} (h : ∀ t : Table, (x.on t).2 = t) : Tidy e x := by
  intro t ht
  rw [h t]
  exact leaves_of_whole ht

theorem bind {x : Play α} {f : α → Play β} (hx : Tidy e x) (hf : ∀ a, Tidy e (f a)) : Tidy e (x >>= f) := by
  intro t ht
  have h := hx t ht
  rw [on_bind]
  generalize x.on t = r at h ⊢
  rcases r with ⟨failure | a, t₁⟩
  · cases failure with
    | fault cause place => exact h
    | _ => trivial
  · exact hf a t₁ h

theorem located {x : Play α} (op : Option Token) (h : Tidy e x) : Tidy e (at? op x) := by
  intro t ht
  have h := h t ht
  rw [on_at]
  generalize x.on t = r at h ⊢
  rcases r with ⟨failure | a, t₁⟩
  · -- a place changes nothing but where the fault happened
    cases op with
    | none => exact h
    | some op =>
      cases failure with
      | fault cause place =>
        cases place with
        | none =>
          change Leaves e (.error (if op.column = 0 then .fault cause none else .fault cause (some ⟨op.column, op.lexeme⟩)))
            t₁.sheet
          split <;> exact h
        | some place => exact h
      | _ => trivial
  · exact h

theorem substitute (context : Context) (slot : Slot) (key : Option Value) :
    Tidy e (Play.substitute context slot key) := by
  intro t ht
  rw [on_substitute]
  cases t.sheet.resolved slot with
  | some v => exact ht
  | none =>
    dsimp only
    generalize (keyText key).mapError Failure.lacking >>= lookUp context = r
    cases r with
    | error failure => exact leaves_of_whole ht
    | ok v => exact ht.resolve slot v

theorem once {slot : Slot} {count faces : Expr} {label : Option String} {modifier : Modifier}
    {comparison : Comparison} {target : Target Expr} {operands : Play Operands}
    (hpart : (Expr.dice slot count faces label modifier comparison target).PartOf e) (ho : Tidy e operands) :
    Tidy e (Play.once slot (operands >>= fun o =>
      make slot o.faces.toNat (roll modifier comparison o.target o.count.toNat o.faces.toNat))) := by
  intro t ht
  rw [on_once]
  cases t.sheet.result slot with
  | some x => exact ht
  | none =>
    refine ho.bind (fun o => ?_) t ht
    intro t₁ ht₁
    rw [on_make]
    dsimp only
    cases hr : (roll modifier comparison o.target o.count.toNat o.faces.toNat
        (t₁.script.map (faceOf o.faces.toNat))).outcome with
    | ok x => exact ht₁.settle slot _ x
    | error failure =>
      cases failure with
      | fault cause place =>
        obtain ⟨s, rfl, rfl, hx⟩ := select_of_fault hr
        exact .inr ⟨slot, _, _, _, _, s, _, _, rfl, hx, hpart, fun i hi => ht₁.record hi _⟩
      | _ => trivial

end Tidy

theorem tidy_congruence (setting : Setting) (e : Expr) :
    Congruence setting setting (·.PartOf e) fun x _ => Tidy e x where
  pure _ := .of_still fun _ => rfl
  throw _ := .of_still fun _ => rfl
  bind hx hf := hx.bind hf
  located op hx := hx.located op
  substitute slot key _ _ := .substitute _ slot key
  named target n _ := .of_still fun t => by rw [on_named]
  once _ _ _ _ _ _ _ hpart ho := .once hpart ho

end Play

theorem Expr.evaluate_tidy (setting : Setting) (e : Expr) : Play.Tidy e (e.evaluate setting) :=
  (Play.tidy_congruence setting e).evaluate fun _ hd => hd

namespace Form

/-- **A fault leaves no dice halfway, but for those whose number to keep or drop is not finite.** When the evaluation of
a form on which nothing is halfway ends with a fault, then nothing is halfway afterwards either, except the dice that
made the fault in this way; and what shows rolls and a result is not rolled again by any later evaluation. -/
theorem evaluate_leaves_whole {form : Form} (hform : form.sheet.Whole) {setting : Setting} {script : List Int}
    {cause : Fault} {place : Option Place} {table : Table}
    (h : form.evaluate setting script = (.error (.fault cause place), table)) :
    (table.sheet.Whole ∨ table.sheet.HalfwayIn form.expr cause) ∧
      ∀ slot, (table.sheet.result slot).isSome → ∀ setting' script',
        ({ form with sheet := table.sheet }.evaluate setting' script').2.sheet.rolls slot =
          table.sheet.rolls slot := by
  constructor
  · have hleaves := form.expr.evaluate_tidy setting ⟨form.sheet, script, []⟩ hform
    change Play.Leaves form.expr (form.evaluate setting script).1 (form.evaluate setting script).2.sheet at hleaves
    rw [h] at hleaves
    exact hleaves
  · intro slot hslot setting' script'
    obtain ⟨x, hx⟩ := Option.isSome_iff_exists.1 hslot
    exact ((form.expr.evaluate_orderly setting').grows ⟨table.sheet, script', []⟩).shown hx

theorem evaluate_leaves_whole_exploded : ∃ (e : Expr) (table : Table),
    Expr.ofText "2d6x6 + 3d@sides" = .ok e ∧ Sheet.blank.Whole ∧
      Form.evaluate { expr := e } ⟨[], .standard⟩ [6, 2, 5] =
        (.error (.fault (.missingKey "sides") (some ⟨7, "+"⟩)), table) ∧
      (table.sheet.Whole ∨ table.sheet.HalfwayIn e (.missingKey "sides")) ∧
        ∀ slot, (table.sheet.result slot).isSome → ∀ setting' script',
          (Form.evaluate { expr := e, sheet := table.sheet } setting' script').2.sheet.rolls slot =
            table.sheet.rolls slot := by
  obtain ⟨e, hread, hstop⟩ := Expr.exists_of_any "2d6x6 + 3d@sides"
    (fun e => (Form.evaluate { expr := e } ⟨[], .standard⟩ [6, 2, 5]).1 =
      .error (.fault (.missingKey "sides") (some ⟨7, "+"⟩))) (by decide +kernel)
  have hstop := of_decide_eq_true hstop
  exact ⟨e, _, hread, Sheet.whole_blank, Prod.ext hstop rfl,
    evaluate_leaves_whole Sheet.whole_blank (Prod.ext hstop rfl)⟩

/-- Dice of which an infinite number is to be kept fault after the roll, and are rolled again the next time. -/
theorem rolled_again : ∃ (e : Expr) (first second : Table),
    Expr.ofText "2d6kh=(1/0)" = .ok e ∧
      Form.evaluate { expr := e } ⟨[], .standard⟩ [3, 4] =
        (.error (.fault (.notFinite "Keep/drop count" (.infinite false)) none), first) ∧
      ¬ first.sheet.WholeAt 1 ∧ first.sheet.rolls 1 = [.ofNat 3, .ofNat 4] ∧
      second = (Form.evaluate { expr := e, sheet := first.sheet } ⟨[], .standard⟩ [5, 6]).2 ∧
      second.sheet.rolls 1 = [.ofNat 3, .ofNat 4, .ofNat 5, .ofNat 6] := by
  obtain ⟨e, hread, hrun⟩ := Expr.exists_of_any "2d6kh=(1/0)"
    (fun e =>
      let first := Form.evaluate { expr := e } ⟨[], .standard⟩ [3, 4]
      first.1 = .error (.fault (.notFinite "Keep/drop count" (.infinite false)) none) ∧
        first.2.sheet.rolls 1 = [.ofNat 3, .ofNat 4] ∧ first.2.sheet.result 1 = none ∧
          (Form.evaluate { expr := e, sheet := first.2.sheet } ⟨[], .standard⟩ [5, 6]).2.sheet.rolls 1 =
            [.ofNat 3, .ofNat 4, .ofNat 5, .ofNat 6])
    (by decide +kernel)
  obtain ⟨hstop, hrolls, hresult, hagain⟩ := of_decide_eq_true hrun
  refine ⟨e, _, _, hread, Prod.ext hstop rfl, ?_, hrolls, rfl, hagain⟩
  rintro (h | h)
  · rw [hrolls] at h
    cases h
  · rw [hresult] at h
    cases h

end Form

end DiceNotation
