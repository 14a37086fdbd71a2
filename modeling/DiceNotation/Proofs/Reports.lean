import DiceNotation.Proofs.Domain
import DiceNotation.Report

/-!
What reports tell.

A report is made in three steps by hand: the text is read, it is evaluated, and both forms are printed. It tells what
the evaluation of the text comes to: the value, or the trouble with it. A context whose numbers are none too large
leaves nothing for the forms to fail for, and then one thing alone leaves a text without a report: dice whose faces,
which are whole numbers, have a sum that is too large for a number.

Main statements: `Report.tells` and `Report.ofText_shaped`. That there are such dice is `Report.none_of_huge_faces`.
-/

namespace DiceNotation

/-! ### Contexts without numbers that are too large -/

/-- A truth value, a number or a string. -/
def Datum.Simple : Datum → Prop
  | .bool _ | .number _ | .string _ => True
  | _ => False

/-- All data of a context is such. -/
def Context.Simple (context : Context) : Prop := ∀ entry ∈ context, entry.2.Simple

theorem Context.Simple.not_tooLarge {context : Context} (h : context.Simple) : ¬ context.TooLarge := by
  rintro ⟨key, d, hd, hoverflow⟩
  obtain ⟨before, after, rfl, -⟩ := List.lookup_eq_some_iff.1 hd
  have hsimple : d.Simple := h (key, d) (List.mem_append_right _ List.mem_cons_self)
  cases d with
  | bool b => cases hoverflow
  | number x => cases hoverflow
  | string s => cases hoverflow
  | _ => exact hsimple

/-! ### The outcome of a text -/

instance {α : Type} (r : Except Trouble α) (t : Trouble) : Decidable (r = .error t) :=
  match r with
  | .ok _ => isFalse nofun
  | .error other => decidable_of_iff (other = t) ⟨congrArg _, Except.error.inj⟩

variable {setting : Setting} {context : Context} {source : String} {script : List Int}

theorem evaluateText_of_error {e : ReadError} (h : Form.ofText source = .error e) :
    evaluateText setting source script = (.error (.read e), .fresh script) := by
  rw [evaluateText, h]

theorem evaluateText_of_ok {form : Form} (h : Form.ofText source = .ok form) :
    evaluateText setting source script =
      ((form.evaluate setting script).1.mapError .play, (form.evaluate setting script).2) := by
  rw [evaluateText, h]
  dsimp only
  generalize form.evaluate setting script = played
  rcases played with ⟨failure | v, table⟩ <;> rfl

/-- **What a text is in trouble for**, that is not reported: a number that is too large, or a lack of rolls. -/
theorem unreported_of_evaluateText {t : Trouble} {table : Table}
    (h : evaluateText ⟨context, .standard⟩ source script = (.error t, table)) (ht : t.isReported = false) :
    (∃ faces, t = .play (.outOfRolls faces)) ∨
      t = .play .overflow ∧ (context.TooLarge ∨ ∃ e, Expr.ofText source = .ok e ∧ table.sheet.Overfull e) := by
  cases hread : Form.ofText source with
  | error e =>
    rw [evaluateText_of_error hread] at h
    cases h
    cases ht
  | ok form =>
    rw [evaluateText_of_ok hread] at h
    generalize hplayed : form.evaluate ⟨context, .standard⟩ script = played at h
    rcases played with ⟨failure | v, table'⟩
    · cases h
      cases Form.arises_of_evaluate (Form.expr_of_ofText hread) hplayed with
      | fault hcause => cases ht
      | datum hlarge => exact .inr ⟨rfl, .inl hlarge⟩
      | total hfull => exact .inr ⟨rfl, .inr ⟨form.expr, Form.expr_of_ofText hread, hfull⟩⟩
      | outOfRolls => exact .inl ⟨_, rfl⟩
    · cases h

namespace Report

/-! ### What a report tells -/

/-- What becomes of the outcome of a text in a report: a value stands there with its two forms, trouble that is to be
reported stands there alone, and other trouble leaves no report. -/
inductive Tells : Except Trouble (Option Value) → Except Trouble Report → Prop where
  | value (v : Option Value) (prefixed rolled : String) :
      Tells (.ok v) (.ok ⟨some (Value.resultText v), some prefixed, some rolled, none⟩)
  | reported {t : Trouble} (h : t.isReported = true) : Tells (.error t) (.ok (ofError t.message))
  | other {t : Trouble} (h : t.isReported = false) : Tells (.error t) (.error t)

theorem tells_error (t : Trouble) :
    Tells (.error t) (if t.isReported then .ok (ofError t.message) else .error t) := by
  by_cases h : t.isReported
  · rw [if_pos h]
    exact .reported h
  · rw [if_neg h]
    exact .other (Bool.eq_false_iff.2 h)

/-- **A report tells the outcome of its text**, and its evaluation leaves the same table. -/
theorem tells (hcontext : ¬ setting.context.TooLarge) (source : String) (script : List Int) :
    Tells (evaluateText setting source script).1 (ofText setting source script).1 ∧
      (ofText setting source script).2 = (evaluateText setting source script).2 := by
  unfold ofText
  cases hread : Form.ofText source with
  | error e =>
    rw [evaluateText_of_error hread]
    exact ⟨tells_error (.read e), rfl⟩
  | ok form =>
    rw [evaluateText_of_ok hread]
    dsimp only
    generalize form.evaluate setting script = played
    rcases played with ⟨failure | v, table⟩
    · exact ⟨tells_error (.play failure), rfl⟩
    · have hfits := Expr.fits_of_ofText (Form.expr_of_ofText hread)
      obtain ⟨prefixed, hprefixed⟩ := Expr.exists_prefixText hfits table.sheet hcontext
      obtain ⟨rolled, hrolled⟩ := Expr.exists_rolledText hfits table.sheet
      simp only [Form.prefixText, Form.rolledText, hprefixed, hrolled]
      exact ⟨.value v prefixed rolled, trivial⟩

/-! ### The shape of a report -/

/-- A report holds a result with both forms and no error, or an error and nothing else. -/
inductive Shaped : Report → Prop where
  | value (result prefixed rolled : String) : Shaped ⟨some result, some prefixed, some rolled, none⟩
  | error (message : String) : Shaped ⟨none, none, none, some message⟩

/-- **A text has a report of one of two shapes**, on every context whose numbers are none too large and on every
script that does not run out, unless dice of it have too large a sum. -/
theorem ofText_shaped (hcontext : ¬ context.TooLarge)
    (hended : ∀ faces, (ofText ⟨context, .standard⟩ source script).1 ≠ .error (.play (.outOfRolls faces))) :
    (∃ r, (ofText ⟨context, .standard⟩ source script).1 = .ok r ∧ r.Shaped) ∨
      (ofText ⟨context, .standard⟩ source script).1 = .error (.play .overflow) ∧
        ∃ e, Expr.ofText source = .ok e ∧ (ofText ⟨context, .standard⟩ source script).2.sheet.Overfull e := by
  obtain ⟨htells, htable⟩ := @tells ⟨context, .standard⟩ hcontext source script
  generalize hmade : ofText ⟨context, .standard⟩ source script = made at htells htable hended ⊢
  obtain ⟨r, table⟩ := made
  generalize hplayed : evaluateText ⟨context, .standard⟩ source script = played at htells htable
  obtain ⟨outcome, table'⟩ := played
  obtain rfl : table = table' := htable
  dsimp only at htells hended ⊢
  cases htells with
  | value v prefixed rolled => exact .inl ⟨_, rfl, .value _ prefixed rolled⟩
  | @reported t h => exact .inl ⟨_, rfl, .error t.message⟩
  | @other t h =>
    rcases unreported_of_evaluateText hplayed h with ⟨faces, rfl⟩ | ⟨rfl, hlarge | hfull⟩
    · exact absurd rfl (hended faces)
    · exact absurd hlarge hcontext
    · exact .inr ⟨rfl, hfull⟩

theorem ofText_shaped_rolled :
    let context : Context := [("sides", .number (.ofNat 6)), ("lucky", .bool true), ("name", .string "rogue")]
    (¬ context.TooLarge ∧ ∀ faces,
        (ofText ⟨context, .standard⟩ "@lucky ? 2d@sides : @name" [3, 4]).1 ≠ .error (.play (.outOfRolls faces))) ∧
      ((∃ r, (ofText ⟨context, .standard⟩ "@lucky ? 2d@sides : @name" [3, 4]).1 = .ok r ∧ r.Shaped) ∨
        (ofText ⟨context, .standard⟩ "@lucky ? 2d@sides : @name" [3, 4]).1 = .error (.play .overflow) ∧
          ∃ e, Expr.ofText "@lucky ? 2d@sides : @name" = .ok e ∧
            (ofText ⟨context, .standard⟩ "@lucky ? 2d@sides : @name" [3, 4]).2.sheet.Overfull e) := by
  intro context
  have hcontext : ¬ context.TooLarge := by
    apply Context.Simple.not_tooLarge
    simp [context, Context.Simple, Datum.Simple]
  have hended : ∀ faces,
      (ofText ⟨context, .standard⟩ "@lucky ? 2d@sides : @name" [3, 4]).1 ≠ .error (.play (.outOfRolls faces)) := by
    have hok : (ofText ⟨context, .standard⟩ "@lucky ? 2d@sides : @name" [3, 4]).1.isOk = true := by decide +kernel
    intro faces h
    rw [h] at hok
    cases hok
  exact ⟨⟨hcontext, hended⟩, ofText_shaped hcontext hended⟩

/-- Two dice with so many faces that each shows a number, but their sum is none, leave a text without a report. -/
theorem none_of_huge_faces :
    let sides : Number := .ofDecimal false 1 308
    sides.isFinite = true ∧
      (ofText ⟨[("sides", .number sides)], .standard⟩ "2d@sides" [0, 0]).1 = .error (.play .overflow) := by
  decide +kernel

end Report

end DiceNotation
