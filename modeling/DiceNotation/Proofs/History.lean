import DiceNotation.Proofs.Replay
import DiceNotation.Proofs.Slots

/-!
Forms over any number of evaluations.

The expression of a form never changes, and its sheet is written once: rolls are added at the end of those that
stand there, a result closes them, and a substitution is settled with what the context of one evaluation has under its
key. The step is an evaluation of any outcome, the run a list of them.

Main statement: `Form.written_once`.
-/

namespace DiceNotation

/-- The context has the value under the key of a substitution. -/
def Context.Gives (context : Context) (key : Option Value) (v : Value) : Prop :=
  ∃ k d, keyText key = .ok k ∧ context.get? k = some d ∧ d.toValue = .ok v

namespace Play

variable {α β : Type}

theorem gives_of_lookUp {context : Context} {key : Option Value} {v : Value}
    (h : (keyText key).mapError Failure.lacking >>= lookUp context = .ok v) : context.Gives key v := by
  cases hk : keyText key with
  | error l => rw [hk] at h; cases h
  | ok k =>
    rw [hk] at h
    change lookUp context k = .ok v at h
    unfold lookUp at h
    cases hd : context.get? k with
    | none => rw [hd] at h; cases h
    | some d =>
      rw [hd] at h
      change requireValue d = .ok v at h
      refine ⟨k, d, hk, hd, ?_⟩
      unfold requireValue at h
      split at h
      · next hv =>
        cases h
        exact hv
      · cases h
      · cases h

/-! ### Settled substitutions -/

/-- Of the substitutions the step settles only open ones of `e`, each with the value that the context gives to its
key. -/
def Settles (context : Context) (e : Expr) (x : Play α) : Prop :=
  ∀ (t : Table) (slot : Slot), (x.on t).2.sheet.resolved slot = t.sheet.resolved slot ∨
    t.sheet.resolved slot = none ∧ ∃ key label v, (Expr.substitution slot key label).PartOf e ∧
      context.Gives key v ∧ (x.on t).2.sheet.resolved slot = some v

namespace Settles

variable {context : Context} {e : Expr}

theorem of_resolved {x : Play α} (h : ∀ t : Table, (x.on t).2.sheet.resolved = t.sheet.resolved) :
    Settles context e x := by
  intro t slot
  left
  rw [h]

theorem bind {x : Play α} {f : α → Play β} (hx : Settles context e x) (hf : ∀ a, Settles context e (f a)) :
    Settles context e (x >>= f) := by
  intro t slot
  have h := hx t slot
  rw [on_bind]
  generalize x.on t = r at h ⊢
  rcases r with ⟨failure | a, t₁⟩
  · exact h
  · rcases h with h | ⟨hnone, key, label, v, hpart, hv, h⟩
    · dsimp only at h ⊢
      rw [← h]
      exact hf a t₁ slot
    · -- what the first step settled is no longer open for the second one
      right
      refine ⟨hnone, key, label, v, hpart, hv, ?_⟩
      rcases hf a t₁ slot with h' | ⟨h', -⟩
      · exact h'.trans h
      · exact absurd (h'.symm.trans h) (by simp)

theorem located {x : Play α} (op : Option Token) (h : Settles context e x) : Settles context e (at? op x) := by
  intro t slot
  rw [on_at]
  exact h t slot

theorem substitute {slot : Slot} {key : Option Value} {label : Option String}
    (hpart : (Expr.substitution slot key label).PartOf e) :
    Settles context e (Play.substitute context slot key) := by
  intro t i
  rw [on_substitute]
  cases hr : t.sheet.resolved slot with
  | some v => exact .inl rfl
  | none =>
    dsimp only
    cases hv : (keyText key).mapError Failure.lacking >>= lookUp context with
    | error failure => exact .inl rfl
    | ok v =>
      by_cases hi : i = slot
      · subst hi
        exact .inr ⟨hr, key, label, v, hpart, gives_of_lookUp hv, by simp⟩
      · left
        simp [hi]

theorem make (slot : Slot) (faces : Nat) (rule : List Nat → Roll) :
    Settles context e (Play.make slot faces rule) := by
  refine .of_resolved fun t => ?_
  rw [on_make]
  dsimp only
  cases (rule (t.script.map (faceOf faces))).outcome <;> rfl

theorem once {slot : Slot} {step : Play Number} (h : Settles context e step) :
    Settles context e (Play.once slot step) := by
  intro t i
  rw [on_once]
  cases t.sheet.result slot with
  | some x => exact .inl rfl
  | none => exact h t i

end Settles

theorem settles_congruence (setting : Setting) (e : Expr) :
    Congruence setting setting (·.PartOf e) fun x _ => Settles setting.context e x where
  pure _ := .of_resolved fun _ => rfl
  throw _ := .of_resolved fun _ => rfl
  bind hx hf := hx.bind hf
  located op hx := hx.located op
  substitute _ _ _ hpart := .substitute hpart
  named target n _ := .of_resolved fun t => by rw [on_named]
  once _ _ _ _ _ _ _ _ ho := .once (ho.bind fun _ => .make _ _ _)

end Play

theorem Expr.evaluate_settles (setting : Setting) (e : Expr) :
    Play.Settles setting.context e (e.evaluate setting) :=
  (Play.settles_congruence setting e).evaluate fun _ hd => hd

/-! ### Histories -/

namespace Form

/-- A form after one more evaluation. -/
def next (form : Form) (run : Setting × List Int) : Form :=
  { form with sheet := (form.evaluate run.1 run.2).2.sheet }

theorem next_grows (form : Form) (run : Setting × List Int) :
    form.sheet.Growth form.expr.slots (form.next run).sheet :=
  (form.expr.evaluate_orderly run.1).grows ⟨form.sheet, run.2, []⟩

theorem expr_foldl_next (form : Form) (history : List (Setting × List Int)) : (history.foldl next form).expr = form.expr := by
  induction history generalizing form with
  | nil => rfl
  | cons run history ih => exact ih (form.next run)

theorem foldl_next_grows (form : Form) (history : List (Setting × List Int)) :
    form.sheet.Growth form.expr.slots (history.foldl next form).sheet := by
  induction history generalizing form with
  | nil => exact .refl _ _
  | cons run history ih => exact (form.next_grows run).trans (ih (form.next run))

/-- A substitution that is settled at the end and was open at the beginning was settled by one evaluation, with what
its context has. -/
theorem exists_settling (form : Form) (hform : form.expr.Coherent) {slot : Slot} {key : Option Value} {label : Option String}
    (hpart : (Expr.substitution slot key label).PartOf form.expr) {history : List (Setting × List Int)} {v : Value}
    (hopen : form.sheet.resolved slot = none) (h : (history.foldl next form).sheet.resolved slot = some v) :
    ∃ before setting script after, history = before ++ (setting, script) :: after ∧
      (before.foldl next form).sheet.resolved slot = none ∧ setting.context.Gives key v ∧
        ((before.foldl next form).next (setting, script)).sheet.resolved slot = some v := by
  induction history generalizing form with
  | nil =>
    rw [List.foldl_nil, hopen] at h
    cases h
  | cons run history ih =>
    obtain ⟨setting, script⟩ := run
    rw [List.foldl_cons] at h
    cases hnext : (form.next (setting, script)).sheet.resolved slot with
    | none =>
      obtain ⟨before, setting', script', after, hhistory, hbefore, hgives, hafter⟩ :=
        ih (form.next (setting, script)) hform hpart hnext h
      exact ⟨(setting, script) :: before, setting', script', after, by rw [hhistory]; rfl, hbefore, hgives, hafter⟩
    | some w =>
      -- the first evaluation settled it, and the later ones keep it
      have hlater := (foldl_next_grows _ history).resolved hnext
      obtain rfl : v = w := Option.some.inj (h.symm.trans hlater)
      refine ⟨[], setting, script, history, rfl, hopen, ?_, hnext⟩
      rcases form.expr.evaluate_settles setting ⟨form.sheet, script, []⟩ slot with
        hr | ⟨-, key', label', w, hpart', hgives, hr⟩
      · exact absurd (hnext.symm.trans (hr.trans hopen)) (by simp)
      · obtain rfl : v = w := Option.some.inj (hnext.symm.trans hr)
        cases hform _ _ slot hpart hpart' rfl rfl
        exact hgives

/-- What evaluations leave of a form, whatever their settings and scripts, and however they end. -/
structure WrittenOnce (form : Form) (history : List (Setting × List Int)) : Prop where
  /-- The expression with its tokens, labels, modifiers and comparisons stays. -/
  expr : (history.foldl next form).expr = form.expr
  /-- Rolls are only added, at the end. -/
  rolls : ∀ slot, form.sheet.rolls slot <+: (history.foldl next form).sheet.rolls slot
  /-- Dice with a result keep it, and the rolls they show. -/
  result : ∀ slot x, form.sheet.result slot = some x →
    (history.foldl next form).sheet.result slot = some x ∧
      (history.foldl next form).sheet.rolls slot = form.sheet.rolls slot
  /-- A substitution with a value keeps it. -/
  resolved : ∀ slot v, form.sheet.resolved slot = some v → (history.foldl next form).sheet.resolved slot = some v
  /-- An open substitution that has a value at the end got it in one evaluation, from the context of that one. -/
  settled : ∀ slot key label, (Expr.substitution slot key label).PartOf form.expr →
    form.sheet.resolved slot = none → ∀ v, (history.foldl next form).sheet.resolved slot = some v →
      ∃ before setting script after, history = before ++ (setting, script) :: after ∧
        (before.foldl next form).sheet.resolved slot = none ∧ setting.context.Gives key v ∧
          ((before.foldl next form).next (setting, script)).sheet.resolved slot = some v

/-- **A form is written once**, over any history of evaluations. -/
theorem written_once {form : Form} (hform : form.expr.Coherent) (history : List (Setting × List Int)) :
    form.WrittenOnce history := by
  have hgrows := form.foldl_next_grows history
  constructor
  · exact form.expr_foldl_next history
  · exact hgrows.rolls
  · intro slot x hx
    exact ⟨hgrows.result hx, hgrows.shown hx⟩
  · intro slot v hv
    exact hgrows.resolved hv
  · intro slot key label hpart hopen v hv
    exact form.exists_settling hform hpart hopen hv

theorem coherent_twice : twice.expr.Coherent := by
  have hparts : ∀ slot, ∃ d₀, twice.expr.Everywhere fun d => d.slot? = some slot → d = d₀ := by
    intro slot
    by_cases h : slot = 0
    · subst h
      exact ⟨.dice 0 (.literal (some (.number (.ofNat 2))) none) (.substitution 1 (some (.string "faces")) none) none
        .countSuccesses .equal .faces, by simp [twice, Expr.slot?]⟩
    · exact ⟨.substitution 1 (some (.string "faces")) none, by simp [twice, Expr.slot?, Ne.symm h]⟩
  intro d d' slot hd hd' hslot hslot'
  obtain ⟨d₀, h⟩ := hparts slot
  rw [h d hd hslot, h d' hd' hslot']

/-- The first evaluation lacks a key, the second one a roll, the third one ends. -/
theorem written_once_twice : twice.expr.Coherent ∧
    twice.WrittenOnce [(⟨[], .standard⟩, [1, 1]), (⟨[("faces", .int 6)], .standard⟩, [6]),
      (⟨[("faces", .int 4)], .standard⟩, [5, 2])] :=
  ⟨coherent_twice, written_once coherent_twice _⟩

end Form

end DiceNotation
