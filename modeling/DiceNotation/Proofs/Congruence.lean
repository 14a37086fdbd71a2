import DiceNotation.Evaluate
import DiceNotation.Proofs.Parts

/-!
One induction for all evaluations.

An evaluation is put together from few kinds of steps. What holds of these, and holds of two steps in a row when it
holds of each, holds of the evaluation: `Play.Congruence` lists what is to be shown, of one evaluation or of two
evaluations side by side, and `Congruence.evaluate` concludes.
-/

namespace DiceNotation

namespace Expr

open Play

variable (setting : Setting)

/-- Evaluates the target of the modifier of dice with these faces. -/
def evaluateTarget (modifier : Modifier) (faces : Expr) : Target Expr → Play (Option Value)
  | .absent => throw (.fault (.noTarget modifier) none)
  | .faces => faces.evaluate setting
  | .value target => target.evaluate setting

/-- Evaluates the operands of dice. -/
def evaluateOperands (count faces : Expr) (modifier : Modifier) (target : Target Expr) : Play Operands :=
  operands modifier (count.evaluate setting) (faces.evaluate setting) (evaluateTarget setting modifier faces target)

theorem evaluate_dice (slot : Slot) (count faces : Expr) (label : Option String) (modifier : Modifier)
    (comparison : Comparison) (target : Target Expr) :
    (Expr.dice slot count faces label modifier comparison target).evaluate setting =
      (once slot (evaluateOperands setting count faces modifier target >>= fun o =>
        make slot o.faces.toNat (roll modifier comparison o.target o.count.toNat o.faces.toNat)) >>= fun x =>
        pure (some (.number x))) := by
  cases target <;> rfl

/-! ### Lists in turn -/

theorem evaluateAll_eq_mapM (es : List Expr) : evaluateAll setting es = es.mapM (·.evaluate setting) := by
  induction es with
  | nil => rfl
  | cons e es ih =>
    rw [List.mapM_cons, ← ih]
    rfl

/-- Evaluates an entry of a pool, which has to be a number. -/
def evaluateEntry (e : Expr) : Play Number := do
  let v ← e.evaluate setting
  lift (requireRole .poolEntry v)

theorem evaluateEntries_eq_mapM (es : List Expr) : evaluateEntries setting es = es.mapM (evaluateEntry setting) := by
  induction es with
  | nil => rfl
  | cons e es ih =>
    rw [List.mapM_cons, ← ih, evaluateEntry, bind_assoc]
    rfl

end Expr

namespace Play

/-- What is to be shown of the steps of evaluations on two settings for `R` to hold of the evaluations of every
expression whose parts all satisfy `Q`. -/
structure Congruence (setting setting' : Setting) (Q : Expr → Prop) (R : ∀ {α : Type}, Play α → Play α → Prop) :
    Prop where
  pure {α : Type} (a : α) : R (Pure.pure a) (Pure.pure a)
  throw {α : Type} (failure : Failure) : R (MonadExcept.throw failure : Play α) (MonadExcept.throw failure)
  bind {α β : Type} {x x' : Play α} {f f' : α → Play β} (hx : R x x') (hf : ∀ a, R (f a) (f' a)) :
    R (x >>= f) (x' >>= f')
  located {α : Type} {x x' : Play α} (op : Option Token) (hx : R x x') : R (at? op x) (at? op x')
  substitute (slot : Slot) (key : Option Value) (label : Option String) (hQ : Q (.substitution slot key label)) :
    R (Play.substitute setting.context slot key) (Play.substitute setting'.context slot key)
  named (target : Expr) (arguments : Nat) (hQ : Q target) :
    R (Play.named setting.builtins target arguments) (Play.named setting'.builtins target arguments)
  once (slot : Slot) (count faces : Expr) (label : Option String) (modifier : Modifier) (comparison : Comparison)
    (target : Target Expr) (hQ : Q (.dice slot count faces label modifier comparison target))
    (ho : R (count.evaluateOperands setting faces modifier target)
      (count.evaluateOperands setting' faces modifier target)) :
    R (Play.once slot (count.evaluateOperands setting faces modifier target >>= fun o =>
        make slot o.faces.toNat (roll modifier comparison o.target o.count.toNat o.faces.toNat)))
      (Play.once slot (count.evaluateOperands setting' faces modifier target >>= fun o =>
        make slot o.faces.toNat (roll modifier comparison o.target o.count.toNat o.faces.toNat)))

namespace Congruence

variable {setting setting' : Setting} {Q : Expr → Prop} {R : ∀ {α : Type}, Play α → Play α → Prop}
  (h : Congruence setting setting' Q R)

include h

theorem lift {α : Type} (r : Except Fault α) : R (Play.lift r) (Play.lift r) := by
  cases r with
  | error cause => exact h.throw _
  | ok a => exact h.pure a

theorem ofOutcome {α : Type} (r : Except Failure α) : R (Play.ofOutcome r) (Play.ofOutcome r) := by
  cases r with
  | error failure => exact h.throw failure
  | ok a => exact h.pure a

theorem wholeOperand {x x' : Play (Option Value)} (role : Role) (what : String) (hx : R x x') :
    R (Play.wholeOperand role what x) (Play.wholeOperand role what x') :=
  h.bind hx fun _ => h.bind (h.lift _) fun _ => h.lift _

theorem targetNumber {x x' : Play (Option Value)} (modifier : Modifier) (hx : R x x') :
    R (Play.targetNumber modifier x) (Play.targetNumber modifier x') := by
  unfold Play.targetNumber
  split
  · exact h.pure _
  · exact h.bind hx fun v => h.lift _

theorem operands {modifier : Modifier} {count faces target count' faces' target' : Play (Option Value)}
    (hc : R count count') (hf : R faces faces') (ht : R target target') :
    R (Play.operands modifier count faces target) (Play.operands modifier count' faces' target') :=
  h.bind (h.wholeOperand _ _ hc) fun _ => h.bind (h.wholeOperand _ _ hf) fun _ => h.bind (h.lift _) fun _ =>
    h.bind (h.targetNumber modifier ht) fun _ => h.pure _

theorem evaluateTarget {faces : Expr} {target : Target Expr} (modifier : Modifier)
    (hf : R (faces.evaluate setting) (faces.evaluate setting'))
    (ht : ∀ e, target = .value e → R (e.evaluate setting) (e.evaluate setting')) :
    R (Expr.evaluateTarget setting modifier faces target) (Expr.evaluateTarget setting' modifier faces target) := by
  cases target with
  | absent => exact h.throw _
  | faces => exact hf
  | value target => exact ht target rfl

theorem evaluateOperands {count faces : Expr} {target : Target Expr} (modifier : Modifier)
    (hc : R (count.evaluate setting) (count.evaluate setting'))
    (hf : R (faces.evaluate setting) (faces.evaluate setting'))
    (ht : ∀ e, target = .value e → R (e.evaluate setting) (e.evaluate setting')) :
    R (count.evaluateOperands setting faces modifier target)
      (count.evaluateOperands setting' faces modifier target) :=
  h.operands hc hf (h.evaluateTarget modifier hf ht)

theorem mapM {α : Type} {f f' : Expr → Play α} {es : List Expr} (he : ∀ e ∈ es, R (f e) (f' e)) :
    R (es.mapM f) (es.mapM f') := by
  induction es with
  | nil => exact h.pure []
  | cons e es ih =>
    have hes := ih fun e' he' => he e' (List.mem_cons_of_mem _ he')
    rw [List.mapM_cons, List.mapM_cons]
    exact h.bind (he e List.mem_cons_self) fun b => h.bind hes fun bs => h.pure (b :: bs)

theorem evaluateEntry {e : Expr} (he : R (e.evaluate setting) (e.evaluate setting')) :
    R (e.evaluateEntry setting) (e.evaluateEntry setting') :=
  h.bind he fun _ => h.lift _

/-- **What holds of the steps holds of the evaluation.** -/
theorem evaluate {e : Expr} (he : e.Everywhere Q) : R (e.evaluate setting) (e.evaluate setting') := by
  induction e using Expr.ind with
  | literal v label => exact h.pure v
  | substitution slot key label => exact h.bind (h.substitute slot key label he.self) fun v => h.pure _
  | group inner ih => exact ih (Expr.everywhere_group.1 he).2
  | unary op operand ih =>
    have hv := ih (Expr.everywhere_unary.1 he).2
    exact h.located op (h.bind hv fun v => h.bind (h.ofOutcome _) fun op => h.bind (h.lift _) fun r => h.pure _)
  | binary op left right ihl ihr =>
    obtain ⟨-, hl, hr⟩ := Expr.everywhere_binary.1 he
    have hv := ihl hl
    have hw := ihr hr
    exact h.located op (h.bind hv fun v => h.bind hw fun w => h.bind (h.ofOutcome _) fun op =>
      h.bind (h.lift _) fun r => h.pure _)
  | choice c t e ihc iht ihe =>
    obtain ⟨-, hc, ht, he⟩ := Expr.everywhere_choice.1 he
    refine h.bind (ihc hc) fun v => ?_
    split
    · exact iht ht
    · exact ihe he
  | call callee token arguments ihc iha =>
    obtain ⟨-, hcallee, ha⟩ := Expr.everywhere_call.1 he
    have hvs := h.mapM fun a hm => iha a hm (ha a hm)
    rw [← Expr.evaluateAll_eq_mapM, ← Expr.evaluateAll_eq_mapM] at hvs
    exact h.located token (h.bind (h.named _ _ hcallee.self) fun f => h.bind hvs fun vs => h.bind (h.ofOutcome _) fun r =>
      h.pure _)
  | dice slot count faces label modifier comparison target ihc ihf iht =>
    obtain ⟨hQ, hc, hf, ht⟩ := Expr.everywhere_dice.1 he
    have ho := h.evaluateOperands modifier (ihc hc) (ihf hf) fun e he => iht e he (ht e he)
    rw [Expr.evaluate_dice, Expr.evaluate_dice]
    exact h.bind (h.once slot count faces label modifier comparison target hQ ho) fun x => h.pure _
  | pool entries modifier comparison target ihe iht =>
    obtain ⟨-, hes, ht⟩ := Expr.everywhere_pool.1 he
    have hxs := h.mapM fun a hm => h.evaluateEntry (ihe a hm (hes a hm))
    rw [← Expr.evaluateEntries_eq_mapM, ← Expr.evaluateEntries_eq_mapM] at hxs
    cases target with
    | none => exact h.bind hxs fun xs => h.throw _
    | some target =>
      have hv := iht target rfl (ht target rfl)
      exact h.bind hxs fun xs => h.bind hv fun v => h.bind (h.lift _) fun x => h.bind (h.lift _) fun r => h.pure _
  | foreign text => exact h.throw _

end Congruence

end Play

end DiceNotation
