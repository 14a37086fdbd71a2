import DiceNotation.Proofs.Grammar
import DiceNotation.Proofs.Replay
import DiceNotation.Proofs.Slots

/-!
The parts that an evaluation comes to.

`Enters` has one rule for each place at which the evaluation of an expression begins to evaluate a part, with the
tables of both moments; `Visits` is any number of such steps down. A run changes nothing but what it visits, and what
a visited part has settled is settled at the end.

Main statements:
* `Visits.leads`: what a visited part leaves is kept, and it succeeds where the whole does;
* `evaluate_confined`: where the sheet changes, a part was visited that it did not show yet.
-/

namespace DiceNotation

open Play

/-! ### Parts at work -/

/-- The evaluation of an expression at a table begins that of a direct part at a later one. -/
inductive Enters (setting : Setting) : Expr → Table → Expr → Table → Prop where
  | group {inner : Expr} {t : Table} : Enters setting (.group inner) t inner t
  | operand {op : Option Token} {operand : Expr} {t : Table} : Enters setting (.unary op operand) t operand t
  | left {op : Option Token} {left right : Expr} {t : Table} : Enters setting (.binary op left right) t left t
  | right {op : Option Token} {left right : Expr} {t u : Table} {v : Option Value}
      (h : (left.evaluate setting).on t = (.ok v, u)) : Enters setting (.binary op left right) t right u
  | condition {condition consequent alternative : Expr} {t : Table} :
      Enters setting (.choice condition consequent alternative) t condition t
  /-- The condition decides which branch is entered. -/
  | branch {condition consequent alternative : Expr} {t u : Table} {v : Option Value}
      (h : (condition.evaluate setting).on t = (.ok v, u)) :
      Enters setting (.choice condition consequent alternative) t
        (if Value.isTruthy v then consequent else alternative) u
  | argument {callee a : Expr} {token : Option Token} {arguments before after : List Expr} {t u : Table} {f : Builtin}
      {vs : List (Option Value)} (hf : (named setting.builtins callee arguments.length).on t = (.ok f, t))
      (hs : arguments = before ++ a :: after) (h : (Expr.evaluateAll setting before).on t = (.ok vs, u)) :
      Enters setting (.call callee token arguments) t a u
  /-- Dice with a result look at no operand. -/
  | count {slot : Slot} {count faces : Expr} {label : Option String} {modifier : Modifier} {comparison : Comparison}
      {target : Target Expr} {t : Table} (hopen : t.sheet.result slot = none) :
      Enters setting (.dice slot count faces label modifier comparison target) t count t
  | faces {slot : Slot} {count faces : Expr} {label : Option String} {modifier : Modifier} {comparison : Comparison}
      {target : Target Expr} {t u : Table} {n : Int} (hopen : t.sheet.result slot = none)
      (hn : (wholeOperand .count "Dice number" (count.evaluate setting)).on t = (.ok n, u)) :
      Enters setting (.dice slot count faces label modifier comparison target) t faces u
  | target {slot : Slot} {count faces e : Expr} {label : Option String} {modifier : Modifier} {comparison : Comparison}
      {target : Target Expr} {t t₁ u : Table} {n f : Int} (hopen : t.sheet.result slot = none)
      (hn : (wholeOperand .count "Dice number" (count.evaluate setting)).on t = (.ok n, t₁))
      (hf : (wholeOperand .faces "Dice faces" (faces.evaluate setting)).on t₁ = (.ok f, u))
      (hr : requireFaces n f = .ok ()) (hm : modifier ≠ .plain) (he : target.expr? faces = some e) :
      Enters setting (.dice slot count faces label modifier comparison target) t e u
  | entry {a : Expr} {entries before after : List Expr} {modifier : Modifier} {comparison : Comparison}
      {target : Option Expr} {t u : Table} {xs : List Number} (hs : entries = before ++ a :: after)
      (h : (Expr.evaluateEntries setting before).on t = (.ok xs, u)) :
      Enters setting (.pool entries modifier comparison target) t a u
  | poolTarget {target : Expr} {entries : List Expr} {modifier : Modifier} {comparison : Comparison} {t u : Table}
      {xs : List Number} (h : (Expr.evaluateEntries setting entries).on t = (.ok xs, u)) :
      Enters setting (.pool entries modifier comparison (some target)) t target u

/-- The evaluation of an expression at a table comes to a part at a later one. -/
inductive Visits (setting : Setting) : Expr → Table → Expr → Table → Prop where
  | self (e : Expr) (t : Table) : Visits setting e t e t
  | part {e c d : Expr} {t u w : Table} (h : Enters setting e t c u) (hd : Visits setting c u d w) :
      Visits setting e t d w

variable {setting : Setting} {e c d : Expr} {t u w : Table}

theorem Enters.mem_children (h : Enters setting e t c u) : ∃ es, e.children = .ok es ∧ c ∈ es := by
  cases h with
  | group => exact ⟨_, rfl, by simp⟩
  | operand => exact ⟨_, rfl, by simp⟩
  | left => exact ⟨_, rfl, by simp⟩
  | right h => exact ⟨_, rfl, by simp⟩
  | condition => exact ⟨_, rfl, by simp⟩
  | branch h => exact ⟨_, rfl, by split <;> simp⟩
  | argument hf hs h => exact ⟨_, rfl, by simp [hs]⟩
  | count hopen =>
    obtain ⟨es, he, hes⟩ := Expr.children_dice _ _ _ _ _ _ _
    exact ⟨es, he, (hes _).2 (.inl rfl)⟩
  | faces hopen hn =>
    obtain ⟨es, he, hes⟩ := Expr.children_dice _ _ _ _ _ _ _
    exact ⟨es, he, (hes _).2 (.inr (.inl rfl))⟩
  | @target _ _ _ _ _ _ _ target _ _ _ _ _ hopen hn hf hr hm hc =>
    obtain ⟨es, he, hes⟩ := Expr.children_dice _ _ _ _ _ _ _
    refine ⟨es, he, (hes _).2 (.inr ?_)⟩
    cases target with
    | absent => cases hc
    | faces => cases hc; exact .inl rfl
    | value e => cases hc; exact .inr rfl
  | entry hs h =>
    obtain ⟨es, he, hes⟩ := Expr.children_pool _ _ _ _
    exact ⟨es, he, (hes _).2 (.inl (by simp [hs]))⟩
  | poolTarget h => exact ⟨_, rfl, by simp⟩

theorem Visits.partOf (h : Visits setting e t d u) : d.PartOf e := by
  induction h with
  | self e t => exact .self e
  | part h _ ih =>
    obtain ⟨es, he, hc⟩ := h.mem_children
    exact .child he hc ih

theorem Visits.trans (h : Visits setting e t c u) (h' : Visits setting c u d w) : Visits setting e t d w := by
  induction h with
  | self e t => exact h'
  | part h _ ih => exact .part h (ih h')

theorem Visits.enters (h : Visits setting e t c u) (h' : Enters setting c u d w) : Visits setting e t d w :=
  h.trans (.part h' (.self d w))

namespace Play

variable {α β γ : Type}

/-! ### Steps that lead to others -/

/-- The first step at its table comes to the second one at another: what the second one leaves is kept, and it succeeds
where the first one does. -/
structure Leads (x : Play α) (t : Table) (y : Play β) (u : Table) : Prop where
  kept : (y.on u).2.sheet.Kept (x.on t).2.sheet
  ok : ∀ {a t'}, x.on t = (.ok a, t') → ∃ b u', y.on u = (.ok b, u')

theorem on_at_eq_ok {op : Option Token} {x : Play α} {t t' : Table} {a : α} (h : (at? op x).on t = (.ok a, t')) :
    x.on t = (.ok a, t') := by
  rw [on_at] at h
  generalize x.on t = r at h
  rcases r with ⟨failure | b, t₁⟩
  · cases h
  · cases h
    rfl

namespace Orderly

variable {slots : List Slot} {x : Play (Option Value)}

protected theorem lift (r : Except Fault α) : Orderly slots (Play.lift r) :=
  .of_still (r := fun _ => r.mapError (.fault · none)) (on_lift r)

protected theorem ofOutcome (r : Except Failure α) : Orderly slots (Play.ofOutcome r) :=
  .of_still (r := fun _ => r) (on_ofOutcome r)

theorem wholeOperand (hx : Orderly slots x) (role : Role) (what : String) :
    Orderly slots (Play.wholeOperand role what x) :=
  hx.bind fun _ => (Orderly.lift _).bind fun _ => .lift _

theorem targetNumber (modifier : Modifier) (hx : Orderly slots x) : Orderly slots (Play.targetNumber modifier x) := by
  unfold Play.targetNumber
  split
  · exact .pure _
  · exact hx.bind fun v => .lift _

theorem mapM {f : Expr → Play α} {es : List Expr} (hf : ∀ e, e ∈ es → Orderly slots (f e)) :
    Orderly slots (es.mapM f) := by
  induction es with
  | nil => exact .pure []
  | cons e es ih =>
    rw [List.mapM_cons]
    exact (hf e (by simp)).bind fun b => (ih fun e he => hf e (by simp [he])).bind fun bs => .pure (b :: bs)

end Orderly

namespace Leads

variable {x : Play α} {y : Play β} {g : α → Play γ}

theorem refl (x : Play α) (t : Table) : Leads x t x t := ⟨.refl _, fun h => ⟨_, _, h⟩⟩

theorem trans {z : Play γ} (h : Leads x t y u) (h' : Leads y u z w) : Leads x t z w where
  kept := h'.kept.trans h.kept
  ok hx := by
    obtain ⟨b, u', hy⟩ := h.ok hx
    exact h'.ok hy

theorem first (slots : List Slot) (h : Leads x t y u) (hg : ∀ a, Orderly slots (g a)) : Leads (x >>= g) t y u where
  kept := by
    refine h.kept.trans ?_
    rw [on_bind]
    generalize x.on t = r
    rcases r with ⟨failure | a, t₁⟩
    · exact .refl _
    · exact ((hg a).grows t₁).toKept
  ok hxg := by
    obtain ⟨a, t₁, hx, -⟩ := on_bind_eq_ok hxg
    exact h.ok hx

theorem map (h : Leads x t y u) (g : α → γ) : Leads (x >>= fun a => pure (g a)) t y u :=
  h.first [] fun a => .pure (g a)

theorem next {a : α} {t₁ : Table} (hx : x.on t = (.ok a, t₁)) (h : Leads (g a) t₁ y u) : Leads (x >>= g) t y u where
  kept := by
    rw [on_bind_ok hx]
    exact h.kept
  ok hxg := by
    rw [on_bind_ok hx] at hxg
    exact h.ok hxg

theorem located (op : Option Token) (h : Leads x t y u) : Leads (at? op x) t y u where
  kept := by
    rw [on_at]
    exact h.kept
  ok hx := h.ok (on_at_eq_ok hx)

theorem mapM (slots : List Slot) {f : Expr → Play α} {before after : List Expr} {a : Expr} {vs : List α} {t₁ : Table}
    (hf : ∀ b, b ∈ after → Orderly slots (f b)) (hbefore : (before.mapM f).on t = (.ok vs, t₁))
    (h : Leads (f a) t₁ y u) : Leads ((before ++ a :: after).mapM f) t y u := by
  rw [List.mapM_append]
  refine .next hbefore ?_
  rw [List.mapM_cons]
  exact (h.first slots fun b => (Orderly.mapM hf).bind fun bs => .pure (b :: bs)).map _

/-- Dice that have no result before or after their operands come to what these come to. -/
theorem once {slot : Slot} {faces : α → Nat} {rule : α → List Nat → Roll} (hopen : t.sheet.result slot = none)
    (hafter : (x.on t).2.sheet.result slot = none) (h : Leads x t y u) :
    Leads (Play.once slot (x >>= fun o => make slot (faces o) (rule o))) t y u where
  kept := by
    refine h.kept.trans ?_
    rw [on_once_open hopen, on_bind]
    generalize x.on t = r at hafter ⊢
    rcases r with ⟨failure | o, t₁⟩
    · exact .refl _
    · exact (grows_make slot _ _ (.refl [slot] _) hafter (by simp)).toKept
  ok hx := by
    rw [on_once_open hopen] at hx
    obtain ⟨o, t₁, ho, -⟩ := on_bind_eq_ok hx
    exact h.ok ho

end Leads

end Play

open Play

/-! ### Parts and the whole -/

/-- Dice that were not settled are not settled by their operands. -/
theorem Expr.open_after_operands {slot : Slot} {count faces : Expr} {label : Option String} {modifier : Modifier}
    {comparison : Comparison} {target : Target Expr}
    (hn : (Expr.dice slot count faces label modifier comparison target).slots.Nodup)
    (hopen : t.sheet.result slot = none) :
    ((count.evaluateOperands setting faces modifier target).on t).2.sheet.result slot = none := by
  have hslot : slot ∉ count.slots ++ (faces.slots ++ targetSlots target) := by
    rw [slots_dice, List.perm_middle.nodup_iff, List.nodup_cons] at hn
    exact hn.1
  rw [(((evaluateOperands_orderly setting count faces modifier target).grows t).outside slot hslot).2.2, hopen]

/-- What a part that is entered comes to is part of what the whole comes to. -/
theorem Enters.leads (hn : e.slots.Nodup) (h : Enters setting e t c u) :
    Leads (e.evaluate setting) t (c.evaluate setting) u := by
  obtain ⟨slots, hslots⟩ : ∃ slots, slots = e.slots := ⟨_, rfl⟩
  have ho := orderly_congruence setting slots
  have hpart : ∀ {es : List Expr} {a : Expr}, e.children = .ok es → a ∈ es → Orderly slots (a.evaluate setting) :=
    fun he ha => hslots ▸ (Expr.evaluate_orderly setting _).mono (Expr.slots_sublist_of_children he ha).subset
  clear hslots
  -- in each case: what was done before the part is known, and what is done after it only adds to the sheet
  cases h with
  | group => exact .refl _ _
  | operand =>
    refine .located _ (.first slots (.refl _ _) fun v => ?_)
    exact (Orderly.ofOutcome _).bind fun op => (Orderly.lift _).bind fun r => .pure _
  | left =>
    refine .located _ (.first slots (.refl _ _) fun v => (hpart rfl (by simp)).bind fun w => ?_)
    exact (Orderly.ofOutcome _).bind fun op => (Orderly.lift _).bind fun r => .pure _
  | right hl =>
    refine .located _ (.next hl (.first slots (.refl _ _) fun w => ?_))
    exact (Orderly.ofOutcome _).bind fun op => (Orderly.lift _).bind fun r => .pure _
  | condition =>
    refine .first slots (.refl _ _) fun v => ?_
    split
    · exact hpart rfl (by simp)
    · exact hpart rfl (by simp)
  | branch hc =>
    refine .next hc ?_
    split
    · exact .refl _ _
    · exact .refl _ _
  | @argument callee _ token arguments before after _ _ f vs hf hsplit hbefore =>
    subst hsplit
    rw [Expr.evaluateAll_eq_mapM] at hbefore
    refine .located _ (.next hf (.first slots ?_ fun vs => (Orderly.ofOutcome _).bind fun r => .pure _))
    rw [Expr.evaluateAll_eq_mapM]
    exact .mapM slots (fun b hb => hpart rfl (by simp [hb])) hbefore (.refl _ _)
  | @count slot _ faces label modifier comparison target _ hopen =>
    obtain ⟨es, he, hes⟩ := Expr.children_dice slot c faces label modifier comparison target
    have hfaces := hpart he ((hes faces).2 (.inr (.inl rfl)))
    have htarget := ho.evaluateTarget modifier hfaces fun a ha => hpart he ((hes a).2 (.inr (.inr ha)))
    rw [Expr.evaluate_dice]
    refine (Leads.once hopen (Expr.open_after_operands hn hopen) ?_).map _
    refine .first slots (.first slots (.refl _ _) fun v => (Orderly.lift _).bind fun x => .lift _) fun n => ?_
    exact (hfaces.wholeOperand _ _).bind fun f => (Orderly.lift _).bind fun _ =>
      (Orderly.targetNumber modifier htarget).bind fun x => .pure _
  | @faces slot count _ label modifier comparison target _ _ n hopen hcount =>
    obtain ⟨es, he, hes⟩ := Expr.children_dice slot count c label modifier comparison target
    have hfaces := hpart he ((hes c).2 (.inr (.inl rfl)))
    have htarget := ho.evaluateTarget modifier hfaces fun a ha => hpart he ((hes a).2 (.inr (.inr ha)))
    rw [Expr.evaluate_dice]
    refine (Leads.once hopen (Expr.open_after_operands hn hopen) ?_).map _
    refine .next hcount (.first slots (.first slots (.refl _ _) fun v => ?_) fun f => ?_)
    · exact (Orderly.lift _).bind fun x => .lift _
    · exact (Orderly.lift _).bind fun _ => (Orderly.targetNumber modifier htarget).bind fun x => .pure _
  | @target slot count faces _ label modifier comparison target _ _ _ n f hopen hcount hfaces hr hm hc =>
    rw [Expr.evaluate_dice]
    refine (Leads.once hopen (Expr.open_after_operands hn hopen) ?_).map _
    refine .next hcount (.next hfaces (.next (by rw [hr]; rfl) (Leads.map ?_ _)))
    rw [targetNumber, if_neg hm]
    have htarget : Expr.evaluateTarget setting modifier faces target = c.evaluate setting := by
      cases target <;> cases hc <;> rfl
    rw [htarget]
    exact .first slots (.refl _ _) fun v => .lift _
  | @entry _ entries before after modifier comparison target _ _ xs hsplit hbefore =>
    subst hsplit
    obtain ⟨es, he, hes⟩ := Expr.children_pool (before ++ c :: after) modifier comparison target
    have hentries : Leads (Expr.evaluateEntries setting (before ++ c :: after)) t (c.evaluate setting) u := by
      rw [Expr.evaluateEntries_eq_mapM] at hbefore ⊢
      refine .mapM slots (fun b hb => ?_) hbefore (.first slots (.refl _ _) fun v => .lift _)
      exact (hpart he ((hes b).2 (.inl (by simp [hb])))).bind fun v => .lift _
    cases target with
    | none => exact .first slots hentries fun xs => ho.throw _
    | some target =>
      refine .first slots hentries fun xs => ?_
      exact (hpart he ((hes target).2 (.inr rfl))).bind fun v => (Orderly.lift _).bind fun x =>
        (Orderly.lift _).bind fun r => .pure _
  | poolTarget hxs =>
    refine .next hxs (.first slots (.refl _ _) fun v => ?_)
    exact (Orderly.lift _).bind fun x => (Orderly.lift _).bind fun r => .pure _

/-- What a visited part comes to is part of what the whole comes to. -/
theorem Visits.leads (hn : e.slots.Nodup) (h : Visits setting e t d u) :
    Leads (e.evaluate setting) t (d.evaluate setting) u := by
  induction h with
  | self e t => exact .refl _ _
  | part h _ ih =>
    obtain ⟨es, he, hc⟩ := h.mem_children
    exact (h.leads hn).trans (ih ((Expr.slots_sublist_of_children he hc).nodup hn))

/-! ### The steps of an evaluation -/

/-- The operator of a node, or the token of a call, at which faults happen. -/
def Expr.reporter? : Expr → Option Token
  | .unary op _ | .binary op _ _ => op
  | .call _ token _ => token
  | _ => none

/-- The evaluation of an expression, apart from the place of its faults. -/
def Expr.work (setting : Setting) : Expr → Play (Option Value)
  | .unary op operand => do
    let v ← operand.evaluate setting
    let op ← present (require .operator op)
    let r ← lift (applyUnary op v)
    return some r
  | .binary op left right => do
    let v ← left.evaluate setting
    let w ← right.evaluate setting
    let op ← present (require .operator op)
    let r ← lift (applyBinary op.kind op.lexeme v w)
    return some r
  | .call target _ arguments => do
    let f ← named setting.builtins target arguments.length
    let vs ← evaluateAll setting arguments
    let r ← ofOutcome (f.apply vs)
    return some r
  | e => e.evaluate setting

theorem Expr.evaluate_eq_at (setting : Setting) (e : Expr) : e.evaluate setting = at? e.reporter? (e.work setting) := by
  cases e <;> rfl

/-- A failure as it is raised: a fault without a place. -/
def Failure.Fresh (failure : Failure) : Prop := ∀ cause place, failure = .fault cause place → place = none

theorem fresh_fault (cause : Fault) : (Failure.fault cause none).Fresh := fun _ _ h => (Failure.fault.inj h).2.symm

theorem fresh_of_lookUp {context : Context} {key : String} {failure : Failure}
    (h : lookUp context key = .error failure) : failure.Fresh := by
  unfold lookUp requireValue at h
  rintro cause place rfl
  split at h
  · cases h
    rfl
  · split at h <;> cases h
    rfl

namespace Play

variable {α β : Type}

/-- What is to be shown of the steps of an evaluation, each at its table, for `R` to hold of the whole. A step is
taken where those before it have succeeded, and of the parts that are entered it is to be shown too. -/
structure Along (setting : Setting) (e : Expr) (t : Table) (R : ∀ {α : Type}, Play α → Table → Prop) : Prop where
  pure {α : Type} (a : α) (u : Table) : R (Pure.pure a) u
  throw {α : Type} {failure : Failure} (h : failure.Fresh) (u : Table) : R (MonadExcept.throw failure : Play α) u
  bind {α β : Type} {x : Play α} {f : α → Play β} {u : Table} (hx : R x u)
    (hf : ∀ a w, x.on u = (.ok a, w) → R (f a) w) : R (x >>= f) u
  sheet (u : Table) : R Play.sheet u
  resolve {slot : Slot} {key : Option Value} {label : Option String} (he : e = .substitution slot key label)
    (hopen : t.sheet.resolved slot = none) (v : Value) : R (writing (·.resolve slot v)) t
  make {slot : Slot} {count faces : Expr} {label : Option String} {modifier : Modifier} {comparison : Comparison}
    {target : Target Expr} (he : e = .dice slot count faces label modifier comparison target)
    (hopen : t.sheet.result slot = none) (o : Operands) (u : Table) :
    R (make slot o.faces.toNat (roll modifier comparison o.target o.count.toNat o.faces.toNat)) u
  apply {target : Expr} {n : Nat} {f : Builtin} {u : Table} (hf : (named setting.builtins target n).on u = (.ok f, u))
    (vs : List (Option Value)) (w : Table) : R (ofOutcome (f.apply vs)) w
  part {c : Expr} {u : Table} (h : Enters setting e t c u) : R (c.evaluate setting) u

namespace Along

variable {R : ∀ {α : Type}, Play α → Table → Prop} (h : Along setting e t R)

include h

theorem map {x : Play α} (hx : R x u) (g : α → β) : R (x >>= fun a => Pure.pure (g a)) u :=
  h.bind hx fun _ w _ => h.pure _ w

theorem ofOutcome {r : Except Failure α} (hr : ∀ failure, r = .error failure → failure.Fresh) (u : Table) :
    R (Play.ofOutcome r) u := by
  cases r with
  | ok a => exact h.pure a u
  | error failure => exact h.throw (hr failure rfl) u

theorem lift (r : Except Fault α) (u : Table) : R (Play.lift r) u := by
  cases r with
  | ok a => exact h.pure a u
  | error cause => exact h.throw (fresh_fault _) u

theorem present (r : Except Lack α) (u : Table) : R (Play.present r) u := by
  refine h.ofOutcome (fun failure hr => ?_) u
  cases r with
  | ok a => cases hr
  | error lack =>
    cases hr
    exact fun _ _ heq => by cases heq

theorem named (target : Expr) (n : Nat) (u : Table) : R (Play.named setting.builtins target n) u :=
  h.bind (h.sheet u) fun _ _ _ => h.bind (h.present _ _) fun _ _ _ => h.lift _ _

theorem substitute {slot : Slot} {key : Option Value} {label : Option String} (he : e = .substitution slot key label) :
    R (Play.substitute setting.context slot key) t := by
  refine h.bind (h.sheet t) fun s w hs => ?_
  cases hs
  split
  next v _ => exact h.pure v t
  next hopen =>
    refine h.bind (h.present _ t) fun text w hw => ?_
    obtain rfl : t = w := by
      rw [on_present] at hw
      exact (Prod.mk.inj hw).2
    refine h.bind (h.ofOutcome (fun _ => fresh_of_lookUp) t) fun v w hw => ?_
    obtain rfl : t = w := by
      rw [on_ofOutcome] at hw
      exact (Prod.mk.inj hw).2
    exact h.bind (h.resolve he hopen v) fun _ w _ => h.pure v w

theorem mapM {f : Expr → Play α} {es : List Expr} (hf : ∀ before a after vs w, es = before ++ a :: after →
    (before.mapM f).on u = (.ok vs, w) → R (f a) w) : R (es.mapM f) u := by
  induction es generalizing u with
  | nil => exact h.pure [] u
  | cons a es ih =>
    rw [List.mapM_cons]
    refine h.bind (hf [] a es [] u rfl rfl) fun b w hb => h.map (ih fun before a' after vs w' hes hvs => ?_) _
    refine hf (a :: before) a' after (b :: vs) w' (by rw [hes]; rfl) ?_
    rw [List.mapM_cons, on_bind_ok hb, on_bind_ok hvs]
    rfl

theorem wholeOperand {x : Play (Option Value)} (role : Role) (what : String) (hx : R x u) :
    R (Play.wholeOperand role what x) u :=
  h.bind hx fun _ _ _ => h.bind (h.lift _ _) fun _ _ _ => h.lift _ _

theorem evaluateEntries {entries : List Expr} {modifier : Modifier} {comparison : Comparison} {target : Option Expr}
    (he : e = .pool entries modifier comparison target) : R (Expr.evaluateEntries setting entries) t := by
  subst he
  rw [Expr.evaluateEntries_eq_mapM]
  refine h.mapM fun before a after xs w hes hxs => ?_
  rw [← Expr.evaluateEntries_eq_mapM] at hxs
  exact h.bind (h.part (.entry hes hxs)) fun _ _ _ => h.lift _ _

/-- Dice that are open evaluate their operands. -/
theorem operands {slot : Slot} {count faces : Expr} {label : Option String} {modifier : Modifier}
    {comparison : Comparison} {target : Target Expr} (he : e = .dice slot count faces label modifier comparison target)
    (hopen : t.sheet.result slot = none) : R (count.evaluateOperands setting faces modifier target) t := by
  subst he
  refine h.bind (h.wholeOperand _ _ (h.part (.count hopen))) fun n u hn => ?_
  refine h.bind (h.wholeOperand _ _ (h.part (.faces hopen hn))) fun f w hf => ?_
  refine h.bind (h.lift _ w) fun _ w' hr => h.map ?_ _
  obtain ⟨hfaces, rfl⟩ := on_lift_eq_ok hr
  unfold Play.targetNumber
  split
  next => exact h.pure _ _
  next hm =>
    refine h.bind ?_ fun _ _ _ => h.lift _ _
    cases target with
    | absent => exact h.throw (fresh_fault _) _
    | faces => exact h.part (.target hopen hn hf hfaces hm rfl)
    | value a => exact h.part (.target hopen hn hf hfaces hm rfl)

/-- **What holds of the steps and of the parts entered holds of the evaluation.** -/
theorem work : R (e.work setting) t := by
  cases e with
  | literal v label => exact h.pure v t
  | substitution slot key label => exact h.map (h.substitute rfl) _
  | group inner =>
    show R (inner.evaluate setting) t
    exact h.part .group
  | unary op operand =>
    refine h.bind (h.part .operand) fun v u hv => ?_
    exact h.bind (h.present _ u) fun _ w _ => h.map (h.lift _ w) _
  | binary op left right =>
    refine h.bind (h.part .left) fun v u hv => h.bind (h.part (.right hv)) fun w u' hw => ?_
    exact h.bind (h.present _ u') fun _ w _ => h.map (h.lift _ w) _
  | choice condition consequent alternative =>
    refine h.bind (h.part .condition) fun v u hv => ?_
    have hbranch : Enters setting (.choice condition consequent alternative) t
        (if Value.isTruthy v then consequent else alternative) u := .branch hv
    by_cases hb : Value.isTruthy v = true
    · rw [if_pos hb] at hbranch ⊢
      exact h.part hbranch
    · rw [if_neg hb] at hbranch ⊢
      exact h.part hbranch
  | call callee token arguments =>
    refine h.bind (h.named _ _ t) fun f u hf => ?_
    obtain rfl := on_named_eq_ok hf
    refine h.bind ?_ fun vs w hvs => h.map (h.apply hf vs w) _
    rw [Expr.evaluateAll_eq_mapM]
    refine h.mapM fun before a after vs u hes hvs => ?_
    rw [← Expr.evaluateAll_eq_mapM] at hvs
    exact h.part (.argument hf hes hvs)
  | dice slot count faces label modifier comparison target =>
    show R ((Expr.dice slot count faces label modifier comparison target).evaluate setting) t
    rw [Expr.evaluate_dice]
    refine h.map (h.bind (h.sheet t) fun s w hs => ?_) _
    cases hs
    split
    next => exact h.pure _ _
    next hopen => exact h.bind (h.operands rfl hopen) fun o u _ => h.make rfl hopen o u
  | pool entries modifier comparison target =>
    cases target with
    | none => exact h.bind (h.evaluateEntries rfl) fun _ w _ => h.throw (fresh_fault _) w
    | some target =>
      refine h.bind (h.evaluateEntries rfl) fun xs u hxs => h.bind (h.part (.poolTarget hxs)) fun _ w _ => ?_
      exact h.bind (h.lift _ w) fun _ w _ => h.map (h.lift _ w) _
  | foreign text => exact h.throw (fresh_fault _) t

end Along

end Play

/-- Induction along an evaluation: what holds of an expression at a table if it holds of every part at the table at
which it is entered, holds always. -/
theorem Enters.ind (setting : Setting) {motive : Expr → Table → Prop}
    (h : ∀ e t, (∀ c u, Enters setting e t c u → motive c u) → motive e t) (e : Expr) (t : Table) : motive e t := by
  induction hn : e.size using Nat.strongRecOn generalizing e t with
  | ind n ih =>
    subst hn
    refine h e t fun c u hc => ?_
    obtain ⟨es, he, hmem⟩ := hc.mem_children
    exact ih _ (Expr.size_lt_of_children he hmem) c u rfl

/-! ### Where the sheet changes -/

/-- The sheet has what a part is there to settle: the result of dice, or the value of a substitution. -/
def Sheet.Shows (s : Sheet) : Expr → Prop
  | .dice slot _ _ _ _ _ _ => (s.result slot).isSome
  | .substitution slot _ _ => (s.resolved slot).isSome
  | _ => False

/-- An evaluation comes to a part with the slot that the sheet does not show yet. -/
def Opens (setting : Setting) (e : Expr) (t : Table) (slot : Slot) : Prop :=
  ∃ d u, Visits setting e t d u ∧ d.slot? = some slot ∧ ¬ u.sheet.Shows d

theorem Enters.opens (h : Enters setting e t c u) {slot : Slot} (hc : Opens setting c u slot) :
    Opens setting e t slot := by
  obtain ⟨d, w, hd, hslot, hopen⟩ := hc
  exact ⟨d, w, .part h hd, hslot, hopen⟩

namespace Play

variable {α β : Type}

/-- A step at a table changes the sheet under some slots only. -/
def Confined (V : Slot → Prop) (x : Play α) (t : Table) : Prop :=
  ∀ slot, V slot ∨ Sheet.SameAt slot t.sheet (x.on t).2.sheet

namespace Confined

variable {V W : Slot → Prop} {x : Play α} {f : α → Play β}

theorem mono (h : Confined V x t) (hVW : ∀ slot, V slot → W slot) : Confined W x t :=
  fun slot => (h slot).imp_left (hVW slot)

theorem of_still (h : (x.on t).2 = t) : Confined V x t := by
  intro slot
  rw [h]
  exact .inr (.refl _ _)

theorem bind (hx : Confined V x t) (hf : ∀ a u, x.on t = (.ok a, u) → Confined V (f a) u) : Confined V (x >>= f) t := by
  intro slot
  rcases hx slot with h | h
  · exact .inl h
  · rw [on_bind]
    generalize hr : x.on t = r at h ⊢
    rcases r with ⟨failure | a, t₁⟩
    · exact .inr h
    · exact (hf a t₁ hr slot).imp_right h.trans

theorem located (op : Option Token) (h : Confined V x t) : Confined V (at? op x) t := by
  intro slot
  rw [on_at]
  exact h slot

theorem resolve {slot : Slot} (v : Value) (hV : V slot) : Confined V (writing (·.resolve slot v)) t := by
  intro i
  by_cases hi : i = slot
  · subst hi
    exact .inl hV
  · exact .inr ⟨if_neg hi, rfl, rfl⟩

theorem make {slot : Slot} (faces : Nat) (rule : List Nat → Roll) (hV : V slot) :
    Confined V (Play.make slot faces rule) t := by
  intro i
  by_cases hi : i = slot
  · subst hi
    exact .inl hV
  · right
    rw [on_make]
    generalize rule (t.script.map (faceOf faces)) = r
    dsimp only
    cases r.outcome with
    | error failure => exact ⟨rfl, by simp [rolled, hi], rfl⟩
    | ok x => exact ⟨rfl, by simp [rolled, Sheet.settle, hi], by simp [rolled, Sheet.record, hi]⟩

end Confined

end Play

/-- What a part that is entered changes, the whole comes to. -/
theorem Enters.confined (h : Enters setting e t c u)
    (hc : Confined (Opens setting c u) (c.evaluate setting) u) :
    Confined (Opens setting e t) (c.evaluate setting) u :=
  hc.mono fun _ => h.opens

/-- **An evaluation changes only what it comes to**, and only where it was open. -/
theorem Expr.evaluate_confined (setting : Setting) (e : Expr) (t : Table) :
    Confined (Opens setting e t) (e.evaluate setting) t := by
  induction e, t using Enters.ind setting with
  | h e t ih =>
    have hsteps : Along setting e t fun x u => Confined (Opens setting e t) x u :=
      { pure := fun _ _ => .of_still rfl
        throw := fun _ _ => .of_still rfl
        bind := .bind
        sheet := fun _ => .of_still rfl
        resolve := fun he hopen v => .resolve v ⟨_, t, .self e t, by rw [he]; rfl, by simp [he, Sheet.Shows, hopen]⟩
        make := fun he hopen _ _ => .make _ _ ⟨_, t, .self e t, by rw [he]; rfl, by simp [he, Sheet.Shows, hopen]⟩
        apply := fun _ _ _ => .of_still (by rw [on_ofOutcome])
        part := fun h => h.confined (ih _ _ h) }
    rw [evaluate_eq_at]
    exact hsteps.work.located _

end DiceNotation
