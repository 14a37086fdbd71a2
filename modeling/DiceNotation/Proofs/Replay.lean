import DiceNotation.Form
import DiceNotation.Proofs.Course

/-!
Evaluating again.

When an evaluation has found a value, the sheet holds all that decides it: the conditions of the choices made, the
results of the dice reached, the substitutions met. So any later evaluation finds the same value there, and has no
use for a context or for rolls. The invariant is `Replays`: on whatever sheet keeps what the first run left, the
second run gives the same and leaves the table alone.

Main statement: `Form.evaluate_idempotent`.
-/

namespace DiceNotation

open Play

theorem eq_ok_of_toOption {ε α : Type} {r : Except ε α} {a : α} (h : r.toOption = some a) : r = .ok a := by
  cases r with
  | error e => cases h
  | ok b => cases h; rfl

instance {α : Type} (r : Except Failure α) (failure : Failure) : Decidable (r = .error failure) :=
  match r with
  | .ok _ => isFalse nofun
  | .error other => decidable_of_iff (other = failure) ⟨congrArg _, Except.error.inj⟩

/-- What is checked of the expression that a text is. -/
theorem Expr.exists_of_any (source : String) (p : Expr → Bool) (h : (Expr.ofText source).toOption.any p = true) :
    ∃ e, Expr.ofText source = .ok e ∧ p e = true := by
  cases hread : Expr.ofText source with
  | error failure => rw [hread] at h; cases h
  | ok e => rw [hread] at h; exact ⟨e, rfl, h⟩

theorem Expr.name?_kept {e : Expr} {s s' : Sheet} {name : String} (h : s.Kept s') (hn : e.name? s = .ok (some name)) :
    e.name? s' = .ok (some name) := by
  cases e with
  | literal v label => exact hn
  | substitution slot key label =>
    simp only [name?] at hn ⊢
    cases hr : s.resolved slot with
    | none => simp [hr] at hn
    | some v => rw [h.resolved hr]; rwa [hr] at hn
  | _ => cases hn

namespace Play

variable {α β : Type}

/-- When the first step succeeds, the second one gives the same from then on, and does nothing to the table. -/
def Replays (x y : Play α) : Prop :=
  ∀ (t t' : Table) (a : α), x.on t = (.ok a, t') → ∀ u : Table, t'.sheet.Kept u.sheet → y.on u = (.ok a, u)

theorem on_bind_eq_ok {x : Play α} {f : α → Play β} {t t' : Table} {b : β} (h : (x >>= f).on t = (.ok b, t')) :
    ∃ a t₁, x.on t = (.ok a, t₁) ∧ (f a).on t₁ = (.ok b, t') := by
  rw [on_bind] at h
  generalize hx : x.on t = r at h
  rcases r with ⟨failure | a, t₁⟩
  · cases h
  · exact ⟨a, t₁, rfl, h⟩

theorem on_lift_eq_ok {r : Except Fault α} {t t' : Table} {a : α} (h : (lift r).on t = (.ok a, t')) :
    r = .ok a ∧ t = t' := by
  rw [on_lift] at h
  obtain ⟨hr, ht⟩ := Prod.mk.inj h
  cases r with
  | error cause => cases hr
  | ok b => cases hr; exact ⟨rfl, ht⟩

theorem on_named_eq_ok {builtins : Builtins} {target : Expr} {n : Nat} {t t' : Table} {f : Builtin}
    (h : (Play.named builtins target n).on t = (.ok f, t')) : t = t' := by
  rw [on_named] at h
  exact (Prod.mk.inj h).2

namespace Replays

theorem bind {slots : List Slot} {x y : Play α} {f g : α → Play β} (hx : Replays x y) (hf : ∀ a, Orderly slots (f a))
    (hfg : ∀ a, Replays (f a) (g a)) : Replays (x >>= f) (y >>= g) := by
  intro t t' b h u hu
  obtain ⟨a, t₁, h₁, h₂⟩ := on_bind_eq_ok h
  have hk : t₁.sheet.Kept t'.sheet := by
    have := ((hf a).grows t₁).toKept
    rwa [h₂] at this
  rw [on_bind_ok (hx _ _ _ h₁ u (hk.trans hu))]
  exact hfg a _ _ _ h₂ u hu

theorem located {x y : Play α} (op : Option Token) (h : Replays x y) : Replays (at? op x) (at? op y) := by
  intro t t' a ht u hu
  rw [on_at] at ht
  generalize hx : x.on t = r at ht
  rcases r with ⟨failure | a', t₁⟩
  · cases ht
  · cases ht
    rw [on_at, h _ _ _ hx u hu]
    rfl

theorem resolved_substitute {context : Context} {slot : Slot} {key : Option Value} {t t' : Table} {v : Value}
    (h : (Play.substitute context slot key).on t = (.ok v, t')) : t'.sheet.resolved slot = some v := by
  rw [on_substitute] at h
  cases hs : t.sheet.resolved slot with
  | some w => rw [hs] at h; cases h; exact hs
  | none =>
    rw [hs] at h
    dsimp only at h
    generalize (keyText key).mapError Failure.lacking >>= lookUp context = r at h
    cases r with
    | error failure => cases h
    | ok w => cases h; simp

theorem substitute (context context' : Context) (slot : Slot) (key : Option Value) :
    Replays (Play.substitute context slot key) (Play.substitute context' slot key) := by
  intro t t' v h u hu
  rw [on_substitute, hu.resolved (resolved_substitute h)]

theorem named (builtins : Builtins) (target : Expr) (n : Nat) :
    Replays (Play.named builtins target n) (Play.named builtins target n) := by
  intro t t' f h u hu
  rw [on_named] at h
  obtain ⟨hf, rfl⟩ := Prod.mk.inj h
  clear h
  obtain ⟨l | name?, hn⟩ : ∃ r, target.name? t.sheet = r := ⟨_, rfl⟩
  · rw [hn] at hf; cases hf
  · rw [hn] at hf
    -- only a name has a function
    rcases name? with _ | name
    · cases hf
    · rw [on_named, Expr.name?_kept hu hn, hf]

theorem result_make {slot : Slot} {faces : Nat} {rule : List Nat → Roll} {t t' : Table} {x : Number}
    (h : (make slot faces rule).on t = (.ok x, t')) : t'.sheet.result slot = some x := by
  rw [on_make] at h
  dsimp only at h
  cases ho : (rule (t.script.map (faceOf faces))).outcome with
  | error failure => rw [ho] at h; cases h
  | ok y => rw [ho] at h; cases h; simp

theorem result_once {slot : Slot} {operands : Play α} {faces : α → Nat} {rule : α → List Nat → Roll} {t t' : Table}
    {x : Number} (h : (Play.once slot (operands >>= fun o => make slot (faces o) (rule o))).on t = (.ok x, t')) :
    t'.sheet.result slot = some x := by
  rw [on_once] at h
  cases hs : t.sheet.result slot with
  | some y => rw [hs] at h; cases h; exact hs
  | none =>
    rw [hs] at h
    obtain ⟨o, t₁, -, hm⟩ := on_bind_eq_ok h
    exact result_make hm

theorem once (slot : Slot) {operands operands' : Play α} (faces : α → Nat) (rule : α → List Nat → Roll) :
    Replays (Play.once slot (operands >>= fun o => make slot (faces o) (rule o)))
      (Play.once slot (operands' >>= fun o => make slot (faces o) (rule o))) := by
  intro t t' x h u hu
  rw [on_once, hu.result (result_once h)]

end Replays

theorem replays_congruence (builtins : Builtins) (context context' : Context) (slots : List Slot) :
    Congruence ⟨context, builtins⟩ ⟨context', builtins⟩ (fun e => e.slots ⊆ slots)
      fun x y => Orderly slots x ∧ Replays x y :=
  have ho := orderly_congruence ⟨context, builtins⟩ slots
  { pure := fun a => ⟨ho.pure a, fun _ _ _ h _ _ => by cases h; rfl⟩
    throw := fun failure => ⟨ho.throw failure, fun _ _ _ h => by cases h⟩
    bind := fun hx hf => ⟨hx.1.bind fun a => (hf a).1, hx.2.bind (fun a => (hf a).1) fun a => (hf a).2⟩
    located := fun op hx => ⟨hx.1.located op, hx.2.located op⟩
    substitute := fun slot key label hs => ⟨ho.substitute slot key label hs, .substitute context context' slot key⟩
    named := fun target n hs => ⟨ho.named target n hs, .named builtins target n⟩
    once := fun slot _ _ _ _ _ _ hs h => ⟨ho.once slot _ _ _ _ _ _ hs h.1, .once slot _ _⟩ }

end Play

/-- On a sheet that keeps what a successful evaluation left, every evaluation gives its value. -/
theorem Expr.evaluate_replays {e : Expr} {builtins : Builtins} {context : Context} {t t' : Table} {v : Option Value}
    (h : (e.evaluate ⟨context, builtins⟩).on t = (.ok v, t')) (context' : Context) (u : Table)
    (hu : t'.sheet.Kept u.sheet) : (e.evaluate ⟨context', builtins⟩).on u = (.ok v, u) :=
  ((replays_congruence builtins context context' e.slots).evaluate fun _ hd => hd.slots_sublist.subset).2 _ _ _ h u hu

/-- On a sheet that keeps what operands of dice left, they come to the same. -/
theorem Expr.evaluateOperands_replays {count faces : Expr} {modifier : Modifier} {target : Target Expr}
    {builtins : Builtins} {context : Context} {t t' : Table} {o : Operands}
    (h : (count.evaluateOperands ⟨context, builtins⟩ faces modifier target).on t = (.ok o, t')) (context' : Context)
    (u : Table) (hu : t'.sheet.Kept u.sheet) :
    (count.evaluateOperands ⟨context', builtins⟩ faces modifier target).on u = (.ok o, u) := by
  have hr := replays_congruence builtins context context' (count.slots ++ (faces.slots ++ targetSlots target))
  refine (hr.evaluateOperands modifier (hr.evaluate fun d hd => ?_) (hr.evaluate fun d hd => ?_)
    fun a ha => hr.evaluate fun d hd => ?_).2 _ _ _ h u hu
  · exact List.subset_append_of_subset_left _ hd.slots_sublist.subset
  · exact List.subset_append_of_subset_right _ (List.subset_append_of_subset_left _ hd.slots_sublist.subset)
  · subst ha
    exact List.subset_append_of_subset_right _ (List.subset_append_of_subset_right _ hd.slots_sublist.subset)

namespace Form

/-- A form after evaluations with contexts and scripts, one after the other. -/
def afterAll (form : Form) (builtins : Builtins) : List (Context × List Int) → Form
  | [] => form
  | (context, script) :: later =>
    afterAll { form with sheet := (form.evaluate ⟨context, builtins⟩ script).2.sheet } builtins later

theorem expr_afterAll (form : Form) (builtins : Builtins) (history : List (Context × List Int)) :
    (form.afterAll builtins history).expr = form.expr := by
  induction history generalizing form with
  | nil => rfl
  | cons entry later ih => exact ih _

/-- **Evaluation is idempotent.** When a form has a value, then whatever evaluations come after, with any contexts and
scripts, each gives that value, takes no roll and leaves the sheet as it is. -/
theorem evaluate_idempotent {form : Form} {builtins : Builtins} {context : Context} {script : List Int}
    {v : Option Value} {table : Table} (h : form.evaluate ⟨context, builtins⟩ script = (.ok v, table))
    (history : List (Context × List Int)) (context' : Context) (script' : List Int) :
    let later := { form with sheet := table.sheet }.afterAll builtins history
    later = { form with sheet := table.sheet } ∧
      later.evaluate ⟨context', builtins⟩ script' = (.ok v, ⟨table.sheet, script', []⟩) := by
  have again : ∀ c s, { form with sheet := table.sheet }.evaluate ⟨c, builtins⟩ s = (.ok v, ⟨table.sheet, s, []⟩) :=
    fun c s => Expr.evaluate_replays h c ⟨table.sheet, s, []⟩ (.refl _)
  have unchanged : { form with sheet := table.sheet }.afterAll builtins history =
      { form with sheet := table.sheet } := by
    induction history with
    | nil => rfl
    | cons entry later ih =>
      obtain ⟨c, s⟩ := entry
      rw [afterAll, again c s]
      exact ih
  intro later
  have hlater : later = { form with sheet := table.sheet } := unchanged
  exact ⟨hlater, hlater ▸ again context' script'⟩

/-- Two dice that stand in two places, once under a choice: one roll. -/
def twice : Form :=
  let two : Expr := .literal (some (.number (.ofNat 2))) none
  let dice : Expr := .dice 0 two (.substitution 1 (some (.string "faces")) none) none .countSuccesses .equal .faces
  { expr := .binary (some ⟨.plus, "+", 1⟩) dice (.choice (.literal (some (.bool true)) none) dice two) }

theorem evaluate_idempotent_twice :
    (twice.evaluate ⟨[("faces", .int 6)], .standard⟩ [6, 2]).1 = .ok (some (.number (.ofNat 2))) ∧
      let settled := (twice.evaluate ⟨[("faces", .int 6)], .standard⟩ [6, 2]).2.sheet
      let later := { twice with sheet := settled }.afterAll .standard [([], [1, 1]), ([("faces", .int 4)], [])]
      later = { twice with sheet := settled } ∧
        later.evaluate ⟨[("faces", .bool true)], .standard⟩ [] =
          (.ok (some (.number (.ofNat 2))), ⟨settled, [], []⟩) := by
  have h : (twice.evaluate ⟨[("faces", .int 6)], .standard⟩ [6, 2]).1 = .ok (some (.number (.ofNat 2))) := by
    refine eq_ok_of_toOption ?_
    decide +kernel
  refine ⟨h, ?_⟩
  generalize ht : twice.evaluate ⟨[("faces", .int 6)], .standard⟩ [6, 2] = played at h ⊢
  obtain ⟨outcome, table⟩ := played
  cases h
  exact evaluate_idempotent ht _ _ _

end Form

end DiceNotation
