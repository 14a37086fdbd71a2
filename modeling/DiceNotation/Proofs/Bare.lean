import DiceNotation.Form
import DiceNotation.Proofs.Replay

/-!
What has no influence on an evaluation: labels, groups, and data under keys that nothing asks for.

A bare expression has no labels and no groups, except for a group that is called, since a name in a group names no
function. The rest is as it was, the operators with their columns and the slots included, so that a bare expression is
evaluated by the very same steps. Of a context an evaluation sees what stands under the keys of open substitutions; as
sheets only grow, those are the keys that were open at first.

Main statements: `Expr.evaluate_bare` and `Form.evaluate_undisturbed`.
-/

namespace DiceNotation

open Play

/-! ### Bare expressions -/

namespace Expr

/-- The callee of a call, with `bared` for what it is or what its group holds. -/
def bareCallee (callee bared : Expr) : Expr :=
  match callee with
  | .group _ => .group bared
  | _ => bared

mutual
/-- The expression without its labels and without its groups, but for the groups that are called. -/
def bare : Expr → Expr
  | .literal v _ => .literal v none
  | .substitution slot key _ => .substitution slot key none
  | .group inner => inner.bare
  | .unary op operand => .unary op operand.bare
  | .binary op left right => .binary op left.bare right.bare
  | .choice c t e => .choice c.bare t.bare e.bare
  | .call callee token arguments => .call (bareCallee callee callee.bare) token (bareAll arguments)
  | .dice slot count faces _ modifier comparison (.value target) =>
    .dice slot count.bare faces.bare none modifier comparison (.value target.bare)
  | .dice slot count faces _ modifier comparison .faces =>
    .dice slot count.bare faces.bare none modifier comparison .faces
  | .dice slot count faces _ modifier comparison .absent =>
    .dice slot count.bare faces.bare none modifier comparison .absent
  | .pool entries modifier comparison (some target) => .pool (bareAll entries) modifier comparison (some target.bare)
  | .pool entries modifier comparison none => .pool (bareAll entries) modifier comparison none
  | .foreign text => .foreign text
  termination_by structural e => e

/-- The bare expressions of a list. -/
def bareAll : List Expr → List Expr
  | [] => []
  | e :: es => e.bare :: bareAll es
  termination_by structural es => es
end

variable {e : Expr} {es : List Expr}

theorem bareAll_eq_map (es : List Expr) : bareAll es = es.map bare := by
  induction es with
  | nil => rfl
  | cons e es ih => rw [bareAll, ih, List.map_cons]

/-! ### What stays -/

theorem slots_bareCallee (callee bared : Expr) : (bareCallee callee bared).slots = bared.slots := by
  cases callee <;> rfl

theorem slotsOf_bareAll (h : ∀ e ∈ es, e.bare.slots = e.slots) : slotsOf (bareAll es) = slotsOf es := by
  induction es with
  | nil => rfl
  | cons e es ih =>
    obtain ⟨he, hes⟩ := List.forall_mem_cons.1 h
    simp only [bareAll, slotsOf, he, ih hes]

/-- The substitutions and dice of an expression keep their slots when it is bared. -/
theorem slots_bare (e : Expr) : e.bare.slots = e.slots := by
  induction e using Expr.ind with
  | literal v label => rfl
  | substitution slot key label => rfl
  | group inner ih => exact ih
  | unary op operand ih => exact ih
  | binary op left right ihl ihr => simp only [bare, slots, ihl, ihr]
  | choice c t e ihc iht ihe => simp only [bare, slots, ihc, iht, ihe]
  | call callee token arguments ihc iha =>
    simp only [bare, slots, slots_bareCallee, ihc, slotsOf_bareAll iha]
  | dice slot count faces label modifier comparison target ihc ihf iht =>
    cases target with
    | absent => simp only [bare, slots, ihc, ihf]
    | faces => simp only [bare, slots, ihc, ihf]
    | value target => simp only [bare, slots, ihc, ihf, iht target rfl]
  | pool entries modifier comparison target ihe iht =>
    cases target with
    | none => simp only [bare, slots, slotsOf_bareAll ihe]
    | some target => simp only [bare, slots, slotsOf_bareAll ihe, iht target rfl]
  | foreign text => rfl

/-- A callee names the same function when it is bared, or still none. -/
theorem name?_bareCallee (callee : Expr) (sheet : Sheet) :
    (bareCallee callee callee.bare).name? sheet = callee.name? sheet := by
  cases callee with
  | dice slot count faces label modifier comparison target => cases target <;> rfl
  | pool entries modifier comparison target => cases target <;> rfl
  | _ => rfl

/-! ### Evaluations -/

section Evaluate

variable (setting : Setting)

theorem named_bareCallee (callee : Expr) (n : Nat) :
    named setting.builtins (bareCallee callee callee.bare) n = named setting.builtins callee n := by
  unfold named
  simp only [name?_bareCallee]

theorem evaluateAll_bareAll (h : ∀ e ∈ es, e.bare.evaluate setting = e.evaluate setting) :
    evaluateAll setting (bareAll es) = evaluateAll setting es := by
  induction es with
  | nil => rfl
  | cons e es ih =>
    obtain ⟨he, hes⟩ := List.forall_mem_cons.1 h
    simp only [bareAll, evaluateAll, he, ih hes]

theorem evaluateEntries_bareAll (h : ∀ e ∈ es, e.bare.evaluate setting = e.evaluate setting) :
    evaluateEntries setting (bareAll es) = evaluateEntries setting es := by
  induction es with
  | nil => rfl
  | cons e es ih =>
    obtain ⟨he, hes⟩ := List.forall_mem_cons.1 h
    simp only [bareAll, evaluateEntries, he, ih hes]

/-- **A bare expression is evaluated by the same steps.** -/
theorem evaluate_bare (e : Expr) : e.bare.evaluate setting = e.evaluate setting := by
  induction e using Expr.ind with
  | literal v label => rfl
  | substitution slot key label => rfl
  | group inner ih => exact ih
  | unary op operand ih => simp only [bare, evaluate, ih]
  | binary op left right ihl ihr => simp only [bare, evaluate, ihl, ihr]
  | choice c t e ihc iht ihe => simp only [bare, evaluate, ihc, iht, ihe]
  | call callee token arguments ihc iha =>
    have hlength : (bareAll arguments).length = arguments.length := by rw [bareAll_eq_map, List.length_map]
    simp only [bare, evaluate, named_bareCallee, evaluateAll_bareAll setting iha, hlength]
  | dice slot count faces label modifier comparison target ihc ihf iht =>
    cases target with
    | absent => simp only [bare, evaluate, ihc, ihf]
    | faces => simp only [bare, evaluate, ihc, ihf]
    | value target => simp only [bare, evaluate, ihc, ihf, iht target rfl]
  | pool entries modifier comparison target ihe iht =>
    cases target with
    | none => simp only [bare, evaluate, evaluateEntries_bareAll setting ihe]
    | some target => simp only [bare, evaluate, evaluateEntries_bareAll setting ihe, iht target rfl]
  | foreign text => rfl

end Evaluate

end Expr

/-! ### Contexts -/

namespace Play

variable {α β : Type} {s : Sheet} {slots : List Slot}

/-- The steps do the same on every sheet that keeps what stands on the first one. -/
def SameFrom (s : Sheet) (x y : Play α) : Prop := ∀ t : Table, s.Kept t.sheet → x.on t = y.on t

namespace SameFrom

theorem refl (s : Sheet) (x : Play α) : SameFrom s x x := fun _ _ => rfl

theorem bind {x y : Play α} {f g : α → Play β} (ho : Orderly slots x) (hx : SameFrom s x y)
    (hf : ∀ a, SameFrom s (f a) (g a)) : SameFrom s (x >>= f) (y >>= g) := by
  intro t ht
  have hgrows := (ho.grows t).toKept
  rw [on_bind, on_bind, ← hx t ht]
  generalize x.on t = r at hgrows ⊢
  rcases r with ⟨failure | a, t'⟩
  · rfl
  · exact hf a t' (ht.trans hgrows)

theorem located {x y : Play α} (op : Option Token) (h : SameFrom s x y) : SameFrom s (at? op x) (at? op y) := by
  intro t ht
  rw [on_at, on_at, h t ht]

/-- A substitution that was settled at first asks for nothing, and an open one for the data under its key. -/
theorem substitute {context context' : Context} {slot : Slot} {key : Option Value}
    (h : s.resolved slot = none → ∀ k, keyText key = .ok k → context'.get? k = context.get? k) :
    SameFrom s (Play.substitute context slot key) (Play.substitute context' slot key) := by
  intro t ht
  rw [on_substitute, on_substitute]
  cases hr : t.sheet.resolved slot with
  | some v => rfl
  | none =>
    have hopen : s.resolved slot = none := by
      cases hs : s.resolved slot with
      | none => rfl
      | some v =>
        rw [ht.resolved hs] at hr
        cases hr
    have hlook : (keyText key).mapError Failure.lacking >>= lookUp context' =
        (keyText key).mapError Failure.lacking >>= lookUp context := by
      cases hk : keyText key with
      | error l => rfl
      | ok k =>
        show lookUp context' k = lookUp context k
        rw [lookUp, lookUp, h hopen k hk]
    rw [hlook]

theorem once {x y : Play Number} (slot : Slot) (h : SameFrom s x y) :
    SameFrom s (Play.once slot x) (Play.once slot y) := by
  intro t ht
  rw [on_once, on_once, h t ht]

end SameFrom

theorem sameFrom_congruence (builtins : Builtins) (context context' : Context) (s : Sheet) (slots : List Slot) :
    Congruence ⟨context, builtins⟩ ⟨context', builtins⟩
      (fun e => e.slots ⊆ slots ∧ ∀ slot key label, e = .substitution slot key label → s.resolved slot = none →
        ∀ k, keyText key = .ok k → context'.get? k = context.get? k)
      fun x y => Orderly slots x ∧ SameFrom s x y :=
  have ho := orderly_congruence ⟨context, builtins⟩ slots
  { pure := fun a => ⟨ho.pure a, .refl s _⟩
    throw := fun failure => ⟨ho.throw failure, .refl s _⟩
    bind := fun hx hf => ⟨hx.1.bind fun a => (hf a).1, hx.2.bind hx.1 fun a => (hf a).2⟩
    located := fun op hx => ⟨hx.1.located op, hx.2.located op⟩
    substitute := fun slot key label hQ =>
      ⟨ho.substitute slot key label hQ.1, .substitute (hQ.2 slot key label rfl)⟩
    named := fun target n hQ => ⟨ho.named target n hQ.1, .refl s _⟩
    once := fun slot count faces label modifier comparison target hQ h =>
      ⟨ho.once slot count faces label modifier comparison target hQ.1 h.1,
        .once slot (h.2.bind h.1 fun _ => .refl s _)⟩ }

end Play

namespace Form

/-- An open substitution of the form has the key. -/
def Asks (form : Form) (key : String) : Prop :=
  ∃ slot k label, (Expr.substitution slot k label).PartOf form.expr ∧ form.sheet.resolved slot = none ∧
    keyText k = .ok key

variable {form : Form} {builtins : Builtins} {context context' : Context}

/-- Data under keys that nothing asks for have no influence. -/
theorem evaluate_of_get?_eq (h : ∀ key, form.Asks key → context'.get? key = context.get? key) (script : List Int) :
    form.evaluate ⟨context', builtins⟩ script = form.evaluate ⟨context, builtins⟩ script := by
  have hc := sameFrom_congruence builtins context context' form.sheet form.expr.slots
  refine ((hc.evaluate fun d hd => ⟨hd.slots_sublist.subset, ?_⟩).2 ⟨form.sheet, script, []⟩ (.refl _)).symm
  rintro slot key label rfl hopen k hk
  exact h k ⟨slot, key, label, hd, hopen, hk⟩

/-- **Labels, groups and data that nothing asks for have no influence** on an evaluation. On any context that has the
same under the keys of open substitutions, the bare expression, with the same slots, comes to the same: the value or
the failure with its place, the dice called, the rolls left and the sheet. So does every other expression that differs
in labels and groups only. -/
theorem evaluate_undisturbed (h : ∀ key, form.Asks key → context'.get? key = context.get? key) (script : List Int) :
    form.expr.bare.slots = form.expr.slots ∧
      evaluate { form with expr := form.expr.bare } ⟨context', builtins⟩ script =
        form.evaluate ⟨context, builtins⟩ script ∧
      ∀ other : Expr, other.bare = form.expr.bare →
        evaluate { form with expr := other } ⟨context', builtins⟩ script = form.evaluate ⟨context, builtins⟩ script := by
  have hsame : ∀ e : Expr, e.evaluate ⟨context', builtins⟩ = form.expr.evaluate ⟨context', builtins⟩ →
      evaluate { form with expr := e } ⟨context', builtins⟩ script = form.evaluate ⟨context, builtins⟩ script := by
    intro e he
    rw [← evaluate_of_get?_eq h script]
    unfold evaluate
    rw [he]
  refine ⟨form.expr.slots_bare, hsame _ (form.expr.evaluate_bare _), fun other hother => hsame other ?_⟩
  rw [← other.evaluate_bare, hother, form.expr.evaluate_bare]

/-- A group at the count of dice, labels everywhere, and data under a part of a dotted key and under a longer one. -/
theorem evaluate_undisturbed_dotted :
    let form : Form :=
      { expr := .binary (some ⟨.plus, "+", 14⟩)
          (.dice 4 (.group (.literal (some (.number (.ofNat 2))) none))
            (.literal (some (.number (.ofNat 6))) (some "sides")) (some "fire") .countSuccesses .equal .faces)
          (.call (.literal (some (.string "floor")) (some "size")) (some ⟨.name, "floor", 16⟩)
            [.group (.substitution 21 (some (.string "str.mod")) (some "strength"))]) }
    let one : Context := [("str", .int 1), ("str.mod", .int 3)]
    let other : Context := [("str.mod.x", .null), ("str.mod", .int 3), ("str", .int 5)]
    (∀ key, form.Asks key → other.get? key = one.get? key) ∧
      (form.evaluate ⟨one, .standard⟩ [6, 2]).1 = .ok (some (.number (.ofNat 4))) ∧
      form.expr.bare.slots = form.expr.slots ∧
      evaluate { form with expr := form.expr.bare } ⟨other, .standard⟩ [6, 2] =
        form.evaluate ⟨one, .standard⟩ [6, 2] ∧
      ∀ e : Expr, e.bare = form.expr.bare →
        evaluate { form with expr := e } ⟨other, .standard⟩ [6, 2] = form.evaluate ⟨one, .standard⟩ [6, 2] := by
  intro form one other
  have hkeys : form.expr.Everywhere fun d => ∀ slot k label, d = .substitution slot k label →
      k = some (.string "str.mod") := by
    simp [form]
  have hsame : ∀ key, form.Asks key → other.get? key = one.get? key := by
    rintro key ⟨slot, k, label, hpart, -, hkey⟩
    rw [hkeys _ hpart slot k label rfl] at hkey
    cases hkey
    rfl
  exact ⟨hsame, eq_ok_of_toOption (by decide +kernel), evaluate_undisturbed hsame [6, 2]⟩

end Form

end DiceNotation
