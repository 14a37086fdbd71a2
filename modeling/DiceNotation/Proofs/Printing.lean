import DiceNotation.Expr.Rolled
import DiceNotation.Proofs.Grammar

/-!
Expressions of the grammar can be walked and printed.

A node of the grammar is an expression, has its operator and its key, and its callee has a value, so nothing is lacking
when it is printed. One thing can still go wrong: the debug form previews the context, which may hold a whole number
that is too large.

Main statements: `exists_walk`, `prints_prefixText` and `exists_rolledText`.
-/

namespace DiceNotation

/-- The context holds a whole number that is too large for a number. -/
def Context.TooLarge (context : Context) : Prop :=
  ∃ key d, context.get? key = some d ∧ d.toValue = .error .overflow

/-! ### Results that fail in some ways only -/

/-- A result, if it is an error, is one of which `P` holds. -/
def FailsOnly {ε α : Type} (P : ε → Prop) (r : Except ε α) : Prop := ∀ err, r = .error err → P err

namespace FailsOnly

variable {ε α β : Type} {P : ε → Prop} {r : Except ε α}

theorem ok (a : α) : FailsOnly P (.ok a) := by
  intro err h
  cases h

theorem error {err : ε} (h : P err) : FailsOnly P (.error err : Except ε α) := by
  rintro err' ⟨⟩
  exact h

theorem bind {f : α → Except ε β} (hr : FailsOnly P r) (hf : ∀ a, FailsOnly P (f a)) :
    FailsOnly P (r >>= f) := by
  cases r with
  | error err => exact error (hr err rfl)
  | ok a => exact hf a

theorem after_ok (a : α) {f : α → Except ε β} (h : FailsOnly P (f a)) : FailsOnly P (.ok a >>= f) := h

theorem map (hr : FailsOnly P r) (f : α → β) : FailsOnly P (r >>= fun a => pure (f a)) :=
  hr.bind fun a => ok (f a)

theorem mapError {ε' : Type} {Q : ε' → Prop} {g : ε → ε'} (hr : FailsOnly P r) (hg : ∀ err, P err → Q (g err)) :
    FailsOnly Q (r.mapError g) := by
  cases r with
  | error err => exact error (hg err (hr err rfl))
  | ok a => exact ok a

theorem exists_ok (h : FailsOnly (fun _ => False) r) : ∃ a, r = .ok a := by
  cases r with
  | error err => exact absurd rfl (h err)
  | ok a => exact ⟨a, rfl⟩

end FailsOnly

/-- Printing fails for a number that is too large. -/
def Context.Unprinted (context : Context) (err : Unprintable) : Prop := err = .overflow ∧ context.TooLarge

theorem operatorText_ok {P : Unprintable → Prop} (t : Token) : FailsOnly P (operatorText (some t)) := .ok t.lexeme

namespace Datum

theorem prints_previewText {context : Context} {key : String} {d : Datum} (h : context.get? key = some d) :
    FailsOnly context.Unprinted d.previewText := by
  intro err herr
  unfold previewText at herr
  split at herr
  · cases herr
  · next hoverflow =>
    cases herr
    exact ⟨rfl, key, d, h, hoverflow⟩
  · cases herr

end Datum

namespace Expr

variable {e : Expr} {es : List Expr} {P : Unprintable → Prop}

/-! ### Walks -/

theorem exists_children (h : e.Fits) : ∃ es, e.children = .ok es := by
  refine exists_children_of_ne ?_
  rintro text rfl
  exact h

theorem exists_walkFrom {stack : List Expr} (h : ∀ e ∈ stack, e.Everywhere Fits) : ∃ ds, walkFrom stack = .ok ds := by
  induction hn : sizes stack using Nat.strongRecOn generalizing stack with
  | ind n ih =>
    subst hn
    cases stack with
    | nil => exact ⟨[], by rw [walkFrom]⟩
    | cons e rest =>
      obtain ⟨he, hrest⟩ := List.forall_mem_cons.1 h
      obtain ⟨es, hes⟩ := exists_children he.self
      have hparts : ∀ c ∈ es, c.Everywhere Fits := ((everywhere_iff hes).1 he).2
      obtain ⟨ds, hds⟩ := ih _ (sizes_append_lt hes rest) (List.forall_mem_append.2 ⟨hparts, hrest⟩) rfl
      refine ⟨e :: ds, ?_⟩
      rw [walkFrom_cons, hes]
      show walkFrom (es ++ rest) >>= _ = _
      rw [hds]
      rfl

theorem exists_walk (h : e.Everywhere Fits) : ∃ ds, e.walk = .ok ds :=
  exists_walkFrom (List.forall_mem_singleton.2 h)

/-! ### The two forms -/

variable {sheet : Sheet} {context : Context}

/-- The name of a callee can be asked for. -/
theorem exists_name? (h : e.Fits) (sheet : Sheet) : ∃ name, e.name? sheet = .ok name := by
  cases e with
  | literal v label =>
    cases v with
    | none => exact absurd h id
    | some v => cases v <;> exact ⟨_, rfl⟩
  | substitution slot key label =>
    rw [name?]
    split <;> exact ⟨_, rfl⟩
  | _ => exact ⟨none, rfl⟩

/-- What is printed behind the name of a callee, or behind its printed form where it has no name. -/
theorem prints_named (h : e.Fits) {form : Except Unprintable String} (hform : FailsOnly P form)
    {behind : String → Except Unprintable String} (hbehind : ∀ name, FailsOnly P (behind name)) :
    FailsOnly P (Unprintable.check (e.name? sheet) >>= fun
      | some name => if name = "" then form >>= behind else pure name >>= behind
      | none => form >>= behind) := by
  obtain ⟨name, hname⟩ := exists_name? h sheet
  rw [hname]
  cases name with
  | none => exact hform.bind hbehind
  | some name =>
    change FailsOnly P (if name = "" then form >>= behind else pure name >>= behind)
    by_cases hempty : name = ""
    · rw [if_pos hempty]
      exact hform.bind hbehind
    · rw [if_neg hempty]
      exact hbehind name

theorem prints_prefixTexts (h : ∀ e ∈ es, FailsOnly P (e.prefixText sheet context)) :
    FailsOnly P (prefixTexts sheet context es) := by
  induction es with
  | nil => exact .ok []
  | cons e es ih =>
    obtain ⟨he, hes⟩ := List.forall_mem_cons.1 h
    exact he.bind fun text => (ih hes).map (text :: ·)

theorem prints_rolledTexts (h : ∀ e ∈ es, FailsOnly P (e.rolledText sheet)) : FailsOnly P (rolledTexts sheet es) := by
  induction es with
  | nil => exact .ok []
  | cons e es ih =>
    obtain ⟨he, hes⟩ := List.forall_mem_cons.1 h
    exact he.bind fun text => (ih hes).map (text :: ·)

/-- What is printed behind the target of dice. -/
theorem prints_targeted (modifier : Modifier) {faces : Expr} {target : Target Expr}
    (behind : String → Except Unprintable String) (hbehind : ∀ text, FailsOnly P (behind text))
    (hfaces : FailsOnly P (faces.rolledText sheet)) :
    -- not a hypothesis before the colon, where the `match` would take it as an argument of its own
    (∀ t, target = .value t → FailsOnly P (t.rolledText sheet)) →
    FailsOnly P (if modifier = .plain then pure "" >>= behind
      else match target with
        | .absent => pure "" >>= behind
        | .faces => faces.rolledText sheet >>= behind
        | .value t => t.rolledText sheet >>= behind) := by
  intro htarget
  by_cases hplain : modifier = .plain
  · rw [if_pos hplain]
    exact hbehind ""
  · rw [if_neg hplain]
    cases target with
    | absent => exact hbehind ""
    | faces => exact hfaces.bind hbehind
    | value t => exact (htarget t rfl).bind hbehind

/-- **The debug form of an expression of the grammar** fails only for a whole number of the context. -/
theorem prints_prefixText (hfits : e.Everywhere Fits) (sheet : Sheet) (context : Context) :
    FailsOnly context.Unprinted (e.prefixText sheet context) := by
  induction e using Expr.ind with
  | literal v label => exact .ok _
  | substitution slot key label =>
    obtain ⟨name, rfl⟩ := everywhere_substitution.1 hfits
    rw [prefixText]
    cases sheet.resolved slot with
    | some v => exact .ok _
    | none =>
      have hkey : Unprintable.check (keyText (some (.string name))) = .ok name := rfl
      dsimp only
      rw [hkey]
      apply FailsOnly.after_ok
      cases hd : context.get? name with
      | none => exact .ok _
      | some d => exact (Datum.prints_previewText hd).map _
  | group inner ih => exact (ih (everywhere_group.1 hfits).2).map _
  | unary op operand ih =>
    obtain ⟨⟨⟨t, rfl, -⟩, -⟩, ho⟩ := everywhere_unary.1 hfits
    exact (operatorText_ok t).bind fun op => (ih ho).map _
  | binary op left right ihl ihr =>
    obtain ⟨⟨t, -, rfl, -⟩, hl, hr⟩ := everywhere_binary.1 hfits
    exact (operatorText_ok t).bind fun op => (ihl hl).bind fun left => (ihr hr).map _
  | choice c t e ihc iht ihe =>
    obtain ⟨-, hc, ht, he⟩ := everywhere_choice.1 hfits
    exact (ihc hc).bind fun c => (iht ht).bind fun t => (ihe he).map _
  | call callee token arguments ihc iha =>
    obtain ⟨-, hc, ha⟩ := everywhere_call.1 hfits
    have harguments := prints_prefixTexts fun a hm => iha a hm (ha a hm)
    rw [prefixText]
    exact prints_named hc.self (ihc hc) fun name => harguments.map _
  | dice slot count faces label modifier comparison target ihc ihf iht =>
    obtain ⟨-, hc, hf, ht⟩ := everywhere_dice.1 hfits
    rw [prefixText]
    refine (ihc hc).bind fun count => (ihf hf).bind fun facesText => ?_
    by_cases hplain : modifier = .plain
    · rw [if_pos hplain]
      exact .ok _
    · rw [if_neg hplain]
      cases target with
      | absent => exact .ok _
      | faces => exact .ok _
      | value target => exact (iht target rfl (ht target rfl)).map _
  | pool entries modifier comparison target ihe iht =>
    obtain ⟨-, hes, ht⟩ := everywhere_pool.1 hfits
    have hentries := prints_prefixTexts fun a hm => ihe a hm (hes a hm)
    rw [prefixText]
    refine hentries.bind fun entries => ?_
    cases target with
    | none => exact .ok _
    | some target => exact (iht target rfl (ht target rfl)).map _
  | foreign text => exact absurd hfits.self id

/-- The rolled form of an expression of the grammar never fails. -/
theorem prints_rolledText (hfits : e.Everywhere Fits) (sheet : Sheet) :
    FailsOnly (fun _ => False) (e.rolledText sheet) := by
  induction e using Expr.ind with
  | literal v label => exact .ok _
  | substitution slot key label =>
    obtain ⟨name, rfl⟩ := everywhere_substitution.1 hfits
    rw [rolledText]
    cases sheet.resolved slot with
    | some v => exact .ok _
    | none => exact .ok _
  | group inner ih => exact (ih (everywhere_group.1 hfits).2).map _
  | unary op operand ih =>
    obtain ⟨⟨⟨t, rfl, -⟩, -⟩, ho⟩ := everywhere_unary.1 hfits
    exact (operatorText_ok t).bind fun op => (ih ho).map _
  | binary op left right ihl ihr =>
    obtain ⟨⟨t, -, rfl, -⟩, hl, hr⟩ := everywhere_binary.1 hfits
    exact (ihl hl).bind fun left => (operatorText_ok t).bind fun op => (ihr hr).map _
  | choice c t e ihc iht ihe =>
    obtain ⟨-, hc, ht, he⟩ := everywhere_choice.1 hfits
    exact (ihc hc).bind fun c => (iht ht).bind fun t => (ihe he).map _
  | call callee token arguments ihc iha =>
    obtain ⟨-, hc, ha⟩ := everywhere_call.1 hfits
    have harguments := prints_rolledTexts fun a hm => iha a hm (ha a hm)
    rw [rolledText]
    exact prints_named hc.self (ihc hc) fun name => harguments.map _
  | dice slot count faces label modifier comparison target ihc ihf iht =>
    obtain ⟨-, hc, hf, ht⟩ := everywhere_dice.1 hfits
    have htail (body : String) := prints_targeted modifier
      (fun text => .ok (withLabel (body ++ modifierText modifier comparison text) label)) (fun _ => .ok _) (ihf hf)
      fun t heq => iht t heq (ht t heq)
    rw [rolledText]
    by_cases hrolled : (sheet.result slot).isSome
    · rw [if_pos hrolled]
      exact htail (rollsText (sheet.rolls slot))
    · rw [if_neg hrolled]
      exact (ihc hc).bind fun count => (ihf hf).bind fun faces => htail (count ++ "d" ++ faces)
  | pool entries modifier comparison target ihe iht =>
    obtain ⟨-, hes, ht⟩ := everywhere_pool.1 hfits
    have hentries := prints_rolledTexts fun a hm => ihe a hm (hes a hm)
    rw [rolledText]
    refine hentries.bind fun entries => ?_
    by_cases hplain : modifier = .plain
    · rw [if_pos hplain]
      exact .ok _
    · rw [if_neg hplain]
      cases target with
      | none => exact .ok _
      | some target => exact (iht target rfl (ht target rfl)).map _
  | foreign text => exact absurd hfits.self id

theorem exists_rolledText (hfits : e.Everywhere Fits) (sheet : Sheet) : ∃ s, e.rolledText sheet = .ok s :=
  (prints_rolledText hfits sheet).exists_ok

/-- The debug form on a context without numbers that are too large. -/
theorem exists_prefixText (hfits : e.Everywhere Fits) (sheet : Sheet) (hcontext : ¬ context.TooLarge) :
    ∃ s, e.prefixText sheet context = .ok s :=
  FailsOnly.exists_ok fun err herr => hcontext (prints_prefixText hfits sheet context err herr).2

end Expr

end DiceNotation
