import DiceNotation.Proofs.Congruence

/-!
The course of an evaluation: what it may do to the table.

An evaluation only adds to the sheet, and only under the slots of its expression; it takes its rolls from the front
of the script; and the dice called before it have no influence on it.

Main statement: `evaluate_orderly`, every evaluation goes in this order, whether it fails or not.
-/

namespace DiceNotation

/-! ### Sheets that grow -/

namespace Sheet

/-- What is settled on the first sheet is settled in the same way on the second. -/
structure Kept (s s' : Sheet) : Prop where
  resolved : ∀ {i v}, s.resolved i = some v → s'.resolved i = some v
  result : ∀ {i x}, s.result i = some x → s'.result i = some x

theorem Kept.refl (s : Sheet) : Kept s s := ⟨id, id⟩

theorem Kept.trans {s₁ s₂ s₃ : Sheet} (h : Kept s₁ s₂) (h' : Kept s₂ s₃) : Kept s₁ s₃ :=
  ⟨fun hi => h'.resolved (h.resolved hi), fun hi => h'.result (h.result hi)⟩

/-- Two sheets show the same under a slot. -/
def SameAt (i : Slot) (s s' : Sheet) : Prop :=
  s'.resolved i = s.resolved i ∧ s'.rolls i = s.rolls i ∧ s'.result i = s.result i

theorem SameAt.refl (i : Slot) (s : Sheet) : SameAt i s s := ⟨rfl, rfl, rfl⟩

theorem SameAt.trans {i : Slot} {s₁ s₂ s₃ : Sheet} (h : SameAt i s₁ s₂) (h' : SameAt i s₂ s₃) : SameAt i s₁ s₃ :=
  ⟨h'.1.trans h.1, h'.2.1.trans h.2.1, h'.2.2.trans h.2.2⟩

/-- The second sheet is the first with something added under some of the slots. -/
structure Growth (slots : List Slot) (s s' : Sheet) : Prop extends Kept s s' where
  rolls : ∀ i, s.rolls i <+: s'.rolls i
  shown : ∀ {i x}, s.result i = some x → s'.rolls i = s.rolls i
  outside : ∀ i, i ∉ slots → SameAt i s s'

namespace Growth

variable {slots slots' : List Slot} {s s₁ s₂ s₃ : Sheet}

theorem refl (slots : List Slot) (s : Sheet) : Growth slots s s :=
  ⟨.refl s, fun _ => List.prefix_refl _, fun _ => rfl, fun i _ => .refl i s⟩

theorem trans (h : Growth slots s₁ s₂) (h' : Growth slots s₂ s₃) : Growth slots s₁ s₃ where
  toKept := h.toKept.trans h'.toKept
  rolls i := (h.rolls i).trans (h'.rolls i)
  shown hi := (h'.shown (h.result hi)).trans (h.shown hi)
  outside i hi := (h.outside i hi).trans (h'.outside i hi)

theorem mono (h : Growth slots s₁ s₂) (hs : slots ⊆ slots') : Growth slots' s₁ s₂ :=
  { h with outside := fun i hi => h.outside i fun hm => hi (hs hm) }

theorem resolve {slot : Slot} (v : Value) (h : s.resolved slot = none) (hs : slot ∈ slots) :
    Growth slots s (s.resolve slot v) where
  resolved {i w} hi := by
    by_cases hslot : i = slot
    · subst hslot; simp [h] at hi
    · simpa [hslot] using hi
  result := id
  rolls _ := List.prefix_refl _
  shown _ := rfl
  outside i hi := by
    have hslot : i ≠ slot := fun e => hi (e ▸ hs)
    exact ⟨by simp [hslot], rfl, rfl⟩

/-- Growth, and then something new under a slot that had no result at first. -/
theorem afterwards {slot : Slot} (h : Growth slots s₁ s₂) (hslot : s₁.result slot = none) (hs : slot ∈ slots)
    (hres : s₃.resolved = s₂.resolved) (hrolls : s₂.rolls slot <+: s₃.rolls slot)
    (hout : ∀ i, i ≠ slot → SameAt i s₂ s₃) : Growth slots s₁ s₃ where
  resolved hi := by rw [hres]; exact h.resolved hi
  result {i x} hi := by
    have hne : i ≠ slot := by rintro rfl; simp [hslot] at hi
    rw [(hout i hne).2.2]
    exact h.result hi
  rolls i := by
    by_cases hne : i = slot
    · subst hne; exact (h.rolls i).trans hrolls
    · rw [(hout i hne).2.1]; exact h.rolls i
  shown {i x} hi := by
    have hne : i ≠ slot := by rintro rfl; simp [hslot] at hi
    rw [(hout i hne).2.1]
    exact h.shown hi
  outside i hi := by
    have hne : i ≠ slot := fun e => hi (e ▸ hs)
    exact (h.outside i hi).trans (hout i hne)

end Growth

end Sheet

/-- A table at which other dice were called before. -/
def Table.after (calls : List Nat) (t : Table) : Table := { t with calls := calls ++ t.calls }

namespace Play

variable {α β : Type}

/-! ### Steps at a table -/

/-- What a step gives at a table, and the table afterwards. -/
def on (x : Play α) (t : Table) : Except Failure α × Table := x.run.run t

@[simp] theorem on_pure (a : α) (t : Table) : (pure a : Play α).on t = (.ok a, t) := rfl

@[simp] theorem on_throw (failure : Failure) (t : Table) : (throw failure : Play α).on t = (.error failure, t) := rfl

@[simp] theorem on_sheet (t : Table) : sheet.on t = (.ok t.sheet, t) := rfl

@[simp] theorem on_ofOutcome (r : Except Failure α) (t : Table) : (ofOutcome r).on t = (r, t) := by cases r <;> rfl

theorem on_bind (x : Play α) (f : α → Play β) (t : Table) :
    (x >>= f).on t = match x.on t with
      | (.ok a, t') => (f a).on t'
      | (.error failure, t') => (.error failure, t') := by
  show (match x.on t with | (r, t') => (ExceptT.bindCont f r : StateM Table _) t') = _
  rcases x.on t with ⟨_ | _, _⟩ <;> rfl

variable {x : Play α} {f : α → Play β} {a : α} {t t' : Table}

theorem on_bind_ok (h : x.on t = (.ok a, t')) : (x >>= f).on t = (f a).on t' := by
  rw [on_bind, h]

@[simp] theorem on_lift (r : Except Fault α) (t : Table) : (lift r).on t = (r.mapError (.fault · none), t) := by
  cases r <;> rfl

@[simp] theorem on_present (r : Except Lack α) (t : Table) : (present r).on t = (r.mapError .lacking, t) := by
  cases r <;> rfl

/-- A failure at an operator, if there is one. -/
def locateAt (op : Option Token) (failure : Failure) : Failure :=
  match op with
  | none => failure
  | some op => failure.locate op

theorem on_tryCatch (x : Play α) (handle : Failure → Play α) (t : Table) :
    (tryCatch x handle).on t = match x.on t with
      | (.ok a, t') => (.ok a, t')
      | (.error failure, t') => (handle failure).on t' := by
  simp only [on, ExceptT.run, StateT.run, tryCatch, tryCatchThe, MonadExceptOf.tryCatch, ExceptT.tryCatch, ExceptT.mk,
    bind, StateT.bind]
  rcases x t with ⟨_ | _, _⟩ <;> rfl

theorem on_at (op : Option Token) (x : Play α) (t : Table) :
    (at? op x).on t = ((x.on t).1.mapError (locateAt op), (x.on t).2) := by
  cases op with
  | none =>
    show x.on t = _
    rcases x.on t with ⟨_ | _, _⟩ <;> rfl
  | some op =>
    rw [at?, on_tryCatch]
    rcases x.on t with ⟨_ | _, _⟩ <;> rfl

theorem on_substitute (context : Context) (slot : Slot) (key : Option Value) (t : Table) :
    (substitute context slot key).on t = match t.sheet.resolved slot with
      | some v => (.ok v, t)
      | none => match (keyText key).mapError .lacking >>= lookUp context with
        | .ok v => (.ok v, { t with sheet := t.sheet.resolve slot v })
        | .error failure => (.error failure, t) := by
  rw [substitute, on_bind_ok (on_sheet t)]
  cases t.sheet.resolved slot with
  | some v => rfl
  | none =>
    dsimp only
    rw [on_bind, on_present]
    cases keyText key with
    | error l => rfl
    | ok k =>
      show (ofOutcome (lookUp context k) >>= _ : Play Value).on t =
        match lookUp context k with | .ok v => _ | .error e => _
      rw [on_bind, on_ofOutcome]
      cases lookUp context k <;> rfl

theorem on_named (builtins : Builtins) (target : Expr) (n : Nat) (t : Table) :
    (named builtins target n).on t =
      ((target.name? t.sheet).mapError .lacking >>= fun name =>
        (callee builtins name n).mapError (.fault · none), t) := by
  rw [named, on_bind_ok (on_sheet t), on_bind, on_present]
  cases target.name? t.sheet with
  | error l => rfl
  | ok name => exact on_lift _ t

theorem on_once (slot : Slot) (step : Play Number) (t : Table) :
    (once slot step).on t = match t.sheet.result slot with
      | some x => (.ok x, t)
      | none => step.on t := by
  rw [once, on_bind_ok (on_sheet t)]
  cases t.sheet.result slot <;> rfl

theorem on_once_settled {slot : Slot} {y : Number} (h : t.sheet.result slot = some y) (step : Play Number) :
    (once slot step).on t = (.ok y, t) := by
  rw [on_once, h]

theorem on_once_open {slot : Slot} (h : t.sheet.result slot = none) (step : Play Number) :
    (once slot step).on t = step.on t := by
  rw [on_once, h]

/-- What is left of a table when a roll has taken its faces, called them out and recorded itself. -/
def rolled (slot : Slot) (faces : Nat) (r : Roll) (t : Table) : Table :=
  ⟨t.sheet.record slot r.recorded, t.script.drop r.used, t.calls ++ List.replicate r.used faces⟩

theorem on_make (slot : Slot) (faces : Nat) (rule : List Nat → Roll) (t : Table) :
    (make slot faces rule).on t =
      let r := rule (t.script.map (faceOf faces))
      match r.outcome with
      | .ok x => (.ok x, { rolled slot faces r t with sheet := (rolled slot faces r t).sheet.settle slot x })
      | .error failure => (.error failure, rolled slot faces r t) := by
  show (ofOutcome (rule (t.script.map (faceOf faces))).outcome >>= fun x => _ : Play Number).on _ = _
  rw [on_bind, on_ofOutcome]
  dsimp only
  cases (rule (t.script.map (faceOf faces))).outcome <;> rfl

section Make

variable {slot : Slot} {faces : Nat} {rule : List Nat → Roll}

theorem fst_on_make : ((make slot faces rule).on t).1 = (rule (t.script.map (faceOf faces))).outcome := by
  rw [on_make]
  dsimp only
  cases (rule (t.script.map (faceOf faces))).outcome <;> rfl

theorem script_on_make :
    ((make slot faces rule).on t).2.script = t.script.drop (rule (t.script.map (faceOf faces))).used := by
  rw [on_make]
  dsimp only
  cases (rule (t.script.map (faceOf faces))).outcome <;> rfl

theorem calls_on_make : ((make slot faces rule).on t).2.calls =
    t.calls ++ List.replicate (rule (t.script.map (faceOf faces))).used faces := by
  rw [on_make]
  dsimp only
  cases (rule (t.script.map (faceOf faces))).outcome <;> rfl

theorem rolls_on_make : ((make slot faces rule).on t).2.sheet.rolls slot =
    t.sheet.rolls slot ++ (rule (t.script.map (faceOf faces))).recorded := by
  rw [on_make]
  dsimp only
  cases (rule (t.script.map (faceOf faces))).outcome <;> simp [rolled, Sheet.settle]

theorem result_on_make (hopen : t.sheet.result slot = none) : ((make slot faces rule).on t).2.sheet.result slot =
    (rule (t.script.map (faceOf faces))).outcome.toOption := by
  rw [on_make]
  dsimp only
  cases (rule (t.script.map (faceOf faces))).outcome with
  | error failure => exact hopen
  | ok x => simp [Except.toOption]

/-- What a roll comes to, and what it adds to the table. -/
theorem eq_of_make {u : Table} {r : Except Failure Number} (h : (make slot faces rule).on t = (r, u)) :
    (rule (t.script.map (faceOf faces))).outcome = r ∧
      u.sheet.rolls slot = t.sheet.rolls slot ++ (rule (t.script.map (faceOf faces))).recorded ∧
      u.calls = t.calls ++ List.replicate (rule (t.script.map (faceOf faces))).used faces ∧
      (t.sheet.result slot = none → u.sheet.result slot = r.toOption) := by
  obtain rfl : ((make slot faces rule).on t).1 = r := by rw [h]
  obtain rfl : ((make slot faces rule).on t).2 = u := by rw [h]
  exact ⟨fst_on_make.symm, rolls_on_make, calls_on_make, fun hopen => by rw [result_on_make hopen, fst_on_make]⟩

end Make

/-! ### Orderly steps -/

/-- A step that only adds to the sheet, under some slots, takes from the front of the script, and does not look at
the calls before it. -/
structure Orderly (slots : List Slot) (x : Play α) : Prop where
  grows : ∀ t : Table, t.sheet.Growth slots (x.on t).2.sheet
  takes : ∀ t : Table, (x.on t).2.script <:+ t.script
  after : ∀ (t : Table) calls, x.on (t.after calls) = ((x.on t).1, (x.on t).2.after calls)

namespace Orderly

variable {slots slots' : List Slot}

theorem mono (h : Orderly slots x) (hs : slots ⊆ slots') : Orderly slots' x :=
  ⟨fun t => (h.grows t).mono hs, h.takes, h.after⟩

/-- A step that leaves the table alone and looks at the sheet only. -/
theorem of_still {r : Sheet → Except Failure α} (h : ∀ t : Table, x.on t = (r t.sheet, t)) : Orderly slots x where
  grows t := by rw [h]; exact .refl _ _
  takes t := by simp only [h, List.suffix_refl]
  after t calls := by rw [h, h]; rfl

protected theorem pure (a : α) : Orderly slots (Pure.pure a : Play α) := .of_still (r := fun _ => .ok a) (on_pure a)

theorem bind (hx : Orderly slots x) (hf : ∀ a, Orderly slots (f a)) : Orderly slots (x >>= f) where
  grows t := by
    rw [on_bind]
    have h := hx.grows t
    generalize x.on t = r at h ⊢
    rcases r with ⟨failure | a, t'⟩
    · exact h
    · exact h.trans ((hf a).grows t')
  takes t := by
    rw [on_bind]
    have h := hx.takes t
    generalize x.on t = r at h ⊢
    rcases r with ⟨failure | a, t'⟩
    · exact h
    · exact ((hf a).takes t').trans h
  after t calls := by
    rw [on_bind, on_bind, hx.after]
    generalize x.on t = r
    rcases r with ⟨failure | a, t'⟩
    · rfl
    · exact (hf a).after t' calls

theorem located (op : Option Token) (h : Orderly slots x) : Orderly slots (at? op x) where
  grows t := by rw [on_at]; exact h.grows t
  takes t := by rw [on_at]; exact h.takes t
  after t calls := by rw [on_at, on_at, h.after]

theorem substitute (context : Context) {slot : Slot} (key : Option Value) (hs : slot ∈ slots) :
    Orderly slots (Play.substitute context slot key) where
  grows t := by
    rw [on_substitute]
    cases hr : t.sheet.resolved slot with
    | some v => exact .refl _ _
    | none =>
      dsimp only
      generalize (keyText key).mapError Failure.lacking >>= lookUp context = r
      cases r with
      | error failure => exact .refl _ _
      | ok v => exact .resolve v hr hs
  takes t := by
    rw [on_substitute]
    cases t.sheet.resolved slot with
    | some v => exact List.suffix_refl _
    | none =>
      dsimp only
      generalize (keyText key).mapError Failure.lacking >>= lookUp context = r
      cases r <;> exact List.suffix_refl _
  after t calls := by
    rw [on_substitute, on_substitute]
    show (match t.sheet.resolved slot with | some v => _ | none => _) = _
    cases t.sheet.resolved slot with
    | some v => rfl
    | none =>
      dsimp only
      generalize (keyText key).mapError Failure.lacking >>= lookUp context = r
      cases r <;> rfl

theorem named (builtins : Builtins) (target : Expr) (n : Nat) : Orderly slots (Play.named builtins target n) :=
  .of_still (r := fun s => (target.name? s).mapError .lacking >>= fun name =>
    (callee builtins name n).mapError (.fault · none)) (on_named builtins target n)

end Orderly

/-! ### Rolls -/

section Make

variable (slot : Slot) (faces : Nat) (rule : List Nat → Roll)

/-- A roll is growth for a slot that had no result at first. -/
theorem grows_make {slots : List Slot} {t₀ t : Table} (h : t₀.sheet.Growth slots t.sheet)
    (hslot : t₀.sheet.result slot = none) (hs : slot ∈ slots) :
    t₀.sheet.Growth slots ((make slot faces rule).on t).2.sheet := by
  rw [on_make]
  generalize rule (t.script.map (faceOf faces)) = r
  dsimp only
  cases r.outcome with
  | error failure =>
    refine h.afterwards hslot hs rfl ?_ fun i hi => ⟨rfl, ?_, rfl⟩
    · simp [rolled]
    · simp [rolled, hi]
  | ok x =>
    refine h.afterwards hslot hs rfl ?_ fun i hi => ⟨rfl, ?_, ?_⟩
    · simp [rolled, Sheet.settle]
    · simp [rolled, Sheet.settle, hi]
    · simp [rolled, Sheet.record, hi]

theorem takes_make (t : Table) : ((make slot faces rule).on t).2.script <:+ t.script := by
  rw [script_on_make]
  exact List.drop_suffix _ _

theorem rolled_after (r : Roll) (t : Table) (calls : List Nat) :
    rolled slot faces r (t.after calls) = (rolled slot faces r t).after calls := by
  simp [rolled, Table.after, List.append_assoc]

theorem make_after (t : Table) (calls : List Nat) : (make slot faces rule).on (t.after calls) =
    (((make slot faces rule).on t).1, ((make slot faces rule).on t).2.after calls) := by
  rw [on_make, on_make]
  dsimp only
  rw [rolled_after]
  show (match (rule (t.script.map (faceOf faces))).outcome with | .ok x => _ | .error failure => _) = _
  cases (rule (t.script.map (faceOf faces))).outcome <;> rfl

end Make

theorem Orderly.once {slots : List Slot} {slot : Slot} {operands : Play α} (h : Orderly slots operands)
    (hs : slot ∈ slots) (faces : α → Nat) (rule : α → List Nat → Roll) :
    Orderly slots (once slot (operands >>= fun o => make slot (faces o) (rule o))) where
  grows t := by
    rw [on_once]
    cases hr : t.sheet.result slot with
    | some x => exact .refl _ _
    | none =>
      dsimp only
      rw [on_bind]
      have hg := h.grows t
      generalize operands.on t = r at hg ⊢
      rcases r with ⟨failure | o, t'⟩
      · exact hg
      · exact grows_make slot _ _ hg hr hs
  takes t := by
    rw [on_once]
    cases t.sheet.result slot with
    | some x => exact List.suffix_refl _
    | none =>
      dsimp only
      rw [on_bind]
      have ht := h.takes t
      generalize operands.on t = r at ht ⊢
      rcases r with ⟨failure | o, t'⟩
      · exact ht
      · exact (takes_make slot _ _ t').trans ht
  after t calls := by
    rw [on_once, on_once]
    show (match t.sheet.result slot with | some v => _ | none => _) = _
    cases t.sheet.result slot with
    | some x => rfl
    | none =>
      dsimp only
      rw [on_bind, on_bind, h.after]
      generalize operands.on t = r
      rcases r with ⟨failure | o, t'⟩
      · rfl
      · exact make_after slot _ _ t' calls

/-! ### Evaluations -/

theorem orderly_congruence (setting : Setting) (slots : List Slot) :
    Congruence setting setting (fun e => e.slots ⊆ slots) fun x _ => Orderly slots x where
  pure a := .pure a
  throw failure := .of_still (r := fun _ => .error failure) (on_throw failure)
  bind hx hf := hx.bind hf
  located op hx := hx.located op
  substitute _ key _ hs := .substitute _ key (hs (by simp [Expr.slots]))
  named target n _ := .named _ target n
  once slot count faces label modifier comparison target hs ho := .once ho (hs (by simp [Expr.slots_dice])) _ _

end Play

/-- **An evaluation is orderly**, with the slots of its expression. -/
theorem Expr.evaluate_orderly (setting : Setting) (e : Expr) : Play.Orderly e.slots (e.evaluate setting) :=
  (Play.orderly_congruence setting e.slots).evaluate fun _ hd => hd.slots_sublist.subset

theorem Expr.evaluateOperands_orderly (setting : Setting) (count faces : Expr) (modifier : Modifier)
    (target : Target Expr) : Play.Orderly (count.slots ++ (faces.slots ++ targetSlots target))
      (count.evaluateOperands setting faces modifier target) := by
  have ho := Play.orderly_congruence setting (count.slots ++ (faces.slots ++ targetSlots target))
  refine ho.evaluateOperands modifier ?_ ?_ ?_
  · exact (count.evaluate_orderly setting).mono (List.subset_append_left _ _)
  · exact (faces.evaluate_orderly setting).mono
      (List.subset_append_of_subset_right _ (List.subset_append_left _ _))
  · rintro e rfl
    exact (e.evaluate_orderly setting).mono (List.subset_append_of_subset_right _ (List.subset_append_right _ _))

end DiceNotation
