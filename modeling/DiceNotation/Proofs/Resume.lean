import DiceNotation.Proofs.Reading
import DiceNotation.Proofs.Replay
import DiceNotation.Proofs.Rolls

/-!
Going on after a missing key.

An evaluation that stops for lack of a key in the context has rolled nothing that a later one would roll again: dice
look at all their operands before the first roll, and a roll that was made stands on the sheet. The invariant is
`Resumes`: once the first run has ended with a value or for lack of a key, the second run does the same from the
beginning, on the rolls that the first one used and any others, as from where the first one ended, on the others.

Main statement: `Form.evaluate_resumed`.
-/

namespace DiceNotation

/-- A failure for lack of a key in the context. -/
def Failure.IsMissingKey (failure : Failure) : Prop := ∃ key place, failure = .fault (.missingKey key) place

theorem Failure.isMissingKey_of_locate {failure : Failure} {op : Token} (h : (failure.locate op).IsMissingKey) :
    failure.IsMissingKey := by
  obtain ⟨key, place, h⟩ := h
  unfold locate at h
  split at h
  · split at h <;> cases h <;> exact ⟨key, none, rfl⟩
  · exact ⟨key, place, h⟩

namespace Play

variable {α β : Type}

theorem not_isMissingKey_of_roll {modifier : Modifier} {c : Comparison} {target : Number} {count faces : Nat}
    {shown : List Nat} {failure : Failure}
    (h : (roll modifier c target count faces shown).outcome = .error failure) : ¬ failure.IsMissingKey := by
  rintro ⟨key, place, rfl⟩
  rcases outcome_error_roll h with h | h | h <;> cases h

/-- An outcome is a value, or a failure that a larger context may mend. -/
def Mendable (r : Except Failure α) : Prop := ∀ failure, r = .error failure → failure.IsMissingKey

/-- From one table to another some rolls were used and called out, and the step does the same on the first one, with
these rolls and any others, as on the second one, with the others. -/
def GoesOn (y : Play α) (t t' : Table) : Prop :=
  ∃ used called, t.script = used ++ t'.script ∧ t'.calls = t.calls ++ called ∧
    ∀ script calls, y.on ⟨t.sheet, used ++ script, calls⟩ = y.on ⟨t'.sheet, script, calls ++ called⟩

theorem GoesOn.refl (y : Play α) (t : Table) : GoesOn y t t :=
  ⟨[], [], rfl, (List.append_nil _).symm, fun script calls => by rw [List.append_nil, List.nil_append]⟩

/-- After an outcome of the first step that is mendable, the second step goes on from where the first one ended. -/
def Resumes (x y : Play α) : Prop :=
  ∀ (t t' : Table) (r : Except Failure α), x.on t = (r, t') → Mendable r → GoesOn y t t'

/-! ### Rolls -/

section Make

variable {slot : Slot} {faces : Nat} {rule : List Nat → Roll} {t t' : Table}

/-- A roll with a result is the same on the rolls that it used and any others. -/
theorem again_make (hrule : Roll.Determined rule) {x : Number} (h : (make slot faces rule).on t = (.ok x, t')) :
    ∃ used called, t.script = used ++ t'.script ∧ t'.calls = t.calls ++ called ∧
      ∀ script calls, (make slot faces rule).on ⟨t.sheet, used ++ script, calls⟩ =
        (.ok x, ⟨t'.sheet, script, calls ++ called⟩) := by
  rw [on_make] at h
  generalize hr : rule (t.script.map (faceOf faces)) = r at h
  dsimp only at h
  cases hx : r.outcome with
  | error failure => rw [hx] at h; cases h
  | ok y =>
    rw [hx] at h
    cases h
    obtain ⟨hle, hsame⟩ := hrule (t.script.map (faceOf faces)) x (by rw [hr, hx])
    rw [hr, List.length_map] at hle
    rw [hr] at hsame
    have hlen : (t.script.take r.used).length = r.used := List.length_take_of_le hle
    refine ⟨t.script.take r.used, List.replicate r.used faces, (List.take_append_drop _ _).symm, rfl, ?_⟩
    intro script calls
    have hshown : rule ((t.script.take r.used ++ script).map (faceOf faces)) = r := by
      rw [List.map_append, List.map_take]
      exact hsame _
    rw [on_make, hshown]
    simp only [hx, rolled, List.drop_left' hlen]

/-- Where a rule never fails for lack of a key, only a result of it is mendable. -/
theorem ok_of_mendable_make
    (hfail : ∀ shown failure, (rule shown).outcome = .error failure → ¬ failure.IsMissingKey)
    {r : Except Failure Number} (h : (make slot faces rule).on t = (r, t')) (hm : Mendable r) : ∃ x, r = .ok x := by
  rw [on_make] at h
  dsimp only at h
  cases hx : (rule (t.script.map (faceOf faces))).outcome with
  | ok x => rw [hx] at h; cases h; exact ⟨x, rfl⟩
  | error failure =>
    rw [hx] at h
    cases h
    exact absurd (hm _ rfl) (hfail _ _ hx)

end Make

/-! ### Steps -/

namespace Resumes

/-- A step that leaves the table alone. -/
theorem of_still {x y : Play α} (h : ∀ t, (x.on t).2 = t) : Resumes x y := by
  intro t t' r hx _
  obtain rfl : t = t' := by rw [← h t, hx]
  exact .refl y t

theorem bind {slots : List Slot} {x y : Play α} {f g : α → Play β} (hx : Resumes x y) (hr : Replays x y)
    (hf : ∀ a, Orderly slots (f a)) (hfg : ∀ a, Resumes (f a) (g a)) : Resumes (x >>= f) (y >>= g) := by
  intro t t' r h hm
  rw [on_bind] at h
  generalize hxt : x.on t = first at h
  rcases first with ⟨failure | a, t₁⟩
  · -- the first part stopped: the second part is never reached, on either way
    cases h
    have hm' : Mendable (.error failure : Except Failure α) := fun _ he => by cases he; exact hm _ rfl
    obtain ⟨used, called, hs, hc, hy⟩ := hx _ _ _ hxt hm'
    exact ⟨used, called, hs, hc, fun script calls => by rw [on_bind, on_bind, hy]⟩
  · -- the first part succeeded, and is only replayed from where the second part ended
    obtain ⟨used, called, hs, hc, hy⟩ := hx _ _ _ hxt fun _ he => by cases he
    obtain ⟨used', called', hs', hc', hg⟩ := hfg a _ _ _ h hm
    have hk : t₁.sheet.Kept t'.sheet := by
      have := ((hf a).grows t₁).toKept
      rwa [show ((f a).on t₁).2 = t' from congrArg Prod.snd h] at this
    have replay : ∀ s script calls, t₁.sheet.Kept s → y.on ⟨s, script, calls⟩ = (.ok a, ⟨s, script, calls⟩) :=
      fun s script calls => hr _ _ _ hxt ⟨s, script, calls⟩
    refine ⟨used ++ used', called ++ called', by rw [hs, hs', List.append_assoc],
      by rw [hc', hc, List.append_assoc], ?_⟩
    intro script calls
    calc (y >>= g).on ⟨t.sheet, used ++ used' ++ script, calls⟩
        = (g a).on ⟨t₁.sheet, used' ++ script, calls ++ called⟩ := by
          rw [List.append_assoc, on_bind, hy, replay _ _ _ (.refl _)]
      _ = (g a).on ⟨t'.sheet, script, calls ++ called ++ called'⟩ := hg _ _
      _ = (y >>= g).on ⟨t'.sheet, script, calls ++ (called ++ called')⟩ := by
          rw [← List.append_assoc, on_bind, replay _ _ _ hk]

theorem located {x y : Play α} (op : Option Token) (h : Resumes x y) : Resumes (at? op x) (at? op y) := by
  intro t t' r ht hm
  rw [on_at] at ht
  generalize hx : x.on t = first at ht
  obtain ⟨r₁, t₁⟩ := first
  cases ht
  have hm₁ : Mendable r₁ := by
    rintro failure rfl
    have := hm _ rfl
    cases op with
    | none => exact this
    | some op => exact Failure.isMissingKey_of_locate this
  obtain ⟨used, called, hs, hc, hy⟩ := h _ _ _ hx hm₁
  exact ⟨used, called, hs, hc, fun script calls => by rw [on_at, on_at, hy]⟩

/-- Where one context has a value for a key, a larger one has it too. -/
theorem lookUp_of_subset {context context' : Context}
    (hsub : ∀ key d, context.get? key = some d → context'.get? key = some d) {key : String} {v : Value}
    (h : lookUp context key = .ok v) : lookUp context' key = .ok v := by
  unfold lookUp at h ⊢
  cases hd : context.get? key with
  | none => rw [hd] at h; cases h
  | some d => rw [hd] at h; rwa [hsub key d hd]

theorem substitute {context context' : Context}
    (hsub : ∀ key d, context.get? key = some d → context'.get? key = some d) (slot : Slot) (key : Option Value) :
    Resumes (Play.substitute context slot key) (Play.substitute context' slot key) := by
  intro t t' r h hm
  rw [on_substitute] at h
  cases hs : t.sheet.resolved slot with
  | some w => rw [hs] at h; cases h; exact .refl _ t
  | none =>
    rw [hs] at h
    dsimp only at h
    cases hv : (keyText key).mapError Failure.lacking >>= lookUp context with
    | error failure => rw [hv] at h; cases h; exact .refl _ t
    | ok v =>
      rw [hv] at h
      cases h
      have hv' : (keyText key).mapError Failure.lacking >>= lookUp context' = .ok v := by
        cases hk : keyText key with
        | error l => rw [hk] at hv; cases hv
        | ok k => rw [hk] at hv; exact lookUp_of_subset hsub hv
      refine ⟨[], [], rfl, (List.append_nil _).symm, fun script calls => ?_⟩
      rw [on_substitute, on_substitute]
      simp only [hs, hv', Sheet.resolved_resolve, if_true, List.nil_append, List.append_nil]

theorem named (builtins : Builtins) (target : Expr) (n : Nat) :
    Resumes (Play.named builtins target n) (Play.named builtins target n) :=
  of_still fun t => by rw [on_named]

theorem once {slots : List Slot} {slot : Slot} {operands operands' : Play α} (ho : Orderly slots operands)
    (hslot : slot ∉ slots) (hr : Replays operands operands') (h : Resumes operands operands') (faces : α → Nat)
    {rule : α → List Nat → Roll} (hrule : ∀ o, Roll.Determined (rule o))
    (hfail : ∀ o shown failure, (rule o shown).outcome = .error failure → ¬ failure.IsMissingKey) :
    Resumes (Play.once slot (operands >>= fun o => make slot (faces o) (rule o)))
      (Play.once slot (operands' >>= fun o => make slot (faces o) (rule o))) := by
  intro t t' r ht hm
  rw [on_once] at ht
  cases hres : t.sheet.result slot with
  | some x =>
    rw [hres] at ht
    cases ht
    exact .refl _ t
  | none =>
    rw [hres] at ht
    dsimp only at ht
    rw [on_bind] at ht
    generalize hot : operands.on t = first at ht
    rcases first with ⟨failure | o, t₁⟩
    · -- an operand stopped: the dice have no result yet, and come back to the operands
      cases ht
      have hm' : Mendable (.error failure : Except Failure α) := fun _ he => by cases he; exact hm _ rfl
      obtain ⟨used, called, hs, hc, hy⟩ := h _ _ _ hot hm'
      have hres₁ : t'.sheet.result slot = none := by
        have := ((ho.grows t).outside slot hslot).2.2
        rwa [hot, hres] at this
      refine ⟨used, called, hs, hc, fun script calls => ?_⟩
      rw [on_once, on_once, hres, hres₁]
      dsimp only
      rw [on_bind, on_bind, hy]
    · -- the operands are there: the dice are rolled, and are not rolled again
      obtain ⟨used, called, hs, hc, hy⟩ := h _ _ _ hot fun _ he => by cases he
      obtain ⟨x, rfl⟩ := ok_of_mendable_make (hfail o) ht hm
      obtain ⟨used', called', hs', hc', hy'⟩ := again_make (hrule o) ht
      refine ⟨used ++ used', called ++ called', by rw [hs, hs', List.append_assoc],
        by rw [hc', hc, List.append_assoc], fun script calls => ?_⟩
      have hreplay : ∀ script calls, operands'.on ⟨t₁.sheet, script, calls⟩ = (.ok o, ⟨t₁.sheet, script, calls⟩) :=
        fun script calls => hr _ _ _ hot ⟨t₁.sheet, script, calls⟩ (.refl _)
      rw [on_once, on_once, hres, Replays.result_make ht]
      dsimp only
      rw [List.append_assoc, on_bind, hy, hreplay]
      dsimp only
      rw [hy', List.append_assoc]

end Resumes

theorem resumes_congruence (builtins : Builtins) {context context' : Context}
    (hsub : ∀ key d, context.get? key = some d → context'.get? key = some d) (slots : List Slot) :
    Congruence ⟨context, builtins⟩ ⟨context', builtins⟩ (fun e => e.slots ⊆ slots ∧ e.slots.Nodup)
      fun x y => Orderly slots x ∧ Replays x y ∧ Resumes x y :=
  have hr := replays_congruence builtins context context' slots
  { pure := fun a => ⟨(hr.pure a).1, (hr.pure a).2, .of_still fun _ => rfl⟩
    throw := fun failure => ⟨(hr.throw failure).1, (hr.throw failure).2, .of_still fun _ => rfl⟩
    bind := fun hx hf =>
      have hbind := hr.bind ⟨hx.1, hx.2.1⟩ fun a => ⟨(hf a).1, (hf a).2.1⟩
      ⟨hbind.1, hbind.2, hx.2.2.bind hx.2.1 (fun a => (hf a).1) fun a => (hf a).2.2⟩
    located := fun op hx => ⟨hx.1.located op, hx.2.1.located op, hx.2.2.located op⟩
    substitute := fun slot key label hs =>
      have hsub' := hr.substitute slot key label hs.1
      ⟨hsub'.1, hsub'.2, .substitute hsub slot key⟩
    named := fun target n hs => ⟨(hr.named target n hs.1).1, (hr.named target n hs.1).2, .named builtins target n⟩
    once := fun slot count faces label modifier comparison target hs h => by
      have hslot : slot ∉ count.slots ++ (faces.slots ++ Expr.targetSlots target) := by
        have := hs.2
        rw [Expr.slots_dice, List.perm_middle.nodup_iff, List.nodup_cons] at this
        exact this.1
      have honce := hr.once slot count faces label modifier comparison target hs.1 ⟨h.1, h.2.1⟩
      refine ⟨honce.1, honce.2, .once (Expr.evaluateOperands_orderly _ count faces modifier target) hslot h.2.1 h.2.2 _
        (fun o => determined_roll _ _ _ _ _) fun o shown failure => not_isMissingKey_of_roll⟩ }

end Play

/-- An evaluation of an expression whose slots are all different goes on, in a larger context, from where one for lack
of a key ended. -/
theorem Expr.evaluate_resumes {e : Expr} (hslots : e.slots.Nodup) (builtins : Builtins) {context context' : Context}
    (hsub : ∀ key d, context.get? key = some d → context'.get? key = some d) :
    Play.Resumes (e.evaluate ⟨context, builtins⟩) (e.evaluate ⟨context', builtins⟩) :=
  ((Play.resumes_congruence builtins hsub e.slots).evaluate fun _ hd =>
    ⟨hd.slots_sublist.subset, hd.slots_sublist.nodup hslots⟩).2.2

namespace Form

/-- **An evaluation that lacked a key is resumed.** When the evaluation of a form that was read from tokens ends for
lack of a key, it has used some rolls at the front of its script; and evaluating the form as it stands then, in any
context that keeps what the first one had, comes to the same as a single evaluation on the rolls used and the new
ones. No roll is lost or made again: the sheets are the same, and so are the dice called and the rolls left over. -/
theorem evaluate_resumed {tokens : List Token} {form : Form} (hread : Expr.ofTokens tokens = .ok form.expr)
    {builtins : Builtins} {context context' : Context}
    (hsub : ∀ key d, context.get? key = some d → context'.get? key = some d) {script : List Int} {key : String}
    {place : Option Place} {table : Table}
    (h : form.evaluate ⟨context, builtins⟩ script = (.error (.fault (.missingKey key) place), table)) :
    ∃ used, script = used ++ table.script ∧ ∀ script',
      let resumed := { form with sheet := table.sheet }.evaluate ⟨context', builtins⟩ script'
      let single := form.evaluate ⟨context', builtins⟩ (used ++ script')
      resumed.1 = single.1 ∧ resumed.2.sheet = single.2.sheet ∧ resumed.2.script = single.2.script ∧
        table.calls ++ resumed.2.calls = single.2.calls := by
  have hslots := (Expr.ofTokens_sound hread).2.1
  have hmend : Play.Mendable (.error (.fault (.missingKey key) place) : Except Failure (Option Value)) := by
    rintro _ ⟨⟩
    exact ⟨key, place, rfl⟩
  obtain ⟨used, called, hs, hc, hy⟩ :=
    Expr.evaluate_resumes hslots builtins hsub ⟨form.sheet, script, []⟩ table _ h hmend
  refine ⟨used, hs, fun script' => ?_⟩
  obtain rfl : table.calls = called := hc
  have hafter := (Expr.evaluate_orderly ⟨context', builtins⟩ form.expr).after ⟨table.sheet, script', []⟩ table.calls
  have hsingle : form.evaluate ⟨context', builtins⟩ (used ++ script') =
      (form.expr.evaluate ⟨context', builtins⟩).on (Table.after table.calls ⟨table.sheet, script', []⟩) := by
    show (form.expr.evaluate ⟨context', builtins⟩).on ⟨form.sheet, used ++ script', []⟩ = _
    rw [hy, Table.after, List.append_nil, List.nil_append]
  intro resumed single
  have hsame : single = (resumed.1, resumed.2.after table.calls) := hsingle.trans hafter
  rw [hsame]
  exact ⟨rfl, rfl, rfl, rfl⟩

theorem evaluate_resumed_dice : ∃ (tokens : List Token) (form : Form) (table : Table),
    Token.scan "2d6r1 + 3d@faces" = .ok tokens ∧ Expr.ofTokens tokens = .ok form.expr ∧
      form.evaluate ⟨[("bonus", .int 2)], .standard⟩ [0, 3, 4, 1] =
        (.error (.fault (.missingKey "faces") (some ⟨7, "+"⟩)), table) ∧
      ∃ used, [0, 3, 4, 1] = used ++ table.script ∧ ∀ script',
        let resumed := { form with sheet := table.sheet }.evaluate
          ⟨[("faces", .int 8), ("bonus", .int 2)], .standard⟩ script'
        let single := form.evaluate ⟨[("faces", .int 8), ("bonus", .int 2)], .standard⟩ (used ++ script')
        resumed.1 = single.1 ∧ resumed.2.sheet = single.2.sheet ∧ resumed.2.script = single.2.script ∧
          table.calls ++ resumed.2.calls = single.2.calls := by
  have hrun : (Expr.ofText "2d6r1 + 3d@faces").toOption.any fun e =>
      (Form.evaluate { expr := e } ⟨[("bonus", .int 2)], .standard⟩ [0, 3, 4, 1]).1 =
        .error (.fault (.missingKey "faces") (some ⟨7, "+"⟩)) := by
    decide +kernel
  cases hread : Expr.ofText "2d6r1 + 3d@faces" with
  | error e => rw [hread] at hrun; cases hrun
  | ok e =>
    obtain ⟨tokens, hscan, hparse⟩ := Expr.ofText_eq_ok hread
    rw [hread] at hrun
    have hsub : ∀ key d, Context.get? [("bonus", .int 2)] key = some d →
        Context.get? [("faces", .int 8), ("bonus", .int 2)] key = some d := by
      intro key d h
      by_cases hk : key = "bonus"
      · subst hk
        exact h
      · have : (key == "bonus") = false := by simpa using hk
        simp [Context.get?, List.lookup_cons, this] at h
    have hstop : (Form.evaluate { expr := e } ⟨[("bonus", .int 2)], .standard⟩ [0, 3, 4, 1]).1 =
        .error (.fault (.missingKey "faces") (some ⟨7, "+"⟩)) := by
      simpa [Except.toOption] using hrun
    exact ⟨tokens, { expr := e }, _, hscan, hparse, Prod.ext hstop rfl,
      evaluate_resumed hparse hsub (Prod.ext hstop rfl)⟩

end Form

end DiceNotation
