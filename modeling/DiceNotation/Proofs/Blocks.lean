import DiceNotation.Form
import DiceNotation.Proofs.Reading
import DiceNotation.Proofs.Rolls
import DiceNotation.Proofs.Visits

/-!
The rolls of an evaluation, in their order.

An evaluation takes its rolls from the front of the script, in blocks: all that dice roll, they roll at once, and dice
come to roll in the order in which an expression comes after its parts. And it looks at no roll that it does not take,
so it is the same however the script goes on.

Main statements:
* `Expr.evaluate_inTurn`: the rolls come in blocks, in postorder;
* `Expr.evaluate_steady`: rolls that are not taken change nothing;
* `Form.rolled_in_turn`: both, for what is read from tokens.
-/

namespace DiceNotation

open Play

/-! ### Parts first -/

namespace Expr

mutual
/-- The parts of an expression from left to right, each after its own parts. -/
def postorder : Expr → List Expr
  | .literal v label => [.literal v label]
  | .substitution slot key label => [.substitution slot key label]
  | .group inner => inner.postorder ++ [.group inner]
  | .unary op operand => operand.postorder ++ [.unary op operand]
  | .binary op left right => left.postorder ++ (right.postorder ++ [.binary op left right])
  | .choice c t e => c.postorder ++ (t.postorder ++ (e.postorder ++ [.choice c t e]))
  | .call callee token arguments => callee.postorder ++ (postorders arguments ++ [.call callee token arguments])
  | .dice slot count faces label modifier comparison (.value target) =>
    count.postorder ++ (faces.postorder ++ (target.postorder ++
      [.dice slot count faces label modifier comparison (.value target)]))
  | .dice slot count faces label modifier comparison target =>
    count.postorder ++ (faces.postorder ++ [.dice slot count faces label modifier comparison target])
  | .pool entries modifier comparison (some target) =>
    postorders entries ++ (target.postorder ++ [.pool entries modifier comparison (some target)])
  | .pool entries modifier comparison none => postorders entries ++ [.pool entries modifier comparison none]
  | .foreign text => [.foreign text]
  termination_by structural e => e

/-- The parts of all expressions of a list. -/
def postorders : List Expr → List Expr
  | [] => []
  | e :: es => e.postorder ++ postorders es
  termination_by structural es => es
end

variable {e d : Expr} {es : List Expr}

theorem postorders_append (es fs : List Expr) : postorders (es ++ fs) = postorders es ++ postorders fs := by
  induction es with
  | nil => rfl
  | cons e es ih => simp [postorders, ih]

theorem postorder_eq (h : e.children = .ok es) : e.postorder = postorders es ++ [e] := by
  unfold children at h
  split at h <;> cases h <;> simp [postorder, postorders, postorders_append]

theorem slots_postorders (h : ∀ a ∈ es, (a.postorder.filterMap slot?).Perm a.slots) :
    ((postorders es).filterMap slot?).Perm (slotsOf es) := by
  induction es with
  | nil => exact .refl _
  | cons a es ih =>
    rw [postorders, slotsOf, List.filterMap_append]
    exact (h a (by simp)).append (ih fun b hb => h b (by simp [hb]))

/-- The slots of the parts in postorder are those of the whole. -/
theorem slots_postorder (e : Expr) : (e.postorder.filterMap slot?).Perm e.slots := by
  induction hsize : e.size using Nat.strongRecOn generalizing e with
  | ind n ih =>
    subst hsize
    cases he : e.children with
    | error failure =>
      unfold children at he
      split at he <;> cases he
      simp [postorder, slots, slot?]
    | ok es =>
      have hes := slots_postorders fun a ha => ih _ (size_lt_of_children he ha) a rfl
      rw [postorder_eq he, List.filterMap_append]
      refine List.perm_append_comm.trans (.trans ?_ (slots_perm he).symm)
      refine List.Perm.append ?_ hes
      cases hs : e.slot? <;> simp [hs]

/-- No slot is one of a part of the first list and of one of the second. -/
def Apart (l l' : List Expr) : Prop := ∀ d ∈ l, ∀ d' ∈ l', ∀ slot, d.slot? = some slot → d'.slot? ≠ some slot

theorem apart_of_nodup {l l' : List Expr} (h : ((l ++ l').filterMap slot?).Nodup) : Apart l l' := by
  rw [List.filterMap_append, List.nodup_append] at h
  intro d hd d' hd' slot hslot hslot'
  exact h.2.2 slot (List.mem_filterMap.2 ⟨d, hd, hslot⟩) slot (List.mem_filterMap.2 ⟨d', hd', hslot'⟩) rfl

/-- Where all slots are different, the parts before a place in the postorder are apart from those after it. -/
theorem apart_of_sublist {l l' : List Expr} (hn : e.slots.Nodup) (h : (l ++ l').Sublist e.postorder) : Apart l l' :=
  apart_of_nodup ((h.filterMap slot?).nodup ((slots_postorder e).nodup_iff.2 hn))

/-- The parts of a target that is an expression of its own. -/
def targetPostorder : Target Expr → List Expr
  | .value e => e.postorder
  | _ => []

theorem postorder_dice (slot : Slot) (count faces : Expr) (label : Option String) (modifier : Modifier)
    (comparison : Comparison) (target : Target Expr) :
    (Expr.dice slot count faces label modifier comparison target).postorder =
      (count.postorder ++ (faces.postorder ++ targetPostorder target)) ++
        [.dice slot count faces label modifier comparison target] := by
  cases target <;> simp [postorder, targetPostorder]

end Expr

/-! ### Blocks -/

/-- Two sheets show the same dice under a slot. -/
def Sheet.SameDiceAt (slot : Slot) (s s' : Sheet) : Prop :=
  s'.rolls slot = s.rolls slot ∧ s'.result slot = s.result slot

/-- Entries of a script that dice take for dice with so many faces. -/
structure Block where
  dice : Expr
  faces : Nat
  entries : List Int

namespace Block

/-- The dice called out for a block. -/
def calls (b : Block) : List Nat := List.replicate b.entries.length b.faces

/-- Between two sheets the dice of a block were rolled, and used its entries: they had no result, their operands come
to certain numbers now and later, and what they show is the roll that these numbers and entries make. -/
inductive Made (setting : Setting) : Block → Sheet → Sheet → Prop where
  | intro {slot : Slot} {count faces : Expr} {label : Option String} {modifier : Modifier} {comparison : Comparison}
      {target : Target Expr} {o : Operands} {entries : List Int} {r : Roll} {s s' : Sheet}
      (hopen : s.result slot = none)
      (ho : ∀ u : Table, s'.Kept u.sheet → (count.evaluateOperands setting faces modifier target).on u = (.ok o, u))
      (hr : roll modifier comparison o.target o.count.toNat o.faces.toNat (entries.map (faceOf o.faces.toNat)) = r)
      (hused : r.used = entries.length) (hrolls : s'.rolls slot = s.rolls slot ++ r.recorded)
      (hresult : s'.result slot = r.outcome.toOption) :
      Made setting ⟨.dice slot count faces label modifier comparison target, o.faces.toNat, entries⟩ s s'

variable {setting : Setting} {b : Block} {s s₁ s₂ : Sheet}

theorem Made.exists_slot (h : b.Made setting s s₁) : ∃ slot, b.dice.slot? = some slot := by
  cases h
  exact ⟨_, rfl⟩

theorem Made.later (h : b.Made setting s s₁) (hkept : s₁.Kept s₂)
    (hsame : ∀ slot, b.dice.slot? = some slot → Sheet.SameDiceAt slot s₁ s₂) : b.Made setting s s₂ := by
  cases h with
  | @intro slot _ _ _ _ _ _ _ _ _ _ _ hopen ho hr hused hrolls hresult =>
    obtain ⟨hrolls', hresult'⟩ := hsame slot rfl
    exact .intro hopen (fun u hu => ho u (hkept.trans hu)) hr hused (hrolls'.trans hrolls) (hresult'.trans hresult)

theorem Made.earlier (h : b.Made setting s₁ s₂) (hsame : ∀ slot, b.dice.slot? = some slot → Sheet.SameDiceAt slot s s₁) :
    b.Made setting s s₂ := by
  cases h with
  | @intro slot _ _ _ _ _ _ _ _ _ _ _ hopen ho hr hused hrolls hresult =>
    obtain ⟨hrolls', hresult'⟩ := hsame slot rfl
    exact .intro (hresult' ▸ hopen) ho hr hused (by rw [hrolls, hrolls']) hresult

end Block

namespace Play

variable {setting : Setting} {α β : Type}

/-- From one table to another dice took these blocks, one after the other. -/
structure Played (setting : Setting) (blocks : List Block) (t t' : Table) : Prop where
  script : t.script = blocks.flatMap (·.entries) ++ t'.script
  calls : t'.calls = t.calls ++ blocks.flatMap (·.calls)
  kept : t.sheet.Kept t'.sheet
  others : ∀ slot, (∀ b ∈ blocks, b.dice.slot? ≠ some slot) → Sheet.SameDiceAt slot t.sheet t'.sheet
  made : ∀ b ∈ blocks, b.Made setting t.sheet t'.sheet

namespace Played

variable {blocks blocks' : List Block} {t t₁ t₂ : Table}

theorem refl (setting : Setting) (t : Table) : Played setting [] t t :=
  ⟨rfl, (List.append_nil _).symm, .refl _, fun _ _ => ⟨rfl, rfl⟩, fun _ hb => by cases hb⟩

theorem trans (h : Played setting blocks t t₁) (h' : Played setting blocks' t₁ t₂)
    (hapart : Expr.Apart (blocks.map (·.dice)) (blocks'.map (·.dice))) :
    Played setting (blocks ++ blocks') t t₂ where
  script := by rw [h.script, h'.script, List.flatMap_append, List.append_assoc]
  calls := by rw [h'.calls, h.calls, List.flatMap_append, List.append_assoc]
  kept := h.kept.trans h'.kept
  others slot hslot := by
    obtain ⟨hrolls, hresult⟩ := h.others slot fun b hb => hslot b (List.mem_append_left _ hb)
    obtain ⟨hrolls', hresult'⟩ := h'.others slot fun b hb => hslot b (List.mem_append_right _ hb)
    exact ⟨hrolls'.trans hrolls, hresult'.trans hresult⟩
  made b hb := by
    rcases List.mem_append.1 hb with hb | hb
    · refine (h.made b hb).later h'.kept fun slot hslot => h'.others slot fun b' hb' => ?_
      exact hapart _ (List.mem_map_of_mem hb) _ (List.mem_map_of_mem hb') slot hslot
    · refine (h'.made b hb).earlier fun slot hslot => h.others slot fun b' hb' hslot' => ?_
      exact hapart _ (List.mem_map_of_mem hb') _ (List.mem_map_of_mem hb) slot hslot' hslot

end Played

/-! ### Steps that take blocks -/

/-- At a table, unless it lacks a roll, the step takes its rolls in blocks, the dice of which stand in this order. -/
def InTurn (setting : Setting) (order : List Expr) (x : Play α) (t : Table) : Prop :=
  Ended (x.on t).1 → ∃ blocks, Played setting blocks t (x.on t).2 ∧ (blocks.map (·.dice)).Sublist order

theorem Ended.of_located {op : Option Token} {r : Except Failure α} (h : Ended (r.mapError (locateAt op))) :
    Ended r := by
  rintro faces rfl
  refine h faces ?_
  cases op <;> rfl

/-- An operand that comes to a whole number has a value. -/
theorem exists_of_wholeOperand {x : Play (Option Value)} {role : Role} {what : String} {n : Int} {t t' : Table}
    (h : (wholeOperand role what x).on t = (.ok n, t')) : ∃ v, x.on t = (.ok v, t') := by
  obtain ⟨v, u, hv, h⟩ := on_bind_eq_ok h
  obtain ⟨y, w, hy, h⟩ := on_bind_eq_ok h
  obtain ⟨-, rfl⟩ := on_lift_eq_ok hy
  obtain ⟨-, rfl⟩ := on_lift_eq_ok h
  exact ⟨v, hv⟩

namespace InTurn

variable {order order' : List Expr} {x : Play α} {f : α → Play β} {t : Table}

theorem mono (h : InTurn setting order x t) (ho : order.Sublist order') : InTurn setting order' x t := by
  intro hended
  obtain ⟨blocks, hplayed, hsub⟩ := h hended
  exact ⟨blocks, hplayed, hsub.trans ho⟩

theorem of_still (h : (x.on t).2 = t) : InTurn setting order x t := by
  intro _
  rw [h]
  exact ⟨[], .refl setting t, List.nil_sublist _⟩

theorem lift (r : Except Fault α) : InTurn setting order (Play.lift r) t := of_still (by rw [on_lift])

theorem ofOutcome (r : Except Failure α) : InTurn setting order (Play.ofOutcome r) t :=
  of_still (by rw [on_ofOutcome])

theorem bind (hapart : Expr.Apart order order') (hx : InTurn setting order x t)
    (hf : ∀ a u, x.on t = (.ok a, u) → InTurn setting order' (f a) u) :
    InTurn setting (order ++ order') (x >>= f) t := by
  intro hended
  rw [on_bind] at hended ⊢
  unfold InTurn at hx
  generalize hr : x.on t = r at hx hended ⊢
  rcases r with ⟨failure | a, u⟩
  · obtain ⟨blocks, hplayed, hsub⟩ := hx hended.of_error
    exact ⟨blocks, hplayed, hsub.trans (List.sublist_append_left _ _)⟩
  · obtain ⟨blocks, hplayed, hsub⟩ := hx (ended_ok a)
    obtain ⟨blocks', hplayed', hsub'⟩ := hf a u hr hended
    refine ⟨blocks ++ blocks', hplayed.trans hplayed' ?_, ?_⟩
    · intro d hd d' hd'
      exact hapart d (hsub.subset hd) d' (hsub'.subset hd')
    · rw [List.map_append]
      exact hsub.append hsub'

/-- A step and then one that takes no blocks. -/
theorem bindLast (hx : InTurn setting order x t) (hf : ∀ a u, x.on t = (.ok a, u) → InTurn setting [] (f a) u) :
    InTurn setting order (x >>= f) t :=
  (hx.bind (fun _ _ _ hd' => by cases hd') hf).mono (by simp)

/-- A step that takes no blocks and then another one. -/
theorem bindFirst (hx : InTurn setting [] x t) (hf : ∀ a u, x.on t = (.ok a, u) → InTurn setting order (f a) u) :
    InTurn setting order (x >>= f) t :=
  hx.bind (fun _ hd => by cases hd) hf

theorem map (hx : InTurn setting order x t) (g : α → β) : InTurn setting order (x >>= fun a => pure (g a)) t :=
  hx.bindLast fun _ _ _ => of_still rfl

theorem located (op : Option Token) (h : InTurn setting order x t) : InTurn setting order (at? op x) t := by
  intro hended
  rw [on_at] at hended ⊢
  exact h hended.of_located

theorem substitute (context : Context) (slot : Slot) (key : Option Value) :
    InTurn setting order (Play.substitute context slot key) t := by
  intro _
  rw [on_substitute]
  cases hr : t.sheet.resolved slot with
  | some v => exact ⟨[], .refl setting t, List.nil_sublist _⟩
  | none =>
    dsimp only
    generalize (keyText key).mapError Failure.lacking >>= lookUp context = r
    cases r with
    | error failure => exact ⟨[], .refl setting t, List.nil_sublist _⟩
    | ok v =>
      have hgrows : t.sheet.Growth [slot] (t.sheet.resolve slot v) := .resolve v hr (by simp)
      refine ⟨[], ⟨rfl, (List.append_nil _).symm, hgrows.toKept, fun _ _ => ⟨rfl, rfl⟩, ?_⟩, List.nil_sublist _⟩
      intro b hb
      cases hb

theorem wholeOperand {x : Play (Option Value)} (role : Role) (what : String) (hx : InTurn setting order x t) :
    InTurn setting order (Play.wholeOperand role what x) t :=
  hx.bindLast fun _ _ _ => (lift _).bindLast fun _ _ _ => lift _

theorem targetNumber {target : Play (Option Value)} (modifier : Modifier) (h : InTurn setting order target t) :
    InTurn setting order (Play.targetNumber modifier target) t := by
  unfold Play.targetNumber
  split
  · exact of_still rfl
  · exact h.bindLast fun _ _ _ => lift _

theorem once {slot : Slot} {step : Play Number} (h : t.sheet.result slot = none → InTurn setting order step t) :
    InTurn setting order (Play.once slot step) t := by
  cases hr : t.sheet.result slot with
  | some x => exact of_still (by rw [on_once_settled hr])
  | none =>
    unfold InTurn
    rw [on_once_open hr]
    exact h hr

/-- Dice take one block when they are rolled. -/
theorem make {slot : Slot} {count faces : Expr} {label : Option String} {modifier : Modifier}
    {comparison : Comparison} {target : Target Expr} {o : Operands} (hopen : t.sheet.result slot = none)
    (ho : ∀ u : Table, t.sheet.Kept u.sheet → (count.evaluateOperands setting faces modifier target).on u = (.ok o, u)) :
    InTurn setting [.dice slot count faces label modifier comparison target]
      (Play.make slot o.faces.toNat (roll modifier comparison o.target o.count.toNat o.faces.toNat)) t := by
  obtain ⟨rule, hrule⟩ : ∃ rule, rule = roll modifier comparison o.target o.count.toNat o.faces.toNat := ⟨_, rfl⟩
  have hdecided : Roll.Decided rule := hrule ▸ decided_roll _ _ _ _ _
  rw [← hrule]
  intro hended
  rw [fst_on_make] at hended
  have hgrows := grows_make slot o.faces.toNat rule (.refl [slot] t.sheet) hopen (by simp)
  obtain ⟨entries, hscript, hused, hsame⟩ := hdecided.exists_entries hended
  refine ⟨[⟨.dice slot count faces label modifier comparison target, o.faces.toNat, entries⟩],
    ⟨?_, ?_, hgrows.toKept, ?_, ?_⟩, .refl _⟩
  · simpa [script_on_make, hused] using hscript
  · simp [calls_on_make, Block.calls, hused]
  · intro i hi
    have hne : i ∉ [slot] := by
      simpa [Expr.slot?, eq_comm] using hi
    exact (hgrows.outside i hne).2
  · intro b hb
    obtain rfl := List.mem_singleton.1 hb
    have hr : roll modifier comparison o.target o.count.toNat o.faces.toNat (entries.map (faceOf o.faces.toNat)) =
        rule (t.script.map (faceOf o.faces.toNat)) := by
      rw [← hrule, ← hsame [], List.append_nil]
    exact .intro hopen (fun u hu => ho u (hgrows.toKept.trans hu)) hr hused rolls_on_make (result_on_make hopen)

end InTurn

end Play

namespace Expr

variable {setting : Setting} {e : Expr} {t : Table}

theorem mapM_inTurn {α : Type} {f : Expr → Play α} {es : List Expr} (hn : (slotsOf es).Nodup)
    (h : ∀ a ∈ es, ∀ t, InTurn setting a.postorder (f a) t) (t : Table) :
    InTurn setting (postorders es) (es.mapM f) t := by
  induction es generalizing t with
  | nil => exact .of_still rfl
  | cons a es ih =>
    have hperm := slots_postorders fun b (_ : b ∈ a :: es) => slots_postorder b
    have hapart : Apart a.postorder (postorders es) := apart_of_nodup (hperm.nodup_iff.2 hn)
    rw [List.mapM_cons]
    refine (h a (by simp) t).bind hapart fun v u _ => ?_
    exact (ih (List.nodup_append.1 hn).2.1 (fun b hb => h b (by simp [hb])) u).map _

/-- The operands of dice take their blocks one after the other; faces that are also the target take theirs once. -/
theorem evaluateOperands_inTurn {slot : Slot} {count faces : Expr} {label : Option String} {modifier : Modifier}
    {comparison : Comparison} {target : Target Expr}
    (hn : (dice slot count faces label modifier comparison target).slots.Nodup)
    (hc : ∀ t, InTurn setting count.postorder (count.evaluate setting) t)
    (hf : ∀ t, InTurn setting faces.postorder (faces.evaluate setting) t)
    (ht : ∀ a, target = .value a → ∀ t, InTurn setting a.postorder (a.evaluate setting) t) (t : Table) :
    InTurn setting (count.postorder ++ (faces.postorder ++ targetPostorder target))
      (count.evaluateOperands setting faces modifier target) t := by
  have hsub : (count.postorder ++ (faces.postorder ++ targetPostorder target)).Sublist
      (dice slot count faces label modifier comparison target).postorder := by
    rw [postorder_dice]
    exact List.sublist_append_left _ _
  refine ((hc t).wholeOperand _ _).bind (apart_of_sublist hn hsub) fun n u _ => ?_
  have hsub' := (List.sublist_append_right count.postorder _).trans hsub
  refine ((hf u).wholeOperand _ _).bind (apart_of_sublist hn hsub') fun f w hw => ?_
  refine .bindFirst (.lift _) fun _ w' hr => InTurn.map ?_ _
  obtain ⟨-, rfl⟩ := on_lift_eq_ok hr
  refine .targetNumber modifier ?_
  cases target with
  | absent => exact .of_still rfl
  | value a => exact ht a rfl w
  | faces =>
    -- the faces have their value already
    obtain ⟨v, hv⟩ := exists_of_wholeOperand hw
    refine .of_still ?_
    show ((faces.evaluate setting).on w).2 = w
    rw [evaluate_replays hv setting.context w (.refl _)]

/-- **An evaluation takes its rolls in blocks**, in the order of the parts. -/
theorem evaluate_inTurn (setting : Setting) (hn : e.slots.Nodup) (t : Table) :
    InTurn setting e.postorder (e.evaluate setting) t := by
  induction e using Expr.ind generalizing t with
  | literal v label => exact .of_still rfl
  | substitution slot key label => exact (InTurn.substitute _ slot key).map _
  | group inner ih =>
    show InTurn _ _ (inner.evaluate setting) t
    exact (ih hn t).mono (List.sublist_append_left _ _)
  | unary op operand ih =>
    have hv := (ih hn t).mono (List.sublist_append_left _ [.unary op operand])
    exact .located op (hv.bindLast fun _ _ _ => (InTurn.ofOutcome _).bindLast fun _ _ _ => (InTurn.lift _).map _)
  | binary op left right ihl ihr =>
    obtain ⟨hl, hr, -⟩ := List.nodup_append.1 hn
    have hsub : (left.postorder ++ right.postorder).Sublist (binary op left right).postorder := by
      simp [postorder]
    refine .located op (InTurn.mono ?_ hsub)
    refine (ihl hl t).bind (apart_of_sublist hn hsub) fun v u _ => (ihr hr u).bindLast fun _ _ _ => ?_
    exact (InTurn.ofOutcome _).bindLast fun _ _ _ => (InTurn.lift _).map _
  | choice condition consequent alternative ihc iht ihe =>
    obtain ⟨hc, hbranches, -⟩ := List.nodup_append.1 hn
    obtain ⟨ht, he, -⟩ := List.nodup_append.1 hbranches
    have hsub : (condition.postorder ++ (consequent.postorder ++ alternative.postorder)).Sublist
        (choice condition consequent alternative).postorder := by
      simp [postorder]
    refine InTurn.mono ((ihc hc t).bind (apart_of_sublist hn hsub) fun v u _ => ?_) hsub
    split
    · exact (iht ht u).mono (List.sublist_append_left _ _)
    · exact (ihe he u).mono (List.sublist_append_right _ _)
  | call callee token arguments ihc iha =>
    have hargs := (List.nodup_append.1 hn).2.1
    have hsub : (postorders arguments).Sublist (call callee token arguments).postorder := by
      rw [postorder]
      exact (List.sublist_append_left _ _).trans (List.sublist_append_right _ _)
    refine .located token (InTurn.mono ?_ hsub)
    refine .bindFirst (.of_still (by rw [on_named])) fun f u _ => .bindLast ?_ fun _ _ _ => (InTurn.ofOutcome _).map _
    rw [evaluateAll_eq_mapM]
    exact mapM_inTurn hargs (fun a ha => iha a ha (nodup_of_mem hargs ha)) u
  | dice slot count faces label modifier comparison target ihc ihf iht =>
    rw [evaluate_dice]
    refine InTurn.map (.once fun hopen => ?_) _
    have hslots := hn
    rw [slots_dice] at hslots
    obtain ⟨hcount, hrest, -⟩ := List.nodup_append.1 hslots
    obtain ⟨hfaces, htarget, -⟩ := List.nodup_append.1 (List.nodup_cons.1 hrest).2
    have ho := evaluateOperands_inTurn hn (ihc hcount) (ihf hfaces) (by rintro a rfl; exact iht a rfl htarget) t
    rw [postorder_dice]
    refine ho.bind (apart_of_sublist hn (by simp [postorder_dice])) fun o u hu => .make ?_ fun w hw => ?_
    · have hafter : ((count.evaluateOperands setting faces modifier target).on t).2.sheet.result slot = none :=
        open_after_operands hn hopen
      rwa [hu] at hafter
    · exact evaluateOperands_replays hu setting.context w hw
  | pool entries modifier comparison target ihe iht =>
    obtain ⟨es, hes, hmem⟩ := children_pool entries modifier comparison target
    have hnodup := (nodup_of_children hes hn).1
    have hentries : InTurn setting (postorders entries) (evaluateEntries setting entries) t := by
      rw [evaluateEntries_eq_mapM]
      refine mapM_inTurn ?_ (fun a ha u => ?_) t
      · cases target with
        | none => exact hn
        | some target => exact (List.nodup_append.1 hn).1
      exact (ihe a ha (nodup_of_mem hnodup ((hmem a).2 (.inl ha))) u).bindLast fun _ _ _ => .lift _
    cases target with
    | none =>
      refine InTurn.mono (hentries.bindLast fun _ _ _ => .of_still rfl) ?_
      rw [postorder]
      exact List.sublist_append_left _ _
    | some target =>
      have hsub : (postorders entries ++ target.postorder).Sublist
          (pool entries modifier comparison (some target)).postorder := by
        simp [postorder]
      refine InTurn.mono (hentries.bind (apart_of_sublist hn hsub) fun xs u _ => ?_) hsub
      refine (iht target rfl (nodup_of_mem hnodup ((hmem target).2 (.inr rfl))) u).bindLast fun _ _ _ => ?_
      exact (InTurn.lift _).bindLast fun _ _ _ => (InTurn.lift _).map _
  | foreign text => exact .of_still rfl

end Expr

namespace Play

/-! ### Rolls that are not taken -/

variable {α β : Type}

/-- Unless it lacks a roll, the step takes entries from the front of the script, and does the same whatever stands
behind them. -/
def Steady (x : Play α) : Prop :=
  ∀ t : Table, Ended (x.on t).1 → ∃ used, t.script = used ++ (x.on t).2.script ∧
    ∀ rest, x.on { t with script := used ++ rest } = ((x.on t).1, { (x.on t).2 with script := rest })

namespace Steady

variable {x : Play α} {f : α → Play β}

theorem of_still {r : Sheet → Except Failure α} (h : ∀ t : Table, x.on t = (r t.sheet, t)) : Steady x := by
  intro t _
  rw [h t]
  exact ⟨[], rfl, fun rest => h _⟩

theorem bind (hx : Steady x) (hf : ∀ a, Steady (f a)) : Steady (x >>= f) := by
  intro t hended
  have hfirst := hx t
  rw [on_bind] at hended ⊢
  generalize x.on t = r at hended hfirst ⊢
  rcases r with ⟨failure | a, u⟩
  · obtain ⟨used, hscript, hsame⟩ := hfirst hended.of_error
    refine ⟨used, hscript, fun rest => ?_⟩
    rw [on_bind, hsame rest]
  · obtain ⟨used, hscript, hsame⟩ := hfirst (ended_ok a)
    obtain ⟨used', hscript', hsame'⟩ := hf a u hended
    refine ⟨used ++ used', ?_, fun rest => ?_⟩
    · rw [hscript, List.append_assoc]
      exact congrArg (used ++ ·) hscript'
    · rw [on_bind, List.append_assoc, hsame (used' ++ rest)]
      exact hsame' rest

theorem located (op : Option Token) (h : Steady x) : Steady (at? op x) := by
  intro t hended
  rw [on_at] at hended ⊢
  obtain ⟨used, hscript, hsame⟩ := h t hended.of_located
  refine ⟨used, hscript, fun rest => ?_⟩
  rw [on_at, hsame rest]

theorem substitute (context : Context) (slot : Slot) (key : Option Value) :
    Steady (Play.substitute context slot key) := by
  rintro ⟨s, script, calls⟩ _
  refine ⟨[], ?_, fun rest => ?_⟩
  · rw [on_substitute]
    cases s.resolved slot with
    | some v => rfl
    | none =>
      dsimp only
      generalize (keyText key).mapError Failure.lacking >>= lookUp context = r
      cases r <;> rfl
  · rw [on_substitute, on_substitute]
    dsimp only
    cases s.resolved slot with
    | some v => rfl
    | none =>
      dsimp only
      generalize (keyText key).mapError Failure.lacking >>= lookUp context = r
      cases r <;> rfl

theorem make (slot : Slot) (faces : Nat) {rule : List Nat → Roll} (hrule : Roll.Decided rule) :
    Steady (Play.make slot faces rule) := by
  intro t hended
  rw [fst_on_make] at hended
  obtain ⟨entries, hscript, hused, hsame⟩ := hrule.exists_entries hended
  refine ⟨entries, by rw [script_on_make]; exact hscript, fun rest => ?_⟩
  rw [on_make, on_make, hsame rest]
  dsimp only
  cases (rule (t.script.map (faceOf faces))).outcome <;> simp [rolled, hused]

theorem once {slot : Slot} {step : Play Number} (h : Steady step) : Steady (Play.once slot step) := by
  rintro ⟨s, script, calls⟩ hended
  cases hr : s.result slot with
  | some y =>
    rw [on_once_settled hr]
    exact ⟨[], rfl, fun rest => on_once_settled hr step⟩
  | none =>
    rw [on_once_open hr] at hended ⊢
    obtain ⟨used, hscript, hsame⟩ := h _ hended
    exact ⟨used, hscript, fun rest => (on_once_open hr step).trans (hsame rest)⟩

end Steady

theorem steady_congruence (setting : Setting) : Congruence setting setting (fun _ => True) fun x _ => Steady x where
  pure a := .of_still (r := fun _ => .ok a) (on_pure a)
  throw failure := .of_still (r := fun _ => .error failure) (on_throw failure)
  bind hx hf := hx.bind hf
  located op hx := hx.located op
  substitute slot key _ _ := .substitute _ slot key
  named target n _ := .of_still (r := fun s => (target.name? s).mapError .lacking >>= fun name =>
    (callee setting.builtins name n).mapError (.fault · none)) (on_named setting.builtins target n)
  once slot _ _ _ _ _ _ _ ho := .once (ho.bind fun _ => .make slot _ (decided_roll _ _ _ _ _))

end Play

/-- An evaluation takes entries from the front of the script, and looks at no others. -/
theorem Expr.evaluate_steady (setting : Setting) (e : Expr) : Steady (e.evaluate setting) :=
  (steady_congruence setting).evaluate fun _ _ => trivial

/-! ### Forms -/

theorem Block.nodup_of_sublist {setting : Setting} {blocks : List Block} {s s' : Sheet} {l : List Expr}
    (hmade : ∀ b ∈ blocks, b.Made setting s s') (hsub : (blocks.map (·.dice)).Sublist l)
    (hn : (l.filterMap Expr.slot?).Nodup) : (blocks.map (·.dice.slot?)).Nodup := by
  have hsome : blocks.map (·.dice.slot?) = ((blocks.map (·.dice)).filterMap Expr.slot?).map some := by
    clear hsub
    induction blocks with
    | nil => rfl
    | cons b blocks ih =>
      obtain ⟨slot, hslot⟩ := (hmade b (by simp)).exists_slot
      simp [hslot, ih fun b' hb' => hmade b' (by simp [hb'])]
  rw [hsome]
  refine List.Pairwise.map some ?_ ((hsub.filterMap _).nodup hn)
  intro slot slot' hne h
  exact hne (Option.some.inj h)

namespace Form

/-- The evaluation of a form takes these blocks from the script, one after the other, and nothing else. -/
structure InTurn (form : Form) (setting : Setting) (script : List Int) (blocks : List Block) : Prop where
  /-- The rolls that are taken are those of the blocks, from the front of the script. -/
  taken : script = blocks.flatMap (·.entries) ++ (form.evaluate setting script).2.script
  /-- All dice that are called for a block have the same number of faces. -/
  calls : (form.evaluate setting script).2.calls = blocks.flatMap (·.calls)
  /-- The dice of the blocks follow each other as parts of the expression do. -/
  order : (blocks.map (·.dice)).Sublist form.expr.postorder
  /-- No dice take a second block. -/
  once : (blocks.map (·.dice.slot?)).Nodup
  /-- A block is the roll of its dice. -/
  made : ∀ b ∈ blocks, b.Made setting form.sheet (form.evaluate setting script).2.sheet
  /-- Dice without a block are as before. -/
  others : ∀ slot, (∀ b ∈ blocks, b.dice.slot? ≠ some slot) →
    Sheet.SameDiceAt slot form.sheet (form.evaluate setting script).2.sheet
  /-- The evaluation is the same whatever stands in the script behind the blocks. -/
  steady : ∀ rest, form.evaluate setting (blocks.flatMap (·.entries) ++ rest) =
    ((form.evaluate setting script).1, { (form.evaluate setting script).2 with script := rest })

/-- **Dice are rolled in turn.** When the evaluation of a form that was read from tokens does not end for lack of
rolls, it takes its rolls from the front of the script, in one block for each of the dice that are rolled, in the order
in which parts come before the whole; and it does not depend on any other roll. -/
theorem rolled_in_turn {tokens : List Token} {form : Form} (hread : Expr.ofTokens tokens = .ok form.expr)
    {setting : Setting} {script : List Int} (h : Play.Ended (form.evaluate setting script).1) :
    ∃ blocks, form.InTurn setting script blocks := by
  obtain ⟨-, hn, -⟩ := Expr.ofTokens_sound hread
  obtain ⟨blocks, hplayed, hsub⟩ := Expr.evaluate_inTurn setting hn ⟨form.sheet, script, []⟩ h
  obtain ⟨used, hused, hsame⟩ := form.expr.evaluate_steady setting ⟨form.sheet, script, []⟩ h
  refine ⟨blocks, hplayed.script, hplayed.calls, hsub, ?_, hplayed.made, hplayed.others, ?_⟩
  · exact Block.nodup_of_sublist hplayed.made hsub (form.expr.slots_postorder.nodup_iff.2 hn)
  · obtain rfl := List.append_cancel_right (hused.symm.trans hplayed.script)
    exact hsame

/-- Dice as the count and the faces of others, which are compared with their faces, and as the parts of a pool. -/
theorem rolled_in_turn_nested : ∃ (tokens : List Token) (e : Expr),
    Token.scan "(1d2)d(1d6)cs + \x7b1d4, 1d8x8\x7dcs>(1d3)" = .ok tokens ∧ Expr.ofTokens tokens = .ok e ∧
      let run := evaluate { expr := e } ⟨[], .standard⟩ [2, 3, 3, 1, 4, 8, 5, 2, 7, 7]
      Play.Ended run.1 ∧ run.2.calls = [2, 6, 3, 3, 4, 8, 8, 3] ∧ run.2.script = [7, 7] ∧
        ∃ blocks, InTurn { expr := e } ⟨[], .standard⟩ [2, 3, 3, 1, 4, 8, 5, 2, 7, 7] blocks := by
  obtain ⟨e, hread, hrun⟩ := Expr.exists_of_any "(1d2)d(1d6)cs + \x7b1d4, 1d8x8\x7dcs>(1d3)"
    (fun e =>
      let run := evaluate { expr := e } ⟨[], .standard⟩ [2, 3, 3, 1, 4, 8, 5, 2, 7, 7]
      run.1.toOption = some (some (.number (.ofNat 3))) ∧ run.2.calls = [2, 6, 3, 3, 4, 8, 8, 3] ∧
        run.2.script = [7, 7])
    (by decide +kernel)
  obtain ⟨hvalue, hcalls, hscript⟩ := of_decide_eq_true hrun
  obtain ⟨tokens, hscan, hparse⟩ := Expr.ofText_eq_ok hread
  have hended : Play.Ended (evaluate { expr := e } ⟨[], .standard⟩ [2, 3, 3, 1, 4, 8, 5, 2, 7, 7]).1 := by
    rw [eq_ok_of_toOption hvalue]
    exact ended_ok _
  exact ⟨tokens, e, hscan, hparse, hended, hcalls, hscript, rolled_in_turn hparse hended⟩

end Form

end DiceNotation
