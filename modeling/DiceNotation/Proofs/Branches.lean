import DiceNotation.Form
import DiceNotation.Proofs.Reading
import DiceNotation.Proofs.Visits

/-!
The branches that an evaluation takes.

A choice is decided by the value of its condition where the evaluation comes to it, and takes one branch. After a
success the dice and substitutions that are settled are those that every choice above them leads to; and however an
evaluation ends, it has done nothing in the other branch of a choice that it decided.

Main statement: `Form.follows_choices`.
-/

namespace DiceNotation

open Play

/-! ### Choices -/

/-- An evaluation comes to a choice and finds a value of its condition that is true or not. -/
def Chooses (setting : Setting) (e : Expr) (t : Table) (condition consequent alternative : Expr) (b : Bool) : Prop :=
  ∃ u v u', Visits setting e t (.choice condition consequent alternative) u ∧
    (condition.evaluate setting).on u = (.ok v, u') ∧ Value.isTruthy v = b

/-- Every choice above a part leads to it: the part stands in the condition, or in the branch that is chosen. -/
def Reached (setting : Setting) (e : Expr) (t : Table) (d : Expr) : Prop :=
  ∀ condition consequent alternative : Expr, (Expr.choice condition consequent alternative).PartOf e →
    d.PartOf (.choice condition consequent alternative) →
      d.PartOf condition ∨
        ∃ b, Chooses setting e t condition consequent alternative b ∧ d.PartOf (if b then consequent else alternative)

variable {setting : Setting} {e c d x condition consequent alternative : Expr} {t t' u w : Table} {slot : Slot}
  {v : Option Value}

/-! ### What is shown -/

theorem Sheet.Shows.kept {s s' : Sheet} (h : s.Shows d) (hk : s.Kept s') : s'.Shows d := by
  cases d with
  | substitution slot key label =>
    obtain ⟨v, hv⟩ := Option.isSome_iff_exists.1 h
    exact Option.isSome_iff_exists.2 ⟨v, hk.resolved hv⟩
  | dice slot count faces label modifier comparison target =>
    obtain ⟨v, hv⟩ := Option.isSome_iff_exists.1 h
    exact Option.isSome_iff_exists.2 ⟨v, hk.result hv⟩
  | _ => exact h

theorem Sheet.Shows.exists_slot? {s : Sheet} (h : s.Shows d) : ∃ slot, d.slot? = some slot := by
  cases d with
  | substitution slot => exact ⟨slot, rfl⟩
  | dice slot => exact ⟨slot, rfl⟩
  | _ => exact h.elim

theorem Sheet.SameAt.shows {s s' : Sheet} (h : SameAt slot s s') (hd : d.slot? = some slot) (hs : s'.Shows d) :
    s.Shows d := by
  cases d with
  | substitution slot key label =>
    cases hd
    rwa [Shows, h.1] at hs
  | dice slot count faces label modifier comparison target =>
    cases hd
    rwa [Shows, h.2.2] at hs
  | _ => cases hd

theorem Sheet.not_shows_blank : ¬ blank.Shows d := by
  cases d <;> simp [Shows, blank]

/-- A part that settles something has settled it when it succeeds. -/
theorem Expr.shows_of_ok (hd : d.slot? = some slot) (h : (d.evaluate setting).on t = (.ok v, t')) :
    t'.sheet.Shows d := by
  cases d with
  | substitution slot key label =>
    obtain ⟨w, t₁, hw, ht₁⟩ := on_bind_eq_ok h
    cases ht₁
    exact Option.isSome_iff_exists.2 ⟨w, Replays.resolved_substitute hw⟩
  | dice slot count faces label modifier comparison target =>
    rw [evaluate_dice] at h
    obtain ⟨y, t₁, hy, ht₁⟩ := on_bind_eq_ok h
    cases ht₁
    exact Option.isSome_iff_exists.2 ⟨y, Replays.result_once hy⟩
  | _ => cases hd

/-- A substitution that names a function has a value. -/
theorem Expr.shows_of_named {f : Builtin} {n : Nat} (h : (named setting.builtins c n).on t = (.ok f, u))
    (hd : d.PartOf c) (hslot : d.slot? = some slot) : t.sheet.Shows d := by
  rw [on_named] at h
  cases c with
  | literal value label =>
    cases hd with
    | self => cases hslot
    | child he hc => cases he; cases hc
  | substitution slot' key label =>
    cases hd with
    | child he hc => cases he; cases hc
    | self =>
      simp only [name?] at h
      show (t.sheet.resolved slot').isSome
      cases hr : t.sheet.resolved slot' with
      | none => rw [hr] at h; cases h
      | some v => rfl
  | _ => cases h

/-! ### The way to a part -/

/-- Where all slots are different, an evaluation comes to a part by way of every part above it. -/
theorem Visits.through (hn : e.slots.Nodup) (h : Visits setting e t d u) (hd : d.slot? = some slot) (hx : x.PartOf e)
    (hslot : slot ∈ x.slots) : ∃ w, Visits setting e t x w ∧ Visits setting x w d u := by
  induction h with
  | self e t =>
    cases hx with
    | self => exact ⟨t, .self _ t, .self _ t⟩
    | child he ha hx =>
      refine absurd ?_ ((Expr.nodup_of_children he hn).2 slot hd)
      exact Expr.mem_slotsOf_iff.2 ⟨_, ha, hx.slots_sublist.subset hslot⟩
  | part h hd' ih =>
    cases hx with
    | self => exact ⟨_, .self _ _, .part h hd'⟩
    | child he ha hx =>
      obtain ⟨es, he', hc⟩ := h.mem_children
      rw [he] at he'
      cases he'
      -- the part that is entered is the one with the slot
      cases Expr.eq_of_children he hn ha hc (hx.slots_sublist.subset hslot) (hd'.partOf.mem_slots hd)
      obtain ⟨w, hw, hw'⟩ := ih (Expr.nodup_of_mem (Expr.nodup_of_children he hn).1 hc) hd hx
      exact ⟨w, .part h hw, hw'⟩

/-- An evaluation comes to the parts of a choice by its condition or by the branch that this decides. -/
theorem Visits.of_choice (h : Visits setting (.choice condition consequent alternative) t d u)
    (hd : d.slot? = some slot) :
    d.PartOf condition ∨ ∃ v t', (condition.evaluate setting).on t = (.ok v, t') ∧
      d.PartOf (if Value.isTruthy v then consequent else alternative) := by
  cases h with
  | self => cases hd
  | part h hd' =>
    cases h with
    | condition => exact .inl hd'.partOf
    | branch hv => exact .inr ⟨_, _, hv, hd'.partOf⟩

/-! ### Deciding once -/

/-- Where all slots are different, a choice is decided in one way. -/
theorem Chooses.unique (hn : e.slots.Nodup) {b b' : Bool}
    (h : Chooses setting e t condition consequent alternative b)
    (h' : Chooses setting e t condition consequent alternative b') : b = b' := by
  have again : ∀ {b}, Chooses setting e t condition consequent alternative b →
      ∃ v, (condition.evaluate setting).on ((e.evaluate setting).on t).2 = (.ok v, ((e.evaluate setting).on t).2) ∧
        Value.isTruthy v = b := by
    rintro b ⟨u, v, u', hu, hv, hb⟩
    have hkept := ((hu.enters .condition).leads hn).kept
    rw [hv] at hkept
    exact ⟨v, Expr.evaluate_replays hv setting.context _ hkept, hb⟩
  obtain ⟨v, hv, rfl⟩ := again h
  obtain ⟨v', hv', rfl⟩ := again h'
  cases (Prod.mk.inj (hv.symm.trans hv')).1
  rfl

/-- Where all slots are different, nothing is done in the branch that is not chosen. -/
theorem Chooses.spares (hn : e.slots.Nodup) {b : Bool} (h : Chooses setting e t condition consequent alternative b)
    (hslot : slot ∈ (if b then alternative else consequent).slots) :
    Sheet.SameAt slot t.sheet ((e.evaluate setting).on t).2.sheet := by
  rcases e.evaluate_confined setting t slot with ⟨d, u, hd, hds, -⟩ | hsame
  · exfalso
    obtain ⟨_, _, _, hw, _⟩ := id h
    have hpart := hw.partOf
    have hnodup := hpart.slots_sublist.nodup hn
    rw [Expr.slots, List.nodup_append, List.nodup_append] at hnodup
    obtain ⟨-, ⟨-, -, hbranches⟩, hcondition⟩ := hnodup
    have hother : slot ∈ consequent.slots ++ alternative.slots := by
      cases b with
      | true => exact List.mem_append_right _ hslot
      | false => exact List.mem_append_left _ hslot
    obtain ⟨w, hvisit, hvisit'⟩ := hd.through hn hds hpart (List.mem_append_right _ hother)
    rcases hvisit'.of_choice hds with hc | ⟨v, w', hv, hbranch⟩
    · exact hcondition slot (hc.mem_slots hds) slot hother rfl
    · obtain rfl : Value.isTruthy v = b := Chooses.unique hn ⟨w, v, w', hvisit, hv, rfl⟩ h
      have hmem := hbranch.mem_slots hds
      cases hb : Value.isTruthy v with
      | true =>
        rw [hb] at hmem hslot
        exact hbranches slot hmem slot hslot rfl
      | false =>
        rw [hb] at hmem hslot
        exact hbranches slot hslot slot hmem rfl
  · exact hsame

/-! ### Success goes everywhere -/

theorem Play.exists_mapM_before {α : Type} {f : Expr → Play α} {es : List Expr} {as : List α}
    (h : (es.mapM f).on t = (.ok as, t')) (hc : c ∈ es) :
    ∃ before after bs u, es = before ++ c :: after ∧ (before.mapM f).on t = (.ok bs, u) := by
  obtain ⟨before, after, rfl⟩ := List.append_of_mem hc
  rw [List.mapM_append] at h
  obtain ⟨bs, u, hbs, -⟩ := on_bind_eq_ok h
  exact ⟨before, after, bs, u, rfl, hbs⟩

/-- An expression that succeeds has entered every direct part, but for the branches of a choice and the callee of a
call. -/
theorem Expr.exists_enters (hfits : e.Fits) (hopen : ¬ t.sheet.Shows e) (h : (e.evaluate setting).on t = (.ok v, t'))
    {es : List Expr} (he : e.children = .ok es) (hc : c ∈ es) :
    (∃ u, Enters setting e t c u) ∨ (∃ condition consequent alternative, e = .choice condition consequent alternative) ∨
      ∃ token arguments, e = .call c token arguments := by
  cases e with
  | literal | substitution =>
    cases he
    cases hc
  | foreign => cases he
  | group inner =>
    cases he
    obtain rfl := List.mem_singleton.1 hc
    exact .inl ⟨t, .group⟩
  | unary op operand =>
    cases he
    obtain rfl := List.mem_singleton.1 hc
    exact .inl ⟨t, .operand⟩
  | binary op left right =>
    cases he
    obtain ⟨v, u, hv, -⟩ := on_bind_eq_ok (on_at_eq_ok h)
    rcases List.mem_cons.1 hc with rfl | hc
    · exact .inl ⟨t, .left⟩
    · obtain rfl := List.mem_singleton.1 hc
      exact .inl ⟨u, .right hv⟩
  | choice condition consequent alternative => exact .inr (.inl ⟨_, _, _, rfl⟩)
  | call callee token arguments =>
    cases he
    rcases List.mem_cons.1 hc with rfl | hc
    · exact .inr (.inr ⟨_, _, rfl⟩)
    · obtain ⟨f, u, hf, h⟩ := on_bind_eq_ok (on_at_eq_ok h)
      obtain rfl := on_named_eq_ok hf
      obtain ⟨vs, u, hvs, -⟩ := on_bind_eq_ok h
      rw [evaluateAll_eq_mapM] at hvs
      obtain ⟨before, after, ws, w, hs, hws⟩ := exists_mapM_before hvs hc
      rw [← evaluateAll_eq_mapM] at hws
      exact .inl ⟨w, .argument hf hs hws⟩
  | dice slot count faces label modifier comparison target =>
    have hresult : t.sheet.result slot = none := by
      cases hr : t.sheet.result slot with
      | none => rfl
      | some x => exact absurd (by simp [Sheet.Shows, hr]) hopen
    rw [evaluate_dice] at h
    obtain ⟨x, t₁, h, -⟩ := on_bind_eq_ok h
    rw [on_once_open hresult] at h
    obtain ⟨o, t₂, h, -⟩ := on_bind_eq_ok h
    obtain ⟨n, u, hn, h⟩ := on_bind_eq_ok h
    obtain ⟨f, w, hf, h⟩ := on_bind_eq_ok h
    obtain ⟨_, w', hr, h⟩ := on_bind_eq_ok h
    obtain ⟨hnf, rfl⟩ := on_lift_eq_ok hr
    obtain ⟨es', he', hes⟩ := children_dice slot count faces label modifier comparison target
    rw [he] at he'
    cases he'
    rcases (hes c).1 hc with rfl | rfl | rfl
    · exact .inl ⟨t, .count hresult⟩
    · exact .inl ⟨u, .faces hresult hn⟩
    · have hm : modifier ≠ .plain := by
        rintro rfl
        have := hfits.2.2.2.2.1.1 rfl
        cases this
      exact .inl ⟨w, .target hresult hn hf hnf hm rfl⟩
  | pool entries modifier comparison target =>
    obtain ⟨es', he', hes⟩ := children_pool entries modifier comparison target
    rw [he] at he'
    cases he'
    obtain ⟨xs, u, hxs⟩ : ∃ xs u, (evaluateEntries setting entries).on t = (.ok xs, u) := by
      cases target with
      | none =>
        obtain ⟨xs, u, hxs, -⟩ := on_bind_eq_ok h
        exact ⟨xs, u, hxs⟩
      | some target =>
        obtain ⟨xs, u, hxs, -⟩ := on_bind_eq_ok h
        exact ⟨xs, u, hxs⟩
    rcases (hes c).1 hc with hc | rfl
    · rw [evaluateEntries_eq_mapM] at hxs
      obtain ⟨before, after, ys, w, hs, hys⟩ := exists_mapM_before hxs hc
      rw [← evaluateEntries_eq_mapM] at hys
      exact .inl ⟨w, .entry hs hys⟩
    · exact .inl ⟨u, .poolTarget hxs⟩

/-- What is settled where an evaluation comes to a part is settled at the end. -/
theorem Visits.kept (hn : e.slots.Nodup) (h : Visits setting e t x u) :
    u.sheet.Kept ((e.evaluate setting).on t).2.sheet :=
  ((x.evaluate_orderly setting).grows u).toKept.trans (h.leads hn).kept

/-- What a success comes to when nothing is settled at first, it comes to when it is open. -/
theorem Visits.exists_open (hn : e.slots.Nodup) (hblank : t.sheet = .blank) (h : Visits setting e t x u) :
    ∃ w, Visits setting e t x w ∧ ¬ w.sheet.Shows x := by
  by_cases hx : u.sheet.Shows x
  · obtain ⟨slot, hslot⟩ := hx.exists_slot?
    rcases e.evaluate_confined setting t slot with ⟨d, w, hd, hds, hopen⟩ | hsame
    · cases Expr.coherent_of_nodup hn d x slot hd.partOf h.partOf hds hslot
      exact ⟨w, hd, hopen⟩
    · have hstart := hsame.shows hslot (hx.kept (h.kept hn))
      rw [hblank] at hstart
      exact absurd hstart Sheet.not_shows_blank
  · exact ⟨u, h, hx⟩

/-- Where all slots are different and nothing is settled at first, a success settles every part that is reached. -/
theorem Reached.shows (hfits : e.Everywhere Expr.Fits) (hn : e.slots.Nodup) (hblank : t.sheet = .blank)
    (hok : (e.evaluate setting).on t = (.ok v, t')) (hd : d.slot? = some slot) (hreached : Reached setting e t d)
    (hx : Visits setting e t x u) (hdx : d.PartOf x) : t'.sheet.Shows d := by
  induction hsize : x.size using Nat.strongRecOn generalizing x u with
  | ind n ih =>
    subst hsize
    -- from a part above to one of its own parts that is visited
    have down : ∀ {c : Expr} {es : List Expr} {w : Table}, x.children = .ok es → c ∈ es → d.PartOf c →
        Visits setting e t c w → t'.sheet.Shows d :=
      fun he hc hdc hw => ih _ (Expr.size_lt_of_children he hc) hw hdc rfl
    obtain ⟨w, hw, hopen⟩ := hx.exists_open hn hblank
    obtain ⟨y, w', hy⟩ := (hw.leads hn).ok hok
    cases hdx with
    | self =>
      have hkept := (hw.leads hn).kept
      rw [hok, hy] at hkept
      exact (Expr.shows_of_ok hd hy).kept hkept
    | child he hc hdc =>
      rcases Expr.exists_enters (hfits x hw.partOf) hopen hy he hc with
        ⟨w₁, hw₁⟩ | ⟨condition, consequent, alternative, rfl⟩ | ⟨token, arguments, rfl⟩
      · exact down he hc hdc (hw.enters hw₁)
      · rcases hreached condition consequent alternative hw.partOf (.child he hc hdc) with
          hcondition | ⟨b, ⟨w₁, z, w₂, hw₁, hz, rfl⟩, hbranch⟩
        · exact down rfl (by simp) hcondition (hw.enters .condition)
        · exact down rfl (by split <;> simp) hbranch (hw₁.enters (.branch hz))
      · obtain ⟨f, w₁, hf, -⟩ := on_bind_eq_ok (on_at_eq_ok hy)
        have hkept := hw.kept hn
        rw [hok] at hkept
        exact (Expr.shows_of_named hf hdc hd).kept hkept

/-- Where all slots are different and nothing is settled at first, only parts that are reached are settled. -/
theorem reached_of_shows (hn : e.slots.Nodup) (hblank : t.sheet = .blank) (hpart : d.PartOf e)
    (hd : d.slot? = some slot) (h : ((e.evaluate setting).on t).2.sheet.Shows d) : Reached setting e t d := by
  rcases e.evaluate_confined setting t slot with ⟨d', u, hvisit, hds, -⟩ | hsame
  · cases Expr.coherent_of_nodup hn d' d slot hvisit.partOf hpart hds hd
    intro condition consequent alternative hchoice hdc
    obtain ⟨w, hw, hvisit'⟩ := hvisit.through hn hd hchoice (hdc.mem_slots hd)
    rcases hvisit'.of_choice hd with hcondition | ⟨v, w', hv, hbranch⟩
    · exact .inl hcondition
    · exact .inr ⟨_, ⟨w, v, w', hw, hv, rfl⟩, hbranch⟩
  · have hstart := hsame.shows hd h
    rw [hblank] at hstart
    exact absurd hstart Sheet.not_shows_blank

/-! ### Forms -/

namespace Form

/-- What the evaluation of an expression on which nothing is settled does, by the choices that it makes. -/
structure FollowsChoices (e : Expr) (setting : Setting) (script : List Int) : Prop where
  /-- After a success exactly those dice and substitutions are settled that every choice above them leads to. -/
  settled : ∀ {v table}, evaluate { expr := e } setting script = (.ok v, table) → ∀ {d : Expr} {slot : Slot}, d.PartOf e →
    d.slot? = some slot → (table.sheet.Shows d ↔ Reached setting e (.fresh script) d)
  /-- However the evaluation ends, a choice is decided in one way. -/
  decided : ∀ {condition consequent alternative b b'},
    Chooses setting e (.fresh script) condition consequent alternative b →
      Chooses setting e (.fresh script) condition consequent alternative b' → b = b'
  /-- However the evaluation ends, nothing is done in the other branch of a choice that was decided. -/
  spared : ∀ {condition consequent alternative b},
    Chooses setting e (.fresh script) condition consequent alternative b → ∀ {d : Expr} {slot : Slot},
      d.PartOf (if b then alternative else consequent) → d.slot? = some slot →
        Sheet.SameAt slot .blank (evaluate { expr := e } setting script).2.sheet

/-- **An evaluation goes where its choices lead**, in every expression that is read from tokens. -/
theorem follows_choices {tokens : List Token} {e : Expr} (hread : Expr.ofTokens tokens = .ok e) (setting : Setting)
    (script : List Int) : FollowsChoices e setting script := by
  obtain ⟨hfits, hn, -⟩ := Expr.ofTokens_sound hread
  constructor
  · intro v table hok d slot hpart hd
    constructor
    · intro h
      refine reached_of_shows (t := .fresh script) hn rfl hpart hd ?_
      rwa [show (e.evaluate setting).on (.fresh script) = (.ok v, table) from hok]
    · intro h
      exact h.shows hfits hn rfl hok hd (.self e _) hpart
  · intro condition consequent alternative b b' h h'
    exact h.unique hn h'
  · intro condition consequent alternative b h d slot hd hslot
    exact h.spares hn (hd.mem_slots hslot)

/-- Choices in the number of dice, in faces that are also compared with, in an argument and in a pool; the context has
no `n`. -/
theorem follows_choices_nested : ∃ (tokens : List Token) (e : Expr),
    Token.scan "max((1d2 > 1 ? 2 : 3d4)d(true ? 6 : @n)cs, false ? 1d20 : \x7b1d8, 1d10\x7dcs>(@k ? 1 : 1d3))" =
        .ok tokens ∧ Expr.ofTokens tokens = .ok e ∧
      let run := evaluate { expr := e } ⟨[("k", .bool true)], .standard⟩ [2, 6, 3, 5, 9]
      run.1 = .ok (some (.number (.ofNat 2))) ∧ e.slots = [4, 12, 15, 21, 28, 33, 37, 43, 48] ∧
        (e.slots.filter fun slot => (run.2.sheet.result slot).isSome || (run.2.sheet.resolved slot).isSome) =
          [4, 15, 33, 37, 43] ∧
        FollowsChoices e ⟨[("k", .bool true)], .standard⟩ [2, 6, 3, 5, 9] := by
  obtain ⟨e, hread, hrun⟩ := Expr.exists_of_any
    "max((1d2 > 1 ? 2 : 3d4)d(true ? 6 : @n)cs, false ? 1d20 : \x7b1d8, 1d10\x7dcs>(@k ? 1 : 1d3))"
    (fun e =>
      let run := evaluate { expr := e } ⟨[("k", .bool true)], .standard⟩ [2, 6, 3, 5, 9]
      decide (run.1.toOption = some (some (.number (.ofNat 2))) ∧ e.slots = [4, 12, 15, 21, 28, 33, 37, 43, 48] ∧
        (e.slots.filter fun slot => (run.2.sheet.result slot).isSome || (run.2.sheet.resolved slot).isSome) =
          [4, 15, 33, 37, 43]))
    (by decide +kernel)
  obtain ⟨hvalue, hslots, hshown⟩ := of_decide_eq_true hrun
  obtain ⟨tokens, hscan, hparse⟩ := Expr.ofText_eq_ok hread
  exact ⟨tokens, e, hscan, hparse, eq_ok_of_toOption hvalue, hslots, hshown, follows_choices hparse _ _⟩

end Form

end DiceNotation
