import DiceNotation.Proofs.Closeness
import DiceNotation.Proofs.Domain
import DiceNotation.Proofs.History
import DiceNotation.Proofs.Shown
import DiceNotation.Proofs.Visits

/-!
Successes that are asked for without saying which.

Dice under a bare `cs` share one expression: it gives the number of their faces, rounded, and then, not rounded, the
number to compare with. Both times it comes to the same. So such dice count the rolls of their highest face where that
face is close to the number, and otherwise they count nothing. The invariant is `InOrder`: at every moment they have
either no rolls and no result, or those of one roll.

Main statement: `Expr.counts_highest`. That its condition is needed is `Form.misses_highest`.
-/

namespace DiceNotation

open Play

/-! ### One roll -/

/-- How many of the rolls are counted as the highest of `sides` faces by dice that compare with `x`: none at all where
`x` is not close to that face. -/
def highestCounted (x : Number) (sides : Int) (rolls : List Number) : Nat :=
  if (Number.ofInt sides).close x then rolls.countP fun y => y.toInt? = some sides else 0

/-- Where the number of faces is whole, all rolls of the highest one are counted. -/
theorem highestCounted_of_whole {x : Number} {sides : Int} (hx : x.round? = some sides) (h : x.toInt?.isSome)
    (rolls : List Number) : highestCounted x sides rolls = rolls.countP fun y => y.toInt? = some sides := by
  obtain ⟨n, hn⟩ := Option.isSome_iff_exists.1 h
  obtain rfl : sides = n := Option.some.inj (hx.symm.trans (Number.round?_of_toInt? hn))
  rw [highestCounted, if_pos (Number.close_of_toInt? hn)]

theorem testFace_equal_iff {x : Number} {sides : Int} (hx : x.round? = some sides) (face : Nat) :
    Comparison.equal.testFace face x = true ↔
      (Number.ofNat face).toInt? = some sides ∧ (Number.ofInt sides).close x = true :=
  Number.close_ofNat hx face

theorem countFaces_equal {x : Number} {sides : Int} (hx : x.round? = some sides) (faces : List Nat) :
    countFaces .equal x faces = highestCounted x sides (faces.map Number.ofNat) := by
  rw [countFaces, highestCounted, List.countP_map]
  split
  next hclose =>
    refine List.countP_congr fun face _ => ?_
    rw [testFace_equal_iff hx, Function.comp_apply, decide_eq_true_iff]
    exact and_iff_left hclose
  next hclose => exact List.countP_eq_zero.2 fun face _ h => hclose ((testFace_equal_iff hx face).1 h).2

namespace Play

variable {setting : Setting} {count faces : Expr} {modifier : Modifier} {o : Operands} {t u w : Table} {x y : Number}
  {sides : Int} {slot : Slot} {n : Nat}

theorem eq_some_of_requireRole {role : Role} {v : Option Value} (h : requireRole role v = .ok x) :
    v = some (.number x) := by
  unfold requireRole at h
  split at h
  · cases h
    rfl
  · cases h

theorem round?_of_requireFinite {what : String} {n : Int} (h : requireFinite what x = .ok n) : x.round? = some n := by
  unfold requireFinite at h
  split at h
  next hn =>
    cases h
    exact hn
  next => cases h

/-- The expression that two operands share comes to one number, which the number of faces is rounded from. -/
theorem on_operands_shared (hm : modifier ≠ .plain)
    (h : (count.evaluateOperands setting faces modifier .faces).on t = (.ok o, u)) :
    o.target.round? = some o.faces ∧ (faces.evaluate setting).on u = (.ok (some (.number o.target)), u) := by
  obtain ⟨n, t₁, -, h⟩ := on_bind_eq_ok h
  obtain ⟨f, t₂, hf, h⟩ := on_bind_eq_ok h
  obtain ⟨_, t₃, hr, h⟩ := on_bind_eq_ok h
  obtain ⟨x, t₄, hx, h⟩ := on_bind_eq_ok h
  cases h
  obtain ⟨v, w, hv, hf⟩ := on_bind_eq_ok hf
  obtain ⟨y, w', hy, hf⟩ := on_bind_eq_ok hf
  obtain ⟨hnumber, rfl⟩ := on_lift_eq_ok hy
  obtain ⟨hround, rfl⟩ := on_lift_eq_ok hf
  obtain ⟨-, rfl⟩ := on_lift_eq_ok hr
  obtain rfl := eq_some_of_requireRole hnumber
  -- the second time nothing is rolled or looked up
  have hagain : (faces.evaluate setting).on w = (.ok (some (.number y)), w) :=
    Expr.evaluate_replays hv setting.context w (.refl _)
  rw [targetNumber_of_ne hm] at hx
  obtain ⟨v', w'', hv', hx⟩ := on_bind_eq_ok hx
  cases hagain.symm.trans hv'
  obtain ⟨htarget, rfl⟩ := on_lift_eq_ok hx
  cases htarget
  exact ⟨round?_of_requireFinite hround, hagain⟩

/-- Successes that are counted are counted among as many rolls as there are dice, and these are recorded. -/
theorem ok_of_counted {c : Comparison} {shown : List Nat} {m : Nat}
    (h : (roll .countSuccesses c x n m shown).outcome = .ok y) :
    (roll .countSuccesses c x n m shown).recorded = (shown.take n).map .ofNat ∧ (shown.take n).length = n ∧
      (roll .countSuccesses c x n m shown).used = n ∧ y = .ofNat (countFaces c x (shown.take n)) := by
  have hused := used_roll .countSuccesses c x n m shown
  simp only [roll, Modifier.taken] at h hused ⊢
  obtain ⟨hcomplete, hrecorded, hscore⟩ := ok_of_whole h
  simp only [rollPlain_eq] at hcomplete hrecorded hscore hused ⊢
  have hlength := of_decide_eq_true hcomplete
  exact ⟨hrecorded, List.length_take_of_le hlength, hused.trans (Nat.min_eq_left hlength), (Except.ok.inj hscore).symm⟩

/-- Successes that are not counted leave no rolls behind. -/
theorem recorded_of_error {c : Comparison} {shown : List Nat} {m : Nat} {failure : Failure}
    (h : (roll .countSuccesses c x n m shown).outcome = .error failure) :
    (roll .countSuccesses c x n m shown).recorded = [] := by
  simp only [roll, Roll.whole] at h ⊢
  split at h
  next => cases h
  next hc => rw [if_neg hc]

end Play

/-! ### What the sheet shows -/

/-- The sheet shows one roll of the dice under a slot, made when their faces had come to `x`, which is rounded to
`sides`. -/
structure Sheet.CountsHighest (s : Sheet) (slot : Slot) (faces : Expr) (x : Number) (sides : Int) : Prop where
  sides_eq : x.round? = some sides
  /-- At the table `u` of the roll the faces come to `x`, and a die with `sides` faces is asked for once for each of the
  rolls shown. -/
  asked : ∃ setting u w y, (faces.evaluate setting).on u = (.ok (some (.number x)), u) ∧
    (make slot sides.toNat (roll .countSuccesses .equal x (s.rolls slot).length sides.toNat)).on u = (.ok y, w) ∧
      w.sheet.Kept s ∧ w.calls = u.calls ++ List.replicate (s.rolls slot).length sides.toNat
  face : ∀ y ∈ s.rolls slot, ∃ face : Nat, y = .ofNat face ∧ 0 < face ∧ face ≤ sides
  result : s.result slot = some (.ofNat (highestCounted x sides (s.rolls slot)))

/-- Dice under a slot are open, or the sheet shows one roll of them. -/
def Sheet.InOrderAt (s : Sheet) (slot : Slot) (faces : Expr) : Prop :=
  s.rolls slot = [] ∧ s.result slot = none ∨ ∃ x sides, s.CountsHighest slot faces x sides

/-- All dice of an expression that count their highest face are in order. -/
def Sheet.InOrder (s : Sheet) (e : Expr) : Prop :=
  ∀ slot count faces label, (Expr.dice slot count faces label .countSuccesses .equal .faces).PartOf e →
    s.InOrderAt slot faces

section Sheets

variable {s s' : Sheet} {slot : Slot} {faces e : Expr} {x y : Number} {sides : Int}

/-- What the sheet shows is how the result is counted. -/
theorem Sheet.CountsHighest.counted (h : s.CountsHighest slot faces x sides) (hy : s.result slot = some y) :
    y = .ofNat (highestCounted x sides (s.rolls slot)) ∧
      (x.toInt?.isSome → y = .ofNat ((s.rolls slot).countP (·.toInt? = some sides))) := by
  have hcounted := Option.some.inj (hy.symm.trans h.result)
  exact ⟨hcounted, fun hwhole => by rw [hcounted, highestCounted_of_whole h.sides_eq hwhole]⟩

theorem Sheet.InOrderAt.same (h : s.InOrderAt slot faces) (hk : s.Kept s') (hrolls : s'.rolls slot = s.rolls slot)
    (hresult : s'.result slot = s.result slot) : s'.InOrderAt slot faces := by
  rcases h with ⟨hempty, hopen⟩ | ⟨x, sides, hx, ⟨setting, u, w, y, hfaces, hmake, hw, hcalls⟩, hface, hres⟩
  · exact .inl ⟨hrolls.trans hempty, hresult.trans hopen⟩
  · rw [← hrolls] at hmake hcalls hface hres
    exact .inr ⟨x, sides, hx, ⟨setting, u, w, y, hfaces, hmake, hw.trans hk, hcalls⟩, hface, hresult.trans hres⟩

/-- Dice in order that have a result show its roll. -/
theorem Sheet.InOrderAt.of_settled (h : s.InOrderAt slot faces) (hx : s.result slot = some x) :
    ∃ target sides, s.CountsHighest slot faces target sides := by
  rcases h with ⟨-, hopen⟩ | h
  · rw [hopen] at hx
    cases hx
  · exact h

theorem Sheet.InOrderAt.rolls_of_open (h : s.InOrderAt slot faces) (hopen : s.result slot = none) :
    s.rolls slot = [] := by
  rcases h with ⟨hempty, -⟩ | ⟨x, sides, h⟩
  · exact hempty
  · rw [h.result] at hopen
    cases hopen

theorem Sheet.inOrder_blank (e : Expr) : Sheet.blank.InOrder e := fun _ _ _ _ _ => .inl ⟨rfl, rfl⟩

end Sheets

namespace Play

variable {α β : Type} {e : Expr} {setting : Setting} {slot : Slot} {count faces : Expr} {label : Option String}
  {o : Operands} {t u w : Table} {y : Number}

/-- The roll of dice whose operands have their values. -/
theorem countsHighest_of_make (ho : (count.evaluateOperands setting faces .countSuccesses .faces).on t = (.ok o, u))
    (hempty : u.sheet.rolls slot = [])
    (h : (make slot o.faces.toNat (roll .countSuccesses .equal o.target o.count.toNat o.faces.toNat)).on u =
      (.ok y, w)) :
    w.sheet.CountsHighest slot faces o.target o.faces ∧ (w.sheet.rolls slot).length = o.count.toNat ∧
      w.calls = u.calls ++ List.replicate o.count.toNat o.faces.toNat := by
  obtain ⟨hround, hagain⟩ := on_operands_shared (by decide) ho
  obtain ⟨houtcome, hrolls, hcalls, -⟩ := eq_of_make h
  obtain ⟨hrecorded, hlength, hused, hy⟩ := ok_of_counted houtcome
  rw [hempty, List.nil_append, hrecorded] at hrolls
  rw [hused] at hcalls
  have hshown : (w.sheet.rolls slot).length = o.count.toNat := by rw [hrolls, List.length_map, hlength]
  refine ⟨⟨hround, ⟨setting, u, w, y, hagain, by rwa [hshown], .refl _, by rwa [hshown]⟩, ?_, ?_⟩, hshown, hcalls⟩
  · intro y hy
    rw [hrolls] at hy
    obtain ⟨face, hface, rfl⟩ := List.mem_map.1 hy
    obtain ⟨entry, -, rfl⟩ := List.mem_map.1 (List.mem_of_mem_take hface)
    -- where a face is shown there are dice, and these have faces
    have hsides := faces_of_operands ho (by
      have := List.length_pos_of_mem hface
      omega)
    have := faceOf_le (show 0 < o.faces.toNat by omega) entry
    exact ⟨_, rfl, faceOf_pos _ _, by omega⟩
  · rw [Replays.result_make h, hy, hrolls, countFaces_equal hround]

/-- A roll that fails is not recorded, so such dice stay open. -/
theorem inOrderAt_of_make (ho : (count.evaluateOperands setting faces .countSuccesses .faces).on t = (.ok o, u))
    (hempty : u.sheet.rolls slot = []) (hopen : u.sheet.result slot = none) :
    ((make slot o.faces.toNat (roll .countSuccesses .equal o.target o.count.toNat
      o.faces.toNat)).on u).2.sheet.InOrderAt slot faces := by
  generalize hmake : (make slot o.faces.toNat (roll .countSuccesses .equal o.target o.count.toNat
    o.faces.toNat)).on u = r
  obtain ⟨failure | y, w⟩ := r
  · obtain ⟨houtcome, hrolls, -, hresult⟩ := eq_of_make hmake
    rw [recorded_of_error houtcome, hempty] at hrolls
    exact .inl ⟨hrolls, hresult hopen⟩
  · exact .inr ⟨_, _, (countsHighest_of_make ho hempty hmake).1⟩

/-- The step leaves all dice in order that were. -/
def Keeps (e : Expr) (x : Play α) : Prop := ∀ t : Table, t.sheet.InOrder e → (x.on t).2.sheet.InOrder e

namespace Keeps

theorem of_still {x : Play α} (h : ∀ t : Table, (x.on t).2 = t) : Keeps e x := by
  intro t ht
  rwa [h t]

theorem bind {x : Play α} {f : α → Play β} (hx : Keeps e x) (hf : ∀ a, Keeps e (f a)) : Keeps e (x >>= f) := by
  intro t ht
  have h := hx t ht
  rw [on_bind]
  generalize x.on t = r at h ⊢
  rcases r with ⟨failure | a, t₁⟩
  · exact h
  · exact hf a t₁ h

theorem located {x : Play α} (op : Option Token) (h : Keeps e x) : Keeps e (at? op x) := by
  intro t ht
  rw [on_at]
  exact h t ht

protected theorem lift (r : Except Fault α) : Keeps e (Play.lift r) := .of_still fun t => by rw [on_lift]

theorem wholeOperand {x : Play (Option Value)} (hx : Keeps e x) (role : Role) (what : String) :
    Keeps e (Play.wholeOperand role what x) :=
  hx.bind fun _ => (Keeps.lift _).bind fun _ => .lift _

/-- A step that has a value leaves the dice in order. -/
theorem ok {x : Play α} {a : α} (hx : Keeps e x) (h : x.on t = (.ok a, u)) (ht : t.sheet.InOrder e) :
    u.sheet.InOrder e := by
  have := hx t ht
  rwa [h] at this

theorem mapM {f : Expr → Play α} {es : List Expr} (hf : ∀ a, a ∈ es → Keeps e (f a)) : Keeps e (es.mapM f) := by
  induction es with
  | nil => exact .of_still fun _ => rfl
  | cons a es ih =>
    rw [List.mapM_cons]
    exact (hf a (by simp)).bind fun b => (ih fun a ha => hf a (by simp [ha])).bind fun bs => .of_still fun _ => rfl

theorem substitute (context : Context) (slot : Slot) (key : Option Value) :
    Keeps e (Play.substitute context slot key) := by
  intro t ht
  have hk := ((Orderly.substitute context key (List.mem_singleton_self slot)).grows t).toKept
  rw [on_substitute] at hk ⊢
  cases hr : t.sheet.resolved slot with
  | some v => exact ht
  | none =>
    rw [hr] at hk
    dsimp only at hk ⊢
    generalize (keyText key).mapError Failure.lacking >>= lookUp context = r at hk ⊢
    cases r with
    | error failure => exact ht
    | ok v => exact fun i _ faces _ hpart => (ht i _ faces _ hpart).same hk rfl rfl

theorem once (hn : e.slots.Nodup) {modifier : Modifier} {comparison : Comparison} {target : Target Expr}
    (hpart : (Expr.dice slot count faces label modifier comparison target).PartOf e)
    (ho : Keeps e (count.evaluateOperands setting faces modifier target)) :
    Keeps e (Play.once slot (count.evaluateOperands setting faces modifier target >>= fun o =>
      make slot o.faces.toNat (roll modifier comparison o.target o.count.toNat o.faces.toNat))) := by
  intro t ht
  cases hr : t.sheet.result slot with
  | some x => rwa [on_once_settled hr]
  | none =>
    have hu := ho t ht
    have hopen : ((count.evaluateOperands setting faces modifier target).on t).2.sheet.result slot = none :=
      Expr.open_after_operands (hpart.slots_sublist.nodup hn) hr
    rw [on_once_open hr, on_bind]
    generalize hoperands : (count.evaluateOperands setting faces modifier target).on t = r at hu hopen ⊢
    obtain ⟨failure | o, u⟩ := r
    · exact hu
    dsimp only at hu hopen ⊢
    generalize hrule : roll modifier comparison o.target o.count.toNat o.faces.toNat = rule
    have hgrows := grows_make slot o.faces.toNat rule (.refl [slot] u.sheet) hopen (List.mem_singleton_self slot)
    intro i count' faces' label' hpart'
    by_cases hi : i = slot
    · -- of the dice with this slot it is known what was rolled
      subst hi
      cases Expr.coherent_of_nodup hn _ _ i hpart' hpart rfl rfl
      subst hrule
      have hempty := (hu i _ _ _ hpart).rolls_of_open hopen
      exact inOrderAt_of_make hoperands hempty hopen
    · obtain ⟨-, hrolls, hresult⟩ := hgrows.outside i (by simpa using hi)
      exact (hu i _ _ _ hpart').same hgrows.toKept hrolls hresult

end Keeps

theorem keeps_congruence (setting : Setting) (hn : e.slots.Nodup) :
    Congruence setting setting (·.PartOf e) fun x _ => Keeps e x where
  pure _ := .of_still fun _ => rfl
  throw _ := .of_still fun _ => rfl
  bind hx hf := hx.bind hf
  located op hx := hx.located op
  substitute slot key _ _ := .substitute _ slot key
  named target n _ := .of_still fun t => by rw [on_named]
  once _ _ _ _ _ _ _ hpart ho := .once hn hpart ho

end Play

/-! ### Moments -/

/-- The sheet at some moment, in whatever evaluations of an expression and its parts, one after the other: before the
first one, where one of them comes to a part, and where one of them has ended, with a value or with a failure. -/
inductive Moment (e : Expr) : Sheet → Prop where
  | start : Moment e .blank
  | within {setting : Setting} {d c : Expr} {t u : Table} (ht : Moment e t.sheet) (hd : d.PartOf e)
      (h : Enters setting d t c u) : Moment e u.sheet
  | after {setting : Setting} {d : Expr} {t : Table} (ht : Moment e t.sheet) (hd : d.PartOf e) :
      Moment e ((d.evaluate setting).on t).2.sheet

section Moments

variable {setting : Setting} {c d e : Expr} {t u : Table}

theorem Expr.PartOf.keeps (hd : d.PartOf e) (hn : e.slots.Nodup) (setting : Setting) :
    Keeps e (d.evaluate setting) :=
  (keeps_congruence setting hn).evaluate fun _ hc => hc.trans hd

theorem Expr.PartOf.keeps_child {a : Expr} {es : List Expr} (hd : d.PartOf e) (hn : e.slots.Nodup) (setting : Setting)
    (he : d.children = .ok es) (ha : a ∈ es) : Keeps e (a.evaluate setting) :=
  (Expr.PartOf.trans (.child he ha (.self a)) hd).keeps hn setting

theorem Expr.PartOf.keeps_operands {slot : Slot} {count faces : Expr} {label : Option String} {modifier : Modifier}
    {comparison : Comparison} {target : Target Expr}
    (hd : (Expr.dice slot count faces label modifier comparison target).PartOf e) (hn : e.slots.Nodup)
    (setting : Setting) : Keeps e (count.evaluateOperands setting faces modifier target) := by
  obtain ⟨es, he, hes⟩ := Expr.children_dice slot count faces label modifier comparison target
  have hpart : ∀ a, a ∈ es → Keeps e (a.evaluate setting) := fun a => hd.keeps_child hn setting he
  exact (keeps_congruence setting hn).evaluateOperands modifier (hpart _ ((hes _).2 (.inl rfl)))
    (hpart _ ((hes _).2 (.inr (.inl rfl)))) fun a ha => hpart _ ((hes _).2 (.inr (.inr ha)))

theorem Form.moment_foldl_next (form : Form) (hform : Moment form.expr form.sheet)
    (history : List (Setting × List Int)) : Moment form.expr (history.foldl next form).sheet := by
  induction history generalizing form with
  | nil => exact hform
  | cons run history ih =>
    exact ih (form.next run) (.after (t := ⟨form.sheet, run.2, []⟩) hform (.self _))

/-- Where an evaluation comes to a part, all dice are in order. -/
theorem Enters.inOrder (h : Enters setting d t c u) (hd : d.PartOf e) (hn : e.slots.Nodup) (ht : t.sheet.InOrder e) :
    u.sheet.InOrder e := by
  have hpart : ∀ {a : Expr} {es : List Expr}, d.children = .ok es → a ∈ es → Keeps e (a.evaluate setting) :=
    hd.keeps_child hn setting
  have hentries : ∀ {entries before : List Expr} {modifier : Modifier} {comparison : Comparison} {target : Option Expr},
      d = .pool entries modifier comparison target → before ⊆ entries →
        Keeps e (Expr.evaluateEntries setting before) := by
    intro entries before modifier comparison target hd hbefore
    obtain ⟨es, he, hes⟩ := Expr.children_pool entries modifier comparison target
    rw [Expr.evaluateEntries_eq_mapM]
    exact .mapM fun a ha => (hpart (hd ▸ he) ((hes a).2 (.inl (hbefore ha)))).bind fun v => .lift _
  have hwhole : ∀ {slot : Slot} {count faces : Expr} {label : Option String} {modifier : Modifier}
      {comparison : Comparison} {target : Target Expr} {a : Expr} (role : Role) (what : String),
      d = .dice slot count faces label modifier comparison target → a = count ∨ a = faces →
        Keeps e (wholeOperand role what (a.evaluate setting)) := by
    intro slot count faces label modifier comparison target a role what hd ha
    obtain ⟨es, he, hes⟩ := Expr.children_dice slot count faces label modifier comparison target
    exact (hpart (hd ▸ he) ((hes a).2 (ha.imp_right .inl))).wholeOperand role what
  cases h with
  | right h => exact (hpart rfl (by simp)).ok h ht
  | branch h => exact (hpart rfl (by simp)).ok h ht
  | argument hf hs h =>
    subst hs
    rw [Expr.evaluateAll_eq_mapM] at h
    exact (Keeps.mapM fun a ha => hpart rfl (by simp [ha])).ok h ht
  | faces hopen hcount => exact (hwhole _ _ rfl (.inl rfl)).ok hcount ht
  | target hopen hcount hfaces hr hm he =>
    exact (hwhole _ _ rfl (.inr rfl)).ok hfaces ((hwhole _ _ rfl (.inl rfl)).ok hcount ht)
  | entry hs h => exact (hentries rfl (by simp [hs])).ok h ht
  | poolTarget h => exact (hentries rfl (List.Subset.refl _)).ok h ht
  | _ => exact ht

/-- **At every moment all dice that count their highest face are in order.** -/
theorem Moment.inOrder {s : Sheet} (hn : e.slots.Nodup) (h : Moment e s) : s.InOrder e := by
  induction h with
  | start => exact Sheet.inOrder_blank e
  | within ht hd h ih => exact h.inOrder hd hn ih
  | after ht hd ih => exact hd.keeps hn _ _ ih

end Moments

/-! ### Dice under a bare keyword -/

namespace Expr

/-- Dice share an expression between faces and target only under a `cs` with nothing behind it. -/
theorem bare_of_spelled {e : Expr} {ts : List Token} {slot : Slot} {count faces : Expr} {label : Option String}
    {modifier : Modifier} {comparison : Comparison} (h : Spelled .free e ts)
    (hd : (Expr.dice slot count faces label modifier comparison .faces).PartOf e) :
    modifier = .countSuccesses ∧ comparison = .equal := by
  rcases spelledIn_of_partOf hd h with ⟨x, hx⟩ | ⟨us, hus, -⟩
  · cases hx
  · cases hus with
    | @dice _ _ _ _ _ _ _ _ _ written _ _ _ _ _ _ _ _ _ _ hm ht _ =>
      cases written with
      | some value => cases ht
      | none =>
        cases hm
        refine ⟨?_, rfl⟩
        by_contra hne
        rw [Rule.targetOf, if_neg hne] at ht
        cases ht

/-- **A bare `cs` counts the highest face, if that is what it compares with.** Take dice of a text that compare with
their own faces, as they do when nothing stands behind the keyword, and an evaluation of them at any moment that has a
value. Then they are under `cs`, the sheet shows one roll of them, and the value is how many of the rolls shown are
counted: those of the highest face, which is what was asked for, where it is close to what the faces come to, and else
none. Where the faces come to a whole number that is all of them. Dice that were open make their roll now. -/
theorem counts_highest {source : String} {e : Expr} (h : ofText source = .ok e) {slot : Slot} {count faces : Expr}
    {label : Option String} {modifier : Modifier} {comparison : Comparison}
    (hd : (Expr.dice slot count faces label modifier comparison .faces).PartOf e) {setting : Setting} {t t' : Table}
    {v : Option Value} (ht : Moment e t.sheet)
    (hv : ((Expr.dice slot count faces label modifier comparison .faces).evaluate setting).on t = (.ok v, t')) :
    modifier = .countSuccesses ∧ comparison = .equal ∧
      ∃ x sides, t'.sheet.CountsHighest slot faces x sides ∧
        v = some (.number (.ofNat (highestCounted x sides (t'.sheet.rolls slot)))) ∧
        (x.toInt?.isSome → v = some (.number (.ofNat ((t'.sheet.rolls slot).countP (·.toInt? = some sides))))) ∧
        (t.sheet.result slot = none → ∃ n u,
          (count.evaluateOperands setting faces modifier .faces).on t = (.ok ⟨n, sides, x⟩, u) ∧
            (t'.sheet.rolls slot).length = n.toNat ∧ t'.calls = u.calls ++ List.replicate n.toNat sides.toNat) := by
  obtain ⟨-, ts, last, -, -, -, hspelled⟩ := ofText_sound h
  obtain ⟨tokens, -, hread⟩ := ofText_eq_ok h
  have hn := (ofTokens_sound hread).2.1
  obtain ⟨rfl, rfl⟩ := bare_of_spelled hspelled hd
  refine ⟨rfl, rfl, ?_⟩
  rw [evaluate_dice] at hv
  obtain ⟨y, t₁, hy, hv⟩ := on_bind_eq_ok hv
  obtain ⟨hvalue, rfl⟩ := Prod.mk.inj hv
  obtain rfl := Except.ok.inj hvalue
  cases hr : t.sheet.result slot with
  | some x =>
    rw [on_once_settled hr] at hy
    cases hy
    obtain ⟨x, sides, hx⟩ := (ht.inOrder hn _ _ _ _ hd).of_settled hr
    obtain ⟨hcounted, hwhole⟩ := hx.counted hr
    exact ⟨x, sides, hx, by rw [hcounted], fun h => by rw [hwhole h], fun hopen => by cases hopen⟩
  | none =>
    rw [on_once_open hr] at hy
    obtain ⟨o, u, ho, hmake⟩ := on_bind_eq_ok hy
    -- the operands left the dice open
    have hopen : ((count.evaluateOperands setting faces .countSuccesses .faces).on t).2.sheet.result slot = none :=
      open_after_operands (hd.slots_sublist.nodup hn) hr
    have hu := hd.keeps_operands hn setting t (ht.inOrder hn)
    rw [ho] at hopen hu
    obtain ⟨hx, hlength, hcalls⟩ := countsHighest_of_make ho ((hu _ _ _ _ hd).rolls_of_open hopen) hmake
    obtain ⟨hcounted, hwhole⟩ := hx.counted (Replays.result_make hmake)
    exact ⟨_, _, hx, by rw [hcounted], fun h => by rw [hwhole h], fun _ => ⟨o.count, u, ho, hlength, hcalls⟩⟩

/-- Dice of which the faces are missing at first, and are six the second time. -/
theorem counts_highest_sixes : ∃ (count faces : Expr) (t t' : Table) (x : Number) (sides : Int),
    let e : Expr := .dice 1 count faces none .countSuccesses .equal .faces
    ofText "3d@sides cs" = .ok e ∧ e.PartOf e ∧ Moment e t.sheet ∧ t.sheet.result 1 = none ∧
      (e.evaluate ⟨[("sides", .int 6)], .standard⟩).on t = (.ok (some (.number (.ofNat 2))), t') ∧
      t'.sheet.rolls 1 = [.ofNat 6, .ofNat 2, .ofNat 6] ∧ t'.calls = [6, 6, 6] ∧
      t'.sheet.CountsHighest 1 faces x sides ∧
      Number.ofNat 2 = .ofNat (highestCounted x sides (t'.sheet.rolls 1)) ∧
      ∃ n u, (count.evaluateOperands ⟨[("sides", .int 6)], .standard⟩ faces .countSuccesses .faces).on t =
          (.ok ⟨n, sides, x⟩, u) ∧
        (t'.sheet.rolls 1).length = n.toNat ∧ t'.calls = u.calls ++ List.replicate n.toNat sides.toNat := by
  have hscan : Token.scan "3d@sides cs" = .ok [⟨.number, "3", 1⟩, ⟨.name, "d", 2⟩, ⟨.substitution, "@sides", 3⟩,
      ⟨.name, "cs", 10⟩, Token.endAt 12] := by decide +kernel
  let count : Expr := .literal (some (.number (Token.number ⟨.number, "3", 1⟩))) none
  let faces : Expr := .substitution 2 (some (.string (Token.key ⟨.substitution, "@sides", 3⟩))) none
  let e : Expr := .dice 1 count faces none .countSuccesses .equal .faces
  have hread : ofText "3d@sides cs" = .ok e := by
    rw [ofText, hscan]
    rfl
  obtain ⟨s, hs⟩ : ∃ s, s = ([(⟨[], .standard⟩, [5])].foldl Form.next { expr := e }).sheet := ⟨_, rfl⟩
  have hmoment : Moment e s := by
    rw [hs]
    exact Form.moment_foldl_next { expr := e } .start _
  obtain ⟨run, hrun⟩ : ∃ run, (e.evaluate ⟨[("sides", .int 6)], .standard⟩).on ⟨s, [6, 2, 6], []⟩ = run := ⟨_, rfl⟩
  have hopen : s.result 1 = none := by
    rw [hs]
    decide +kernel
  have hvalue : run.1 = .ok (some (.number (.ofNat 2))) := by
    refine eq_ok_of_toOption ?_
    rw [← hrun, hs]
    decide +kernel
  have hrolls : run.2.sheet.rolls 1 = [.ofNat 6, .ofNat 2, .ofNat 6] := by
    rw [← hrun, hs]
    decide +kernel
  have hcalls : run.2.calls = [6, 6, 6] := by
    rw [← hrun, hs]
    decide +kernel
  obtain ⟨outcome, t'⟩ := run
  obtain rfl : outcome = .ok (some (.number (.ofNat 2))) := hvalue
  obtain ⟨-, -, x, sides, hx, hv, -, hroll⟩ :=
    counts_highest hread (.self e) (t := ⟨s, [6, 2, 6], []⟩) hmoment hrun
  exact ⟨count, faces, _, t', x, sides, hread, .self e, hmoment, hopen, hrun, hrolls, hcalls, hx,
    Value.number.inj (Option.some.inj hv), hroll hopen⟩

end Expr

/-- Dice with two and a half faces are rolled with two. None of the rolls is counted, though two show the highest
face. -/
theorem Form.misses_highest : ∃ (count faces : Expr) (table : Table),
    let e : Expr := .dice 1 count faces none .countSuccesses .equal .faces
    Expr.ofText "3d2.5cs" = .ok e ∧
      Form.evaluate { expr := e } ⟨[], .standard⟩ [2, 2, 1] = (.ok (some (.number (.ofNat 0))), table) ∧
      table.calls = [2, 2, 2] ∧ table.sheet.rolls 1 = [.ofNat 2, .ofNat 2, .ofNat 1] ∧
      (table.sheet.rolls 1).countP (fun y => y.toInt? = some 2) = 2 := by
  have hscan : Token.scan "3d2.5cs" = .ok [⟨.number, "3", 1⟩, ⟨.name, "d", 2⟩, ⟨.number, "2.5", 3⟩,
      ⟨.name, "cs", 6⟩, Token.endAt 8] := by decide +kernel
  let count : Expr := .literal (some (.number (Token.number ⟨.number, "3", 1⟩))) none
  let faces : Expr := .literal (some (.number (Token.number ⟨.number, "2.5", 3⟩))) none
  let e : Expr := .dice 1 count faces none .countSuccesses .equal .faces
  have hread : Expr.ofText "3d2.5cs" = .ok e := by
    rw [Expr.ofText, hscan]
    rfl
  let run := Form.evaluate { expr := e } ⟨[], .standard⟩ [2, 2, 1]
  have hvalue : run.1 = .ok (some (.number (.ofNat 0))) := by
    refine eq_ok_of_toOption ?_
    decide +kernel
  have hcalls : run.2.calls = [2, 2, 2] := by decide +kernel
  have hrolls : run.2.sheet.rolls 1 = [.ofNat 2, .ofNat 2, .ofNat 1] := by decide +kernel
  refine ⟨count, faces, run.2, hread, by rw [← hvalue], hcalls, hrolls, ?_⟩
  rw [hrolls]
  decide +kernel

end DiceNotation
