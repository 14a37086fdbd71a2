import DiceNotation.Proofs.Domain
import DiceNotation.Proofs.Visits

/-!
A fault has the place of the innermost operator at work.

While a part is evaluated, all expressions around it are in progress. A fault arises without a place and goes up
through them; the first node with an operator, or the token of a call, that has a column gives it its place, and none
further out changes that. What stands between, such as groups, dice and choices, has no place to give.

Main statement: `Expr.evaluate_locates`.
-/

namespace DiceNotation

open Play Token

variable {setting : Setting} {e c d : Expr} {t u : Table}

/-! ### Parts that fail -/

namespace Play

variable {α β γ : Type}

/-- The first step at its table fails where the second one does at another, for the same reason. -/
def FailsWith (x : Play α) (t : Table) (y : Play β) (u : Table) : Prop :=
  ∀ failure u', y.on u = (.error failure, u') → ∃ t', x.on t = (.error failure, t')

namespace FailsWith

variable {x : Play α} {y : Play β} {g : α → Play γ}

theorem refl (x : Play α) (t : Table) : FailsWith x t x t := fun _ u' h => ⟨u', h⟩

theorem first (h : FailsWith x t y u) : FailsWith (x >>= g) t y u := by
  intro failure u' hy
  obtain ⟨t', hx⟩ := h failure u' hy
  exact ⟨t', by rw [on_bind, hx]⟩

theorem next {a : α} {t₁ : Table} (hx : x.on t = (.ok a, t₁)) (h : FailsWith (g a) t₁ y u) :
    FailsWith (x >>= g) t y u := by
  intro failure u' hy
  rw [on_bind_ok hx]
  exact h failure u' hy

theorem mapM {f : Expr → Play α} {before after : List Expr} {a : Expr} {vs : List α} {t₁ : Table}
    (hbefore : (before.mapM f).on t = (.ok vs, t₁)) (h : FailsWith (f a) t₁ y u) :
    FailsWith ((before ++ a :: after).mapM f) t y u := by
  rw [List.mapM_append]
  refine .next hbefore (.first ?_)
  rw [List.mapM_cons]
  exact h.first

theorem once {slot : Slot} {step : Play Number} (hopen : t.sheet.result slot = none) (h : FailsWith step t y u) :
    FailsWith (Play.once slot step) t y u := by
  intro failure u' hy
  rw [on_once_open hopen]
  exact h failure u' hy

end FailsWith

end Play

/-- A part that fails ends the evaluation it is entered from. -/
theorem Enters.fails (h : Enters setting e t c u) : FailsWith (e.work setting) t (c.evaluate setting) u := by
  cases h with
  | group => exact .refl _ _
  | operand => exact .first (.refl _ _)
  | left => exact .first (.refl _ _)
  | right hl => exact .next hl (.first (.refl _ _))
  | condition => exact .first (.refl _ _)
  | branch hc =>
    refine .next hc ?_
    split
    · exact .refl _ _
    · exact .refl _ _
  | @argument callee _ token arguments before after _ _ f vs hf hsplit hbefore =>
    subst hsplit
    rw [Expr.evaluateAll_eq_mapM] at hbefore
    refine .next hf (.first ?_)
    rw [Expr.evaluateAll_eq_mapM]
    exact .mapM hbefore (.refl _ _)
  | @count slot _ faces label modifier comparison target _ hopen =>
    show FailsWith ((Expr.dice slot c faces label modifier comparison target).evaluate setting) _ _ _
    rw [Expr.evaluate_dice]
    exact .first (.once hopen (.first (.first (.first (.refl _ _)))))
  | @faces slot count _ label modifier comparison target _ _ n hopen hcount =>
    show FailsWith ((Expr.dice slot count c label modifier comparison target).evaluate setting) _ _ _
    rw [Expr.evaluate_dice]
    exact .first (.once hopen (.first (.next hcount (.first (.first (.refl _ _))))))
  | @target slot count faces _ label modifier comparison target _ _ _ n f hopen hcount hfaces hr hm hc =>
    show FailsWith ((Expr.dice slot count faces label modifier comparison target).evaluate setting) _ _ _
    rw [Expr.evaluate_dice]
    refine .first (.once hopen (.first (.next hcount (.next hfaces (.next (by rw [hr]; rfl) (.first ?_))))))
    rw [targetNumber, if_neg hm]
    have htarget : Expr.evaluateTarget setting modifier faces target = c.evaluate setting := by
      cases target <;> cases hc <;> rfl
    rw [htarget]
    exact .first (.refl _ _)
  | @entry _ entries before after modifier comparison target _ _ xs hsplit hbefore =>
    subst hsplit
    have hentries : FailsWith (Expr.evaluateEntries setting (before ++ c :: after)) t (c.evaluate setting) u := by
      rw [Expr.evaluateEntries_eq_mapM] at hbefore ⊢
      exact .mapM hbefore (.first (.refl _ _))
    cases target with
    | none => exact .first hentries
    | some target => exact .first hentries
  | poolTarget hxs => exact .next hxs (.first (.refl _ _))

/-! ### Where failures are raised -/

/-- The functions of a library raise failures without a place. -/
def Builtins.Fresh (fs : Builtins) : Prop :=
  ∀ entry ∈ fs, ∀ vs failure, entry.2.apply vs = .error failure → failure.Fresh

namespace Builtins

theorem fresh_of_fromFirst {f : Option Value → List (Option Value) → Except Fault Value} {vs : List (Option Value)}
    {failure : Failure} (h : Builtin.fromFirst f vs = .error failure) : failure.Fresh := by
  rintro cause place rfl
  cases vs with
  | nil => cases h
  | cons v vs =>
    rw [Builtin.fromFirst] at h
    cases hf : f v vs with
    | ok r => rw [hf] at h; cases h
    | error cause' => rw [hf] at h; cases h; rfl

theorem standard_fresh : Fresh standard := by
  have hunary (name shown : String) (round : Number → Option Int) (vs : List (Option Value)) (failure : Failure) :
      (Builtin.unary name shown round).apply vs = .error failure → failure.Fresh := fresh_of_fromFirst
  have hvariadic (name : String) (pick : Number → Number → Number) (vs : List (Option Value)) (failure : Failure) :
      (Builtin.variadic name pick).apply vs = .error failure → failure.Fresh := fresh_of_fromFirst
  simp only [Fresh, standard, List.forall_mem_cons]
  exact ⟨hunary _ _ _, hunary _ _ _, hunary _ _ _, hunary _ _ _, hvariadic _ _, hvariadic _ _, List.forall_mem_nil _⟩

end Builtins

/-- A step at a table fails only for these reasons. -/
def Play.FailsFor {α : Type} (P : Failure → Prop) (x : Play α) (t : Table) : Prop :=
  ∀ failure t', x.on t = (.error failure, t') → P failure

namespace Play.FailsFor

variable {α β : Type} {P : Failure → Prop} {x : Play α} {f : α → Play β}

theorem pure (a : α) (t : Table) : FailsFor P (Pure.pure a : Play α) t := by
  intro failure t' h
  cases h

theorem ofOutcome {r : Except Failure α} (h : ∀ failure, r = .error failure → P failure) :
    FailsFor P (Play.ofOutcome r) t := by
  intro failure t' hr
  rw [on_ofOutcome] at hr
  exact h failure (Prod.mk.inj hr).1

theorem bind (hx : FailsFor P x t) (hf : ∀ a u, x.on t = (.ok a, u) → FailsFor P (f a) u) :
    FailsFor P (x >>= f) t := by
  intro failure t' h
  rw [on_bind] at h
  generalize hon : x.on t = r at h
  rcases r with ⟨failure' | a, t₁⟩
  · cases h
    exact hx failure t' hon
  · exact hf a t₁ hon failure t' h

end Play.FailsFor

namespace Expr

/-- The evaluation of an expression at a table fails. -/
def FailsAt (setting : Setting) (e : Expr) (t : Table) : Prop :=
  ∃ failure t', (e.evaluate setting).on t = (.error failure, t')

/-- What an evaluation fails for it raises itself, unless a part that it enters fails. -/
theorem work_fails (hb : setting.builtins.Fresh) (e : Expr) (t : Table) :
    FailsFor (fun failure => failure.Fresh ∨ ∃ c u, Enters setting e t c u ∧ c.FailsAt setting u) (e.work setting)
      t := by
  have hsteps : Along setting e t fun x u =>
      FailsFor (fun failure => failure.Fresh ∨ ∃ c w, Enters setting e t c w ∧ c.FailsAt setting w) x u :=
    { pure := .pure
      throw := fun hfresh u failure u' h => by
        cases h
        exact .inl hfresh
      bind := .bind
      sheet := fun u failure u' h => by cases h
      resolve := fun _ _ v failure u' h => by cases h
      make := fun _ _ o u failure u' h => by
        have hroll := congrArg Prod.fst h
        rw [fst_on_make] at hroll
        refine .inl ?_
        -- a roll lacks entries, or its total or target is out of range
        rintro cause place rfl
        rcases outcome_error_roll hroll with h | h | h <;> cases h
        rfl
      apply := fun hf vs w => .ofOutcome fun failure h => by
        obtain ⟨name?, hcallee⟩ := callee_of_named hf
        obtain ⟨name, -, hfind⟩ := Fault.find_of_callee hcallee
        exact .inl (hb _ (Fault.mem_of_find hfind) vs failure h)
      part := fun hc failure u' h => .inr ⟨_, _, hc, failure, u', h⟩ }
  exact hsteps.work

theorem failsAt_of_enters (h : Enters setting e t c u) (hc : c.FailsAt setting u) : e.FailsAt setting t := by
  obtain ⟨failure, u', hc⟩ := hc
  obtain ⟨t', hwork⟩ := h.fails failure u' hc
  rw [FailsAt, evaluate_eq_at, on_at, hwork]
  exact ⟨_, _, rfl⟩

theorem failure_of_work {failure' : Failure} (h : (e.evaluate setting).on t = (.error failure', u)) :
    ∃ failure, (e.work setting).on t = (.error failure, u) ∧ locateAt e.reporter? failure = failure' := by
  rw [evaluate_eq_at, on_at] at h
  generalize (e.work setting).on t = r at h ⊢
  rcases r with ⟨failure | v, t₁⟩
  · cases h
    exact ⟨failure, rfl, rfl⟩
  · cases h

/-! ### Places -/

/-- The place that a node gives to a fault: its operator, or the token of a call, unless that is in column zero. -/
def place? (e : Expr) : Option Place :=
  e.reporter?.bind fun op => if op.column = 0 then none else some ⟨op.column, op.lexeme⟩

/-- The deepest of the nodes, which are listed from the outside in, that has a place to give. -/
def deepest? (nodes : List Expr) : Option Expr := nodes.reverse.find? (·.place?.isSome)

theorem place?_eq_some {place : Place} (h : e.place? = some place) :
    ∃ op, e.reporter? = some op ∧ place = ⟨op.column, op.lexeme⟩ := by
  obtain ⟨op, hop, hplace⟩ := Option.bind_eq_some_iff.1 h
  refine ⟨op, hop, ?_⟩
  split at hplace
  · cases hplace
  · exact (Option.some.inj hplace).symm

theorem exists_place_of_deepest {nodes : List Expr} (h : deepest? nodes = some d) :
    d ∈ nodes ∧ ∃ place, d.place? = some place := by
  refine ⟨List.mem_reverse.1 (List.mem_of_find?_eq_some h), Option.isSome_iff_exists.1 ?_⟩
  simpa using List.find?_some h

theorem place_deepest?_cons (e : Expr) (nodes : List Expr) :
    (deepest? (e :: nodes)).bind place? = ((deepest? nodes).bind place?).or e.place? := by
  unfold deepest?
  rw [List.reverse_cons, List.find?_append]
  cases hd : nodes.reverse.find? (·.place?.isSome) with
  | none => cases he : e.place? <;> simp [he]
  | some d =>
    obtain ⟨-, place, hplace⟩ := exists_place_of_deepest hd
    simp [hplace]

theorem deepest?_eq_none {nodes : List Expr} :
    (deepest? nodes).bind place? = none ↔ ∀ d ∈ nodes, d.place? = none := by
  induction nodes with
  | nil => simp [deepest?]
  | cons e nodes ih => rw [place_deepest?_cons, Option.or_eq_none_iff, ih, List.forall_mem_cons, and_comm]

/-- A fault that goes up through a node keeps the place it has, or else gets the one of the node. -/
theorem locateAt_eq_fault {failure : Failure} {cause : Fault} {place : Option Place}
    (h : locateAt e.reporter? failure = .fault cause place) :
    ∃ place', failure = .fault cause place' ∧ place = place'.or e.place? := by
  unfold place?
  generalize e.reporter? = reporter at h ⊢
  cases reporter with
  | none => exact ⟨place, h, by simp⟩
  | some op =>
    cases failure with
    | fault cause' place' =>
      cases place' with
      | some found =>
        cases h
        exact ⟨_, rfl, rfl⟩
      | none =>
        simp only [locateAt, Failure.locate] at h
        split at h
        next hzero =>
          cases h
          exact ⟨_, rfl, by simp [hzero]⟩
        next hcolumn =>
          cases h
          exact ⟨_, rfl, by simp [hcolumn]⟩
    | _ => cases h

/-- The nodes whose evaluations are in progress when the evaluation of an expression fails, from the outside in. The
innermost one fails though each part that it enters succeeds. -/
inductive InProgress (setting : Setting) : Expr → Table → List Expr → Prop where
  | here {e : Expr} {t : Table} (h : e.FailsAt setting t)
      (hparts : ∀ c u, Enters setting e t c u → ¬ c.FailsAt setting u) : InProgress setting e t [e]
  | within {e c : Expr} {t u : Table} {nodes : List Expr} (h : Enters setting e t c u)
      (hc : InProgress setting c u nodes) : InProgress setting e t (e :: nodes)

namespace InProgress

variable {nodes : List Expr}

theorem failsAt (h : InProgress setting e t nodes) : e.FailsAt setting t := by
  induction h with
  | here h => exact h
  | within h _ ih => exact failsAt_of_enters h ih

theorem partOf (h : InProgress setting e t nodes) (hd : d ∈ nodes) : d.PartOf e := by
  induction h with
  | here =>
    obtain rfl := List.mem_singleton.1 hd
    exact .self d
  | within h _ ih =>
    rcases List.mem_cons.1 hd with rfl | hd
    · exact .self d
    · obtain ⟨es, he, hc⟩ := h.mem_children
      exact .child he hc (ih hd)

/-- A fault has the place of the deepest node in progress that gives one. -/
theorem place (hb : setting.builtins.Fresh) (h : InProgress setting e t nodes) {cause : Fault} {place : Option Place}
    {t' : Table} (hfault : (e.evaluate setting).on t = (.error (.fault cause place), t')) :
    place = (deepest? nodes).bind place? := by
  induction h generalizing cause place t' with
  | @here e t _ hparts =>
    obtain ⟨failure, hwork, hlocate⟩ := failure_of_work hfault
    obtain ⟨place', rfl, rfl⟩ := locateAt_eq_fault hlocate
    rcases work_fails hb e t _ t' hwork with hfresh | ⟨c, u, hc, hfails⟩
    · obtain rfl := hfresh cause place' rfl
      rw [place_deepest?_cons]
      rfl
    · exact absurd hfails (hparts c u hc)
  | within h hc ih =>
    obtain ⟨failure, hwork, hlocate⟩ := failure_of_work hfault
    obtain ⟨place', rfl, rfl⟩ := locateAt_eq_fault hlocate
    obtain ⟨failure, u', hpart⟩ := hc.failsAt
    obtain ⟨t'', hwork'⟩ := h.fails failure u' hpart
    cases hwork.symm.trans hwork'
    rw [place_deepest?_cons, ← ih hpart]

end InProgress

theorem exists_inProgress (e : Expr) (t : Table) (h : e.FailsAt setting t) : ∃ nodes, InProgress setting e t nodes := by
  induction e, t using Enters.ind setting with
  | h e t ih =>
    by_cases hparts : ∃ c u, Enters setting e t c u ∧ c.FailsAt setting u
    · obtain ⟨c, u, hc, hfails⟩ := hparts
      obtain ⟨nodes, hnodes⟩ := ih c u hc hfails
      exact ⟨e :: nodes, .within hc hnodes⟩
    · exact ⟨[e], .here h fun c u hc hfails => hparts ⟨c, u, hc, hfails⟩⟩

/-! ### Places in a text -/

/-- The operator of a node, or the token of a call, is a token of a text, between others. -/
structure Marked (source : String) (before : List Token) (op : Token) (after : List Token) (d : Expr) : Prop where
  reporter : d.reporter? = some op
  scanned : Token.scan source = .ok (before ++ op :: after)
  nonempty : op.lexeme ≠ ""
  column : 1 ≤ op.column
  /-- What the text has at the column of the token begins with it. -/
  text : op.lexeme.toList <+: source.toList.drop (op.column - 1)
  /-- The token of a call ends its callee, and its parenthesis comes next. -/
  opened : ∀ callee token arguments, d = .call callee token arguments → ∃ cs opener rest, cs <:+ before ∧
    Spelled .free callee (cs ++ [op]) ∧ after = opener :: rest ∧ opener.kind = .leftParen

/-- Where the operator of a node stands among the tokens that spell the node. -/
theorem split_of_reporter {style : Style} {ts : List Token} (h : Spelled style d ts) {op : Token}
    (hop : d.reporter? = some op) : ∃ cs us, ts = cs ++ op :: us ∧
      ∀ callee token arguments, d = .call callee token arguments →
        Spelled style callee (cs ++ [op]) ∧ ∃ opener rest, us = opener :: rest ∧ opener.kind = .leftParen := by
  cases h with
  | @unary op' _ ts =>
    cases hop
    exact ⟨[], ts, rfl, fun callee token arguments heq => by cases heq⟩
  | @binary op' _ _ ls rs =>
    cases hop
    exact ⟨ls, rs, rfl, fun callee token arguments heq => by cases heq⟩
  | @call opener closer token _ _ cs ts hcallee ho =>
    cases hop
    refine ⟨cs, opener :: (ts ++ [closer]), rfl, ?_⟩
    rintro callee token arguments heq
    cases heq
    exact ⟨hcallee, opener, _, rfl, ho⟩
  | _ => cases hop

/-- The operators of an expression that was read are marked in its text. -/
theorem exists_marked {source : String} (hread : ofText source = .ok e) (hd : d.PartOf e) {op : Token}
    (hop : d.reporter? = some op) : ∃ before after, d.Marked source before op after := by
  obtain ⟨tokens, hscan, hparse⟩ := ofText_eq_ok hread
  obtain ⟨-, -, hspelled⟩ := ofTokens_sound hparse
  rcases spelledIn_of_partOf hd hspelled with ⟨x, rfl⟩ | ⟨us, hus, hwithin⟩
  · cases hop
  obtain ⟨cs, rest, rfl, hcall⟩ := split_of_reporter hus hop
  have hmem : op ∈ tokens.takeWhile (·.kind ≠ .endOfInput) := hwithin.subset (by simp)
  obtain ⟨first, last, htokens⟩ := hwithin.trans (List.takeWhile_prefix _).isInfix
  obtain ⟨ts, rfl, -, htiles⟩ := (Token.cut_of_scan hscan).tiles
  have hop' : op ∈ ts := by
    rcases List.mem_append.1 (List.takeWhile_subset _ hmem) with h | h
    · exact h
    · obtain rfl := List.mem_singleton.1 h
      exact absurd (List.mem_takeWhile_imp hmem) (by simp [Token.endAt])
  obtain ⟨hne, hcolumn, htext⟩ := htiles.placed op hop'
  rw [← htokens] at hscan
  refine ⟨first ++ cs, rest ++ last, hop, by simpa using hscan, hne, hcolumn, htext, ?_⟩
  rintro callee token arguments hcallee
  obtain ⟨hspelled, opener, later, rfl, hopener⟩ := hcall callee token arguments hcallee
  exact ⟨cs, opener, later ++ last, List.suffix_append first cs, hspelled, rfl, hopener⟩

/-- The place of a fault of an expression points at the innermost operator among nodes that are listed from the outside
in. -/
structure PointsIn (e : Expr) (place : Option Place) (nodes : List Expr) : Prop where
  deepest : place = (deepest? nodes).bind place?
  placeless : place = none ↔ ∀ d ∈ nodes, d.place? = none
  /-- If the expression was read, the place is a token of its text. -/
  marked : ∀ source, ofText source = .ok e → ∀ d, deepest? nodes = some d →
    ∃ op before after, place = some ⟨op.column, op.lexeme⟩ ∧ d.Marked source before op after

/-- **Faults point at the innermost operator.** Where an evaluation fails there are nodes in progress, and the place of
a fault is that of the deepest one among them that has a place to give; it has none exactly if none of them has. -/
theorem evaluate_locates (hb : setting.builtins.Fresh) {cause : Fault} {place : Option Place} {t' : Table}
    (h : (e.evaluate setting).on t = (.error (.fault cause place), t')) :
    (∃ nodes, InProgress setting e t nodes) ∧ ∀ nodes, InProgress setting e t nodes → e.PointsIn place nodes := by
  refine ⟨exists_inProgress e t ⟨_, _, h⟩, fun nodes hnodes => ?_⟩
  have hplace := hnodes.place hb h
  constructor
  case deepest => exact hplace
  case placeless => exact hplace ▸ deepest?_eq_none
  case marked =>
    intro source hread d hd
    obtain ⟨hmem, found, hfound⟩ := exists_place_of_deepest hd
    obtain ⟨op, hop, rfl⟩ := place?_eq_some hfound
    obtain ⟨before, after, hmarked⟩ := exists_marked hread (hnodes.partOf hmem) hop
    exact ⟨op, before, after, by rw [hplace, hd, Option.bind_some, hfound], hmarked⟩

/-- Dice whose faces are no number, in a pool in a call: the fault is at the name of the function. -/
theorem evaluate_locates_call :
    let setting : Setting := ⟨[("sides", .bool true)], .standard⟩
    let t : Table := ⟨.blank, [4, 1], []⟩
    ∃ (e : Expr) (cause : Fault) (place : Option Place) (t' : Table),
      ofText "-1 + (floor(\x7b2d@sides, 3\x7dkh1) * 2)" = .ok e ∧ place = some ⟨7, "floor"⟩ ∧
        setting.builtins.Fresh ∧ (e.evaluate setting).on t = (.error (.fault cause place), t') ∧
          (∃ nodes, InProgress setting e t nodes) ∧ ∀ nodes, InProgress setting e t nodes → e.PointsIn place nodes := by
  intro setting t
  obtain ⟨e, hread, hrun⟩ := exists_of_any "-1 + (floor(\x7b2d@sides, 3\x7dkh1) * 2)"
    (fun e => ((e.evaluate setting).on t).1 =
      .error (.fault (.roleNotNumber .faces (some (.bool true))) (some ⟨7, "floor"⟩)))
    (by decide +kernel)
  have hfault := of_decide_eq_true hrun
  exact ⟨e, _, _, _, hread, rfl, Builtins.standard_fresh, Prod.ext hfault rfl,
    evaluate_locates Builtins.standard_fresh (Prod.ext hfault rfl)⟩

end Expr

end DiceNotation
