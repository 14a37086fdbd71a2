import DiceNotation.Proofs.Branches

/-!
Walks and what they list.

The stack of a walk holds the parts that are still to be listed with all their own. A walk therefore lists an
expression and then what the walks of its direct parts list. A path names a part by the positions of the direct parts
that lead down to it; walks list the paths in their order, where a prefix comes first. An evaluation looks at the
sheet only under the slots of listed parts, and changes nothing else.

Main statement: `Expr.walk_lists`.
-/

namespace DiceNotation

namespace Expr

variable {e c d : Expr} {es : List Expr} {slot : Slot} {setting : Setting} {t u : Table}

/-- There is an expression in every place. -/
def Proper (e : Expr) : Prop := e.Everywhere fun d => ∀ text, d ≠ .foreign text

theorem Proper.exists_children (h : e.Proper) : ∃ es, e.children = .ok es := exists_children_of_ne h.self

theorem Proper.of_children (h : e.Proper) (he : e.children = .ok es) (hc : c ∈ es) : c.Proper :=
  h.of_partOf (.child he hc (.self c))

theorem Proper.of_fits (h : e.Everywhere Fits) : e.Proper := by
  rintro d hd text rfl
  exact h _ hd

/-! ### The stack -/

/-- What lies on top of the stack is listed with all its parts before the rest. -/
theorem walkFrom_append (es rest : List Expr) :
    walkFrom (es ++ rest) = do
      let ds ← walkFrom es
      let ds' ← walkFrom rest
      return ds ++ ds' := by
  induction hn : sizes es using Nat.strongRecOn generalizing es with
  | ind n ih =>
    subst hn
    cases es with
    | nil =>
      rw [List.nil_append, walkFrom]
      exact (bind_pure (walkFrom rest)).symm
    | cons e es =>
      simp only [List.cons_append, walkFrom_cons, bind_assoc, pure_bind]
      cases he : e.children with
      | error err => rfl
      | ok cs =>
        show walkFrom (cs ++ (es ++ rest)) >>= _ = walkFrom (cs ++ es) >>= _
        rw [← List.append_assoc, ih _ (sizes_append_lt he es) (cs ++ es) rfl]
        simp only [bind_assoc, pure_bind]

/-- The walks of the expressions on a stack, one after the other. -/
theorem walkFrom_eq (es : List Expr) : walkFrom es = return (← es.mapM walk).flatten := by
  induction es with
  | nil => rw [walkFrom]; rfl
  | cons e es ih =>
    rw [← List.singleton_append, walkFrom_append, ih, List.singleton_append, List.mapM_cons]
    simp only [bind_assoc, pure_bind, List.flatten_cons]
    rfl

/-- **A walk lists an expression, and then the walks of its direct parts.** -/
theorem walk_eq (e : Expr) : e.walk = do
    let es ← e.children
    let dss ← es.mapM walk
    return e :: dss.flatten := by
  rw [walk, walkFrom_cons]
  simp only [List.append_nil, walkFrom_eq, bind_assoc, pure_bind]

/-! ### Paths -/

/-- The positions of direct parts, from the whole down to a part. -/
abbrev Path := List Nat

/-- The way down through the fields of an expression and its parts leads to a part; the path tells which one. -/
inductive Reaches : Expr → Path → Expr → Prop where
  | self (e : Expr) : Reaches e [] e
  | part {e c d : Expr} {es : List Expr} {i : Nat} {p : Path} (he : e.children = .ok es) (hc : es[i]? = some c)
      (hd : Reaches c p d) : Reaches e (i :: p) d
  /-- A target that is the faces is the part that stands second, not one of its own. -/
  | target {count faces d : Expr} {slot : Slot} {label : Option String} {modifier : Modifier} {comparison : Comparison}
      {p : Path} (hd : Reaches faces p d) :
      Reaches (.dice slot count faces label modifier comparison .faces) (1 :: p) d

theorem reaches_nil_iff : e.Reaches [] d ↔ d = e := by
  constructor
  · intro h
    cases h
    rfl
  · rintro rfl
    exact .self d

theorem reaches_cons_iff {i : Nat} {p : Path} (he : e.children = .ok es) :
    e.Reaches (i :: p) d ↔ ∃ c, es[i]? = some c ∧ c.Reaches p d := by
  constructor
  · intro h
    cases h with
    | part he' hc hd =>
      rw [he] at he'
      cases he'
      exact ⟨_, hc, hd⟩
    | target hd =>
      cases he
      exact ⟨_, rfl, hd⟩
  · rintro ⟨c, hc, hd⟩
    exact .part he hc hd

theorem Reaches.partOf {p : Path} (h : e.Reaches p d) : d.PartOf e := by
  induction h with
  | self e => exact .self e
  | part he hc _ ih => exact .child he (List.mem_of_getElem? hc) ih
  | target _ ih => exact .child rfl (by simp) ih

theorem PartOf.reaches (h : d.PartOf e) : ∃ p, e.Reaches p d := by
  induction h with
  | self => exact ⟨[], .self _⟩
  | child he hc _ ih =>
    obtain ⟨p, hp⟩ := ih
    obtain ⟨i, hi⟩ := List.getElem?_of_mem hc
    exact ⟨i :: p, .part he hi hp⟩

/-- A walk lists what stands on some paths: each path once and in their order. -/
structure Lists (walked : Except NotExpression (List Expr)) (holds : Path → Expr → Prop)
    (places : List (Path × Expr)) : Prop where
  parts : walked = .ok (places.map Prod.snd)
  sorted : (places.map Prod.fst).Pairwise (· < ·)
  complete : ∀ p d, (p, d) ∈ places ↔ holds p d

/-- What is listed of a list of expressions, the first of which has position `n`. -/
def ReachesFrom (n : Nat) (es : List Expr) (p : Path) (d : Expr) : Prop :=
  ∃ i q c, p = (n + i) :: q ∧ es[i]? = some c ∧ c.Reaches q d

theorem reachesFrom_cons {n : Nat} {p : Path} :
    ReachesFrom n (e :: es) p d ↔ (∃ q, p = n :: q ∧ e.Reaches q d) ∨ ReachesFrom (n + 1) es p d := by
  constructor
  · rintro ⟨i, q, c, rfl, hc, hd⟩
    cases i with
    | zero =>
      cases hc
      exact .inl ⟨q, rfl, hd⟩
    | succ i => exact .inr ⟨i, q, c, by rw [Nat.add_right_comm, Nat.add_assoc], hc, hd⟩
  · rintro (⟨q, rfl, hd⟩ | ⟨i, q, c, rfl, hc, hd⟩)
    · exact ⟨0, q, e, rfl, rfl, hd⟩
    · exact ⟨i + 1, q, c, by rw [Nat.add_right_comm, Nat.add_assoc], hc, hd⟩

theorem reachesFrom_zero {i : Nat} {p : Path} :
    ReachesFrom 0 es (i :: p) d ↔ ∃ c, es[i]? = some c ∧ c.Reaches p d := by
  constructor
  · rintro ⟨j, q, c, hp, hc, hd⟩
    obtain ⟨rfl, rfl⟩ := List.cons.inj hp
    rw [Nat.zero_add] at *
    exact ⟨c, hc, hd⟩
  · rintro ⟨c, hc, hd⟩
    exact ⟨i, p, c, by rw [Nat.zero_add], hc, hd⟩

theorem exists_listsFrom (n : Nat) (h : ∀ c ∈ es, ∃ places, Lists c.walk c.Reaches places) :
    ∃ places, Lists (walkFrom es) (ReachesFrom n es) places := by
  induction es generalizing n with
  | nil =>
    refine ⟨[], by rw [walkFrom]; rfl, .nil, fun p d => ⟨fun h => (by cases h), ?_⟩⟩
    rintro ⟨i, q, c, -, hc, -⟩
    cases hc
  | cons e es ih =>
    obtain ⟨ps, hps⟩ := h e (by simp)
    obtain ⟨qs, hqs⟩ := ih (n + 1) fun c hc => h c (by simp [hc])
    refine ⟨ps.map (Prod.map (n :: ·) id) ++ qs, ?_, ?_, fun p d => ?_⟩
    · rw [← List.singleton_append, walkFrom_append, hqs.parts]
      show e.walk >>= _ = _
      rw [hps.parts, List.map_append, List.map_map]
      rfl
    · rw [List.map_append, List.pairwise_append]
      refine ⟨?_, hqs.sorted, ?_⟩
      · simpa [List.pairwise_map, List.cons_lt_cons_iff] using hps.sorted
      · simp only [List.mem_map]
        rintro p ⟨_, ⟨⟨q, d⟩, -, rfl⟩, rfl⟩ p' ⟨⟨_, d'⟩, hd', rfl⟩
        obtain ⟨i, q', c, rfl, -⟩ := (hqs.complete _ _).1 hd'
        exact List.cons_lt_cons_iff.2 (.inl (by omega))
    · rw [reachesFrom_cons, List.mem_append, hqs.complete]
      refine or_congr_left ?_
      simp only [← hps.complete, List.mem_map, Prod.exists, Prod.map_apply, id, Prod.mk.injEq]
      constructor
      · rintro ⟨q, d, hd, rfl, rfl⟩
        exact ⟨q, rfl, hd⟩
      · rintro ⟨q, rfl, hd⟩
        exact ⟨q, d, hd, rfl, rfl⟩

/-- **A walk lists every part on its path**, each path once and in their order. -/
theorem exists_lists (h : e.Proper) : ∃ places, Lists e.walk e.Reaches places := by
  induction e using ind_children with
  | h e ih =>
    obtain ⟨es, he⟩ := h.exists_children
    obtain ⟨ps, hps⟩ := exists_listsFrom 0 fun c hc => ih es c he hc (h.of_children he hc)
    refine ⟨([], e) :: ps, ?_, ?_, ?_⟩
    · rw [walk, walkFrom_cons, he]
      show walkFrom (es ++ []) >>= _ = _
      rw [List.append_nil, hps.parts]
      rfl
    · refine List.pairwise_cons.2 ⟨fun p hp => ?_, hps.sorted⟩
      obtain ⟨⟨_, d⟩, hd, rfl⟩ := List.mem_map.1 hp
      obtain ⟨i, q, c, rfl, -⟩ := (hps.complete _ _).1 hd
      exact List.nil_lt_cons _ _
    · rintro (_ | ⟨i, p⟩) d
      · rw [reaches_nil_iff, List.mem_cons, hps.complete]
        simp [ReachesFrom]
      · rw [reaches_cons_iff he, List.mem_cons, hps.complete, reachesFrom_zero]
        simp

/-! ### Listed slots -/

theorem slots_walkFrom {es ds : List Expr} (h : walkFrom es = .ok ds) :
    (ds.filterMap slot?).Perm (slotsOf es) := by
  induction hn : sizes es using Nat.strongRecOn generalizing es ds with
  | ind n ih =>
    subst hn
    cases es with
    | nil =>
      rw [walkFrom] at h
      cases h
      exact .nil
    | cons e es =>
      rw [walkFrom_cons] at h
      cases he : e.children with
      | error err => rw [he] at h; cases h
      | ok cs =>
        rw [he] at h
        change walkFrom (cs ++ es) >>= _ = _ at h
        cases hds : walkFrom (cs ++ es) with
        | error err => rw [hds] at h; cases h
        | ok ds' =>
          rw [hds] at h
          cases h
          have hrest := ih _ (sizes_append_lt he es) hds rfl
          rw [slotsOf_append] at hrest
          have hown : ((e :: ds').filterMap slot?) = e.slot?.toList ++ ds'.filterMap slot? := by
            cases hs : e.slot? <;> simp [hs]
          rw [hown, slotsOf]
          refine (hrest.append_left _).trans ?_
          rw [← List.append_assoc]
          exact (slots_perm he).symm.append_right _

/-- A walk lists the slots of the expression. -/
theorem slots_walk {ds : List Expr} (h : e.walk = .ok ds) : (ds.filterMap slot?).Perm e.slots := by
  simpa [slotsOf] using slots_walkFrom h

theorem mem_slots_iff {ds : List Expr} (h : e.walk = .ok ds) :
    slot ∈ e.slots ↔ ∃ d ∈ ds, d.slot? = some slot := by
  rw [← (slots_walk h).mem_iff, List.mem_filterMap]

end Expr

/-! ### What an evaluation looks at -/

/-- Two tables with one script and one list of calls, on whose sheets some slots show the same. -/
structure Table.Agree (slots : List Slot) (t u : Table) : Prop where
  sheet : ∀ slot ∈ slots, Sheet.SameAt slot t.sheet u.sheet
  script : u.script = t.script
  calls : u.calls = t.calls

namespace Play

variable {α β : Type} {slots : List Slot} {x : Play α} {f : α → Play β} {setting : Setting} {t u : Table}

/-- A step does not look at other slots than these: where tables agree on them, it gives the same and the tables still
agree. -/
def Heeds (slots : List Slot) (x : Play α) : Prop :=
  ∀ t u : Table, t.Agree slots u → (x.on u).1 = (x.on t).1 ∧ (x.on t).2.Agree slots (x.on u).2

namespace Heeds

theorem of_still {r : Except Failure α} (h : ∀ t, x.on t = (r, t)) : Heeds slots x := by
  intro t u htu
  rw [h, h]
  exact ⟨rfl, htu⟩

theorem bind (hx : Heeds slots x) (hf : ∀ a, Heeds slots (f a)) : Heeds slots (x >>= f) := by
  intro t u htu
  obtain ⟨hfst, hsnd⟩ := hx t u htu
  rw [on_bind, on_bind]
  generalize x.on t = r at hfst hsnd ⊢
  generalize x.on u = r' at hfst hsnd ⊢
  obtain ⟨a, t'⟩ := r
  obtain ⟨a', u'⟩ := r'
  cases hfst
  cases a with
  | error failure => exact ⟨rfl, hsnd⟩
  | ok a => exact hf a t' u' hsnd

theorem located (op : Option Token) (hx : Heeds slots x) : Heeds slots (at? op x) := by
  intro t u htu
  obtain ⟨hfst, hsnd⟩ := hx t u htu
  rw [on_at, on_at, hfst]
  exact ⟨rfl, hsnd⟩

theorem substitute (context : Context) {slot : Slot} (key : Option Value) (hs : slot ∈ slots) :
    Heeds slots (Play.substitute context slot key) := by
  intro t u htu
  rw [on_substitute, on_substitute, (htu.sheet slot hs).1]
  cases t.sheet.resolved slot with
  | some v => exact ⟨rfl, htu⟩
  | none =>
    dsimp only
    cases (keyText key).mapError Failure.lacking >>= lookUp context with
    | error failure => exact ⟨rfl, htu⟩
    | ok v =>
      refine ⟨rfl, fun i hi => ?_, htu.script, htu.calls⟩
      obtain ⟨hresolved, hrolls, hresult⟩ := htu.sheet i hi
      exact ⟨by simp [hresolved], hrolls, hresult⟩

theorem named (builtins : Builtins) {target : Expr} (n : Nat) (hs : target.slots ⊆ slots) :
    Heeds slots (Play.named builtins target n) := by
  intro t u htu
  have hname : target.name? u.sheet = target.name? t.sheet := by
    cases target with
    | substitution slot key label => simp only [Expr.name?, (htu.sheet slot (hs (by simp [Expr.slots]))).1]
    | _ => rfl
  rw [on_named, on_named, hname]
  exact ⟨rfl, htu⟩

theorem make (slot : Slot) (faces : Nat) (rule : List Nat → Roll) : Heeds slots (Play.make slot faces rule) := by
  intro t u htu
  rw [on_make, on_make, htu.script]
  generalize rule (t.script.map (faceOf faces)) = r
  have hrolled : (rolled slot faces r t).Agree slots (rolled slot faces r u) := by
    refine ⟨fun i hi => ?_, congrArg (List.drop r.used) htu.script, congrArg (· ++ _) htu.calls⟩
    obtain ⟨hresolved, hrolls, hresult⟩ := htu.sheet i hi
    exact ⟨hresolved, by simp [rolled, hrolls], hresult⟩
  dsimp only
  cases r.outcome with
  | error failure => exact ⟨rfl, hrolled⟩
  | ok x =>
    refine ⟨rfl, fun i hi => ?_, hrolled.script, hrolled.calls⟩
    obtain ⟨hresolved, hrolls, hresult⟩ := hrolled.sheet i hi
    exact ⟨hresolved, hrolls, by simp [hresult]⟩

theorem once {slot : Slot} {step : Play Number} (hs : slot ∈ slots) (h : Heeds slots step) :
    Heeds slots (Play.once slot step) := by
  intro t u htu
  rw [on_once, on_once, (htu.sheet slot hs).2.2]
  cases t.sheet.result slot with
  | some y => exact ⟨rfl, htu⟩
  | none => exact h t u htu

end Heeds

theorem heeds_congruence (setting : Setting) (slots : List Slot) :
    Congruence setting setting (fun e => e.slots ⊆ slots) fun x _ => Heeds slots x where
  pure _ := .of_still fun _ => rfl
  throw _ := .of_still fun _ => rfl
  bind hx hf := hx.bind hf
  located op hx := hx.located op
  substitute _ key _ hs := .substitute _ key (hs (by simp [Expr.slots]))
  named _ n hs := .named _ n hs
  once slot _ _ _ _ _ _ hs ho := .once (hs (by simp [Expr.slots_dice])) (ho.bind fun _ => .make slot _ _)

end Play

/-- **An evaluation looks at no other slots than those of its expression.** -/
theorem Expr.evaluate_heeds (setting : Setting) (e : Expr) : Play.Heeds e.slots (e.evaluate setting) :=
  (Play.heeds_congruence setting e.slots).evaluate fun _ hd => hd.slots_sublist.subset

namespace Expr

variable {e d : Expr} {slot : Slot}

/-! ### What a walk lists -/

/-- A list has the parts of an expression in the order of a walk. -/
structure Preorder (e : Expr) (ds : List Expr) : Prop where
  /-- The expression stands first, and then the lists of its direct parts follow. -/
  unfolds : ∃ es dss, e.children = .ok es ∧ es.mapM walk = .ok dss ∧ ds = e :: dss.flatten
  /-- Whatever way leads to a part, its path stands there once. -/
  placed : ∃ places, Lists (.ok ds) e.Reaches places

/-- Evaluations of an expression keep to the parts in a list. -/
structure Contains (e : Expr) (ds : List Expr) : Prop where
  visited : ∀ {setting t d u}, Visits setting e t d u → d ∈ ds
  /-- A call looks at its callee without evaluating it. -/
  named : ∀ {setting t callee token arguments u}, Visits setting e t (.call callee token arguments) u → callee ∈ ds
  changed : ∀ setting t slot, (∀ d ∈ ds, d.slot? ≠ some slot) →
    Sheet.SameAt slot t.sheet ((e.evaluate setting).on t).2.sheet
  heeded : ∀ setting, Play.Heeds (ds.filterMap slot?) (e.evaluate setting)

/-- A list has every part that a sheet tells from others once. -/
structure Distinct (e : Expr) (ds : List Expr) : Prop where
  slots : (ds.filterMap slot?).Nodup
  dice : ∃ dice, e.diceParts = .ok dice ∧ (dice.filterMap slot?).Nodup ∧
    ∀ d, d ∈ dice ↔ d.PartOf e ∧ d.isDice

theorem mem_walk_iff {ds : List Expr} {places : List (Path × Expr)} (h : Lists (.ok ds) e.Reaches places) :
    d ∈ ds ↔ d.PartOf e := by
  obtain rfl := Except.ok.inj h.parts
  constructor
  · intro hd
    obtain ⟨⟨p, d⟩, hp, rfl⟩ := List.mem_map.1 hd
    exact ((h.complete p d).1 hp).partOf
  · intro hd
    obtain ⟨p, hp⟩ := hd.reaches
    exact List.mem_map.2 ⟨(p, d), (h.complete p d).2 hp, rfl⟩

theorem preorder_of_walk (he : e.Proper) {ds : List Expr} (h : e.walk = .ok ds) : e.Preorder ds := by
  refine ⟨?_, h ▸ exists_lists he⟩
  obtain ⟨es, hes⟩ := he.exists_children
  rw [walk_eq, hes] at h
  change es.mapM walk >>= _ = _ at h
  cases hdss : es.mapM walk with
  | error err => rw [hdss] at h; cases h
  | ok dss =>
    rw [hdss] at h
    cases h
    exact ⟨es, dss, hes, hdss, rfl⟩

theorem contains_of_walk {ds : List Expr} (h : e.walk = .ok ds) (hmem : ∀ {d}, d ∈ ds ↔ d.PartOf e) :
    e.Contains ds where
  visited hd := hmem.2 hd.partOf
  named hd := hmem.2 (PartOf.trans (.child rfl (by simp) (.self _)) hd.partOf)
  changed setting t slot hslot := by
    refine ((e.evaluate_orderly setting).grows t).outside slot fun hs => ?_
    obtain ⟨d, hd, hds⟩ := (mem_slots_iff h).1 hs
    exact hslot d hd hds
  heeded setting := by
    intro t u htu
    have hslots : ∀ {slot}, slot ∈ ds.filterMap slot? ↔ slot ∈ e.slots := (slots_walk h).mem_iff
    obtain ⟨hfst, hsheet, hscript, hcalls⟩ :=
      e.evaluate_heeds setting t u ⟨fun slot hs => htu.sheet slot (hslots.2 hs), htu.script, htu.calls⟩
    exact ⟨hfst, fun slot hs => hsheet slot (hslots.1 hs), hscript, hcalls⟩

theorem distinct_of_walk (hn : e.slots.Nodup) {ds : List Expr} (h : e.walk = .ok ds)
    (hmem : ∀ {d}, d ∈ ds ↔ d.PartOf e) : e.Distinct ds := by
  have hslots := (slots_walk h).nodup_iff.2 hn
  refine ⟨hslots, ds.filter isDice, by rw [diceParts, h]; rfl, ?_, fun d => by rw [List.mem_filter, hmem]⟩
  exact (List.filter_sublist.filterMap _).nodup hslots

/-- **Walks are complete and in pre-order.** A walk over an expression ends with its parts, each on its path, and
evaluations keep to them. An expression that is read from tokens has dice and substitutions that are all different. -/
theorem walk_lists :
    (∀ e : Expr, e.Proper → ∃ ds, e.walk = .ok ds ∧ e.Preorder ds ∧ e.Contains ds) ∧
      ∀ tokens e, ofTokens tokens = .ok e → e.Proper ∧ ∃ ds, e.walk = .ok ds ∧ e.Distinct ds := by
  have hlisted : ∀ e : Expr, e.Proper → ∃ ds, e.walk = .ok ds ∧ e.Preorder ds ∧ ∀ {d}, d ∈ ds ↔ d.PartOf e := by
    intro e he
    obtain ⟨places, hplaces⟩ := exists_lists he
    have hpre := preorder_of_walk he hplaces.parts
    obtain ⟨places', hplaces'⟩ := hpre.placed
    exact ⟨_, hplaces.parts, hpre, mem_walk_iff hplaces'⟩
  constructor
  · intro e he
    obtain ⟨ds, hds, hpre, hmem⟩ := hlisted e he
    exact ⟨ds, hds, hpre, contains_of_walk hds hmem⟩
  · intro tokens e hread
    obtain ⟨hfits, hn, -⟩ := ofTokens_sound hread
    obtain ⟨ds, hds, -, hmem⟩ := hlisted e (.of_fits hfits)
    exact ⟨.of_fits hfits, ds, hds, distinct_of_walk hn hds hmem⟩

/-- Dice that stand in two places, and a text in which faces are compared with and dice stand in faces, a call and a
pool. -/
theorem walk_lists_shared :
    (∃ ds, Form.twice.expr.walk = .ok ds ∧ Form.twice.expr.Preorder ds ∧ Form.twice.expr.Contains ds) ∧
      ∃ tokens e, Token.scan "1d(1d@n)cs + max(2d6kh1, \x7b@k, 3d4!\x7dcs>1d2)" = .ok tokens ∧
        ofTokens tokens = .ok e ∧ e.size = 22 ∧ e.slots = [1, 4, 5, 12, 18, 21, 28] ∧
          e.Proper ∧ ∃ ds, e.walk = .ok ds ∧ e.Distinct ds := by
  constructor
  · refine walk_lists.1 _ ?_
    simp [Form.twice, Proper]
  · obtain ⟨e, hread, hrun⟩ := exists_of_any "1d(1d@n)cs + max(2d6kh1, \x7b@k, 3d4!\x7dcs>1d2)"
      (fun e => decide (e.size = 22 ∧ e.slots = [1, 4, 5, 12, 18, 21, 28])) (by decide +kernel)
    obtain ⟨hsize, hslots⟩ := of_decide_eq_true hrun
    obtain ⟨tokens, hscan, hparse⟩ := ofText_eq_ok hread
    exact ⟨tokens, e, hscan, hparse, hsize, hslots, walk_lists.2 tokens e hparse⟩

end Expr

end DiceNotation
