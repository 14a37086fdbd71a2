import DiceNotation.Proofs.Printing
import DiceNotation.Proofs.Replay
import DiceNotation.Proofs.Rolls

/-!
What evaluations fail for.

The nodes of the grammar leave nothing for an evaluation to miss: there is an operator it knows, a target where a
modifier asks for one, and an argument where a function looks at one. So what is left to fail are the values, the sum
of too many faces, and the script.

Main statement: `evaluate_arises`.
-/

namespace DiceNotation

open Play

/-! ### Faults -/

namespace Fault

/-- What faults name first: an operator, a function, or a number that has to be whole. -/
def subjects : List String :=
  Token.operators.map (String.ofList ·.1) ++ Builtins.standard.map (·.1) ++
    ["Dice number", "Dice faces", "Keep/drop count"]

/-- A fault of the values of an expression, not of its nodes. -/
def Ordinary : Fault → Prop
  | .notNumber what _ | .notFinite what _ | .wrongArity what _ _ | .fewArguments what _ _ => what ∈ subjects
  | .roleNotNumber .. | .noFaces _ | .missingKey _ | .unsupportedData _ | .namelessCall | .unknownFunction _ => True
  | .noTarget _ | .noPoolTarget _ | .unknownPoolModifier _ => False
  | .unknownUnary _ | .unknownBinary _ | .notExpression => False

variable {what : String}

theorem mem_subjects_of_operator {op : Token} (h : (op.lexeme.toList, op.kind) ∈ Token.operators) :
    op.lexeme ∈ subjects := by
  have hmem := List.mem_map_of_mem (f := fun p => String.ofList p.1) h
  rw [String.ofList_toList] at hmem
  exact List.mem_append_left _ (List.mem_append_left _ hmem)

theorem ordinary_requireNumber (h : what ∈ subjects) (v : Option Value) :
    FailsOnly Ordinary (requireNumber what v) := by
  unfold requireNumber
  split
  · exact .ok _
  · exact .error h

theorem ordinary_requireRole (role : Role) (v : Option Value) : FailsOnly Ordinary (requireRole role v) := by
  unfold requireRole
  split
  · exact .ok _
  · exact .error trivial

theorem ordinary_requireFinite (h : what ∈ subjects) (x : Number) : FailsOnly Ordinary (requireFinite what x) := by
  unfold requireFinite
  split
  · exact .ok _
  · exact .error h

theorem ordinary_requireFaces (count faces : Int) : FailsOnly Ordinary (requireFaces count faces) := by
  unfold requireFaces
  split
  · exact .error trivial
  · exact .ok ()

/-! ### Operators -/

section Operators

variable {op : Token} (hop : op.lexeme ∈ subjects)

include hop

theorem ordinary_applyUnary (hkind : op.kind = .bang ∨ op.kind = .minus) (v : Option Value) :
    FailsOnly Ordinary (applyUnary op v) := by
  unfold applyUnary
  rcases hkind with hkind | hkind
  · rw [hkind]
    exact .ok _
  · rw [hkind]
    exact (ordinary_requireNumber hop v).map _

theorem ordinary_applyBinary {l : Level} (hkind : op.kind.level? = some l) (v w : Option Value) :
    FailsOnly Ordinary (applyBinary op.kind op.lexeme v w) := by
  have hnumbers {f : Number → Number → Value} : FailsOnly Ordinary (do
      let x ← requireNumber op.lexeme v
      let y ← requireNumber op.lexeme w
      Except.ok (f x y)) :=
    (ordinary_requireNumber hop v).bind fun x => (ordinary_requireNumber hop w).map (f x)
  unfold applyBinary
  generalize op.kind = kind at hkind ⊢
  cases kind <;> first | exact .ok _ | exact hnumbers | cases hkind

end Operators

theorem ordinary_scorePool {modifier : Modifier} (h : modifier = .countSuccesses ∨ modifier.isSelection)
    (c : Comparison) (xs : List Number) (target : Number) : FailsOnly Ordinary (scorePool modifier c xs target) := by
  cases modifier with
  | countSuccesses => exact .ok _
  | select s => exact (ordinary_requireFinite (by decide) target).map _
  | _ => simp [Modifier.isSelection] at h

/-! ### Functions -/

/-- What a function fails for: an ordinary fault, which has no place yet. -/
def OrdinaryFailure (failure : Failure) : Prop := ∃ cause : Fault, failure = .fault cause none ∧ cause.Ordinary

theorem ordinary_fromFirst {f : Option Value → List (Option Value) → Except Fault Value}
    (h : ∀ v vs, FailsOnly Ordinary (f v vs)) {vs : List (Option Value)} (hne : vs ≠ []) :
    FailsOnly OrdinaryFailure (Builtin.fromFirst f vs) := by
  obtain ⟨v, vs, rfl⟩ := List.exists_cons_of_ne_nil hne
  exact (h v vs).mapError fun cause hcause => ⟨cause, rfl, hcause⟩

theorem ordinary_integral (h : what ∈ subjects) (round : Number → Option Int) (v : Option Value) :
    FailsOnly Ordinary (Builtin.integral what round v) := (ordinary_requireNumber h v).map _

theorem ordinary_pickStep (h : what ∈ subjects) (pick : Number → Number → Number) (best : Number) (v : Option Value) :
    FailsOnly Ordinary (Builtin.pickStep what pick best v) := (ordinary_requireNumber h v).map _

theorem ordinary_pickFrom (h : what ∈ subjects) (pick : Number → Number → Number) (v : Option Value)
    (vs : List (Option Value)) : FailsOnly Ordinary (Builtin.pickFrom what pick v vs) := by
  have hpicks (best : Number) : FailsOnly Ordinary (vs.foldlM (Builtin.pickStep what pick) best) := by
    induction vs generalizing best with
    | nil => exact .ok best
    | cons w ws ih =>
      rw [List.foldlM_cons]
      exact (ordinary_pickStep h pick best w).bind ih
  exact (ordinary_requireNumber h v).bind fun first => (hpicks first).map _

/-- A function of the standard library: its messages name it, it takes at least one argument, and given one it has
only ordinary faults. -/
structure Regular (f : Builtin) : Prop where
  name : f.name ∈ subjects
  least : f.arity = some 1 ∨ f.leastArity = 1
  apply : ∀ {vs}, vs ≠ [] → FailsOnly OrdinaryFailure (f.apply vs)

theorem regular_unary {name shown : String} (hname : name ∈ subjects) (hshown : shown ∈ subjects)
    (round : Number → Option Int) : Regular (.unary name shown round) :=
  ⟨hname, .inl rfl, ordinary_fromFirst fun v _ => ordinary_integral hshown round v⟩

theorem regular_variadic {name : String} (hname : name ∈ subjects) (pick : Number → Number → Number) :
    Regular (.variadic name pick) :=
  ⟨hname, .inr rfl, ordinary_fromFirst (ordinary_pickFrom hname pick)⟩

theorem regular_standard : ∀ f ∈ Builtins.standard.map (·.2), Regular f := by
  simp only [Builtins.standard, List.map_cons, List.map_nil, List.forall_mem_cons]
  refine ⟨regular_unary ?_ ?_ _, regular_unary ?_ ?_ _, regular_unary ?_ ?_ _, regular_unary ?_ ?_ _,
    regular_variadic ?_ _, regular_variadic ?_ _, List.forall_mem_nil _⟩
  all_goals decide

theorem mem_of_find {builtins : Builtins} {name : String} {f : Builtin} (h : builtins.find name = .ok f) :
    (Text.lowercase name, f) ∈ builtins := by
  unfold Builtins.find at h
  dsimp only at h
  cases hf : List.lookup (Text.lowercase name) builtins with
  | none =>
    rw [hf] at h
    cases h
  | some g =>
    rw [hf] at h
    cases h
    obtain ⟨before, after, hsplit, -⟩ := List.lookup_eq_some_iff.1 hf
    rw [hsplit]
    exact List.mem_append_right _ List.mem_cons_self

theorem regular_of_find {name : String} {f : Builtin} (h : Builtins.standard.find name = .ok f) : Regular f :=
  regular_standard f (List.mem_map_of_mem (mem_of_find h))

theorem ordinary_find (name : String) : FailsOnly Ordinary (Builtins.standard.find name) := by
  unfold Builtins.find
  dsimp only
  split
  · exact .ok _
  · exact .error trivial

/-- A function that a library has is called with arguments that it takes, and refuses others. -/
theorem callee_of_find {builtins : Builtins} {name : String} {f : Builtin} (hf : builtins.find name = .ok f) (n : Nat) :
    (callee builtins (some name) n = .ok f ∧ (∀ k, f.arity = some k → n = k) ∧ f.leastArity ≤ n) ∨
      (∃ k, callee builtins (some name) n = .error (.wrongArity f.name k n)) ∨
        callee builtins (some name) n = .error (.fewArguments f.name f.leastArity n) := by
  simp only [callee, hf, bind, Except.bind, throw, throwThe, MonadExceptOf.throw]
  by_cases hleast : n < f.leastArity
  · simp only [if_pos hleast]
    cases f.arity with
    | none => exact .inr (.inr rfl)
    | some k =>
      by_cases hn : n = k
      · simp [hn]
      · simp [hn]
  · simp only [if_neg hleast]
    cases f.arity with
    | none => exact .inl ⟨rfl, by simp, by omega⟩
    | some k =>
      by_cases hn : n = k
      · refine .inl ⟨?_, by simp [hn], by omega⟩
        simp [hn]
        rfl
      · simp [hn]

theorem ordinary_callee (name? : Option String) (n : Nat) : FailsOnly Ordinary (callee .standard name? n) := by
  cases name? with
  | none => exact .error trivial
  | some name =>
    cases hf : Builtins.standard.find name with
    | error cause =>
      have hcause := ordinary_find name cause hf
      unfold callee
      simp only [hf]
      exact .error hcause
    | ok f =>
      have hname := (regular_of_find hf).name
      rcases callee_of_find hf n with ⟨h, -⟩ | ⟨k, h⟩ | h
      · rw [h]
        exact .ok f
      · rw [h]
        exact .error hname
      · rw [h]
        exact .error hname

/-- The function of a call is found under its name. -/
theorem find_of_callee {builtins : Builtins} {name? : Option String} {n : Nat} {f : Builtin}
    (h : callee builtins name? n = .ok f) : ∃ name, name? = some name ∧ builtins.find name = .ok f := by
  cases name? with
  | none => cases h
  | some name =>
    cases hf : builtins.find name with
    | error cause =>
      unfold callee at h
      simp only [hf] at h
      cases h
    | ok g =>
      rcases callee_of_find hf n with ⟨h', -⟩ | ⟨k, h'⟩ | h'
      · rw [h'] at h
        cases h
        exact ⟨name, rfl, hf⟩
      · rw [h'] at h
        cases h
      · rw [h'] at h
        cases h

/-- The function of a call is one of the library, and gets an argument. -/
theorem regular_of_callee {name? : Option String} {n : Nat} {f : Builtin} (h : callee .standard name? n = .ok f) :
    Regular f ∧ 0 < n := by
  obtain ⟨name, rfl, hf⟩ := find_of_callee h
  have hregular := regular_of_find hf
  rcases callee_of_find hf n with ⟨-, harity, hleast⟩ | ⟨k, h'⟩ | h'
  · refine ⟨hregular, ?_⟩
    rcases hregular.least with h1 | h1
    · have := harity 1 h1
      omega
    · omega
  · rw [h'] at h
    cases h
  · rw [h'] at h
    cases h

end Fault

/-! ### Failures -/

/-- Dice of an expression show faces of which the exact sum, which is asked for, is too large for a number. -/
def Sheet.Overfull (e : Expr) (s : Sheet) : Prop :=
  ∃ slot count faces label modifier comparison target,
    (Expr.dice slot count faces label modifier comparison target).PartOf e ∧
      (modifier = .plain ∨ modifier = .marginOfSuccess) ∧
      ∃ fs : List Nat, fs.map Number.ofNat <:+ s.rolls slot ∧ Number.ofInt? (fs.foldl (· + ·) 0 : Nat) = none

/-- What an evaluation of an expression on a context fails for, with the table that it leaves. -/
inductive Arises (e : Expr) (context : Context) : Failure → Table → Prop where
  | fault {cause : Fault} {place : Option Place} {t : Table} (h : cause.Ordinary) :
      Arises e context (.fault cause place) t
  /-- A value of the context is too large. -/
  | datum {t : Table} (h : context.TooLarge) : Arises e context .overflow t
  /-- A sum of faces is too large. -/
  | total {t : Table} (h : t.sheet.Overfull e) : Arises e context .overflow t
  | outOfRolls {faces : Nat} {t : Table} : Arises e context (.outOfRolls faces) t

namespace Arises

variable {e : Expr} {context : Context} {failure : Failure} {t : Table}

theorem ordinary (h : Fault.OrdinaryFailure failure) : Arises e context failure t := by
  obtain ⟨cause, rfl, hcause⟩ := h
  exact .fault hcause

theorem located (h : Arises e context failure t) (op : Option Token) : Arises e context (locateAt op failure) t := by
  cases op with
  | none => exact h
  | some op =>
    cases h with
    | @fault cause place t h =>
      cases place with
      | none =>
        change Arises e context (if op.column = 0 then _ else _) t
        split <;> exact .fault h
      | some place => exact .fault h
    | datum h => exact .datum h
    | total h => exact .total h
    | outOfRolls => exact .outOfRolls

end Arises

namespace Play

variable {α β : Type} {P : Failure → Table → Prop} {x : Play α} {f : α → Play β} {slot : Slot}

/-! ### Steps that fail in some ways only -/

/-- A step, if it fails, does so with a failure and at a table of which `P` holds. -/
def FailsAs (P : Failure → Table → Prop) (x : Play α) : Prop :=
  ∀ t failure t', x.on t = (.error failure, t') → P failure t'

/-- A step that may give this at some table. -/
def MayGive (x : Play α) (a : α) : Prop := ∃ t t', x.on t = (.ok a, t')

namespace FailsAs

theorem pure (a : α) : FailsAs P (Pure.pure a : Play α) := by
  intro t failure t' h
  cases h

theorem of_still {r : Sheet → Except Failure α} (h : ∀ t : Table, x.on t = (r t.sheet, t))
    (hr : ∀ t : Table, FailsOnly (P · t) (r t.sheet)) : FailsAs P x := by
  intro t failure t' ht
  rw [h] at ht
  obtain ⟨hfailure, rfl⟩ := Prod.mk.inj ht
  exact hr t failure hfailure

theorem ofOutcome {r : Except Failure α} (h : ∀ t, FailsOnly (P · t) r) : FailsAs P (Play.ofOutcome r) :=
  .of_still (r := fun _ => r) (on_ofOutcome r) h

theorem bind (hx : FailsAs P x) (hf : ∀ a, MayGive x a → FailsAs P (f a)) : FailsAs P (x >>= f) := by
  intro t failure t' h
  rw [on_bind] at h
  generalize hon : x.on t = r at h
  rcases r with ⟨failure' | a, t₁⟩
  · cases h
    exact hx t failure t' hon
  · exact hf a ⟨t, t₁, hon⟩ t₁ failure t' h

theorem map (hx : FailsAs P x) (g : α → β) : FailsAs P (x >>= fun a => Pure.pure (g a)) :=
  hx.bind fun a _ => .pure (g a)

theorem located (hP : ∀ op failure t, P failure t → P (locateAt op failure) t) (hx : FailsAs P x) (op : Option Token) :
    FailsAs P (at? op x) := by
  intro t failure t' h
  rw [on_at] at h
  generalize hon : x.on t = r at h
  rcases r with ⟨failure' | a, t₁⟩
  · cases h
    exact hP op failure' t₁ (hx t failure' t₁ hon)
  · cases h

theorem once {step : Play Number} (h : FailsAs P step) : FailsAs P (Play.once slot step) := by
  intro t failure t' ht
  rw [on_once] at ht
  split at ht
  · cases ht
  · exact h t failure t' ht

theorem mapM {g : Expr → Play α} {es : List Expr} (h : ∀ e ∈ es, FailsAs P (g e)) : FailsAs P (es.mapM g) := by
  induction es with
  | nil => exact .pure []
  | cons e es ih =>
    obtain ⟨he, hes⟩ := List.forall_mem_cons.1 h
    rw [List.mapM_cons]
    exact he.bind fun a _ => (ih hes).map (a :: ·)

/-- A step that touches nothing, and has only ordinary faults. -/
theorem lift {e : Expr} {context : Context} {r : Except Fault α} (h : FailsOnly Fault.Ordinary r) :
    FailsAs (Arises e context) (Play.lift r) :=
  .of_still (r := fun _ => r.mapError (.fault · none)) (on_lift r) fun _ => h.mapError fun _ hcause => .fault hcause

end FailsAs

/-! ### Rolls -/

theorem overflow_of_whole {faces : Nat} {taken : Taken Nat} {score : List Nat → Except Failure Number}
    (h : (Roll.whole faces taken score).outcome = .error .overflow) :
    (Roll.whole faces taken score).recorded = taken.values.map Number.ofNat ∧
      score taken.values = .error .overflow := by
  unfold Roll.whole at h ⊢
  split at h
  · next hcomplete =>
    rw [if_pos hcomplete]
    exact ⟨rfl, h⟩
  · cases h

theorem ofInt?_of_total {fs : List Nat} (h : total fs = .error .overflow) :
    Number.ofInt? (fs.foldl (· + ·) 0 : Nat) = none := by
  rw [total] at h
  cases hx : Number.ofInt? (fs.foldl (· + ·) 0 : Nat) with
  | none => rfl
  | some x =>
    rw [hx] at h
    cases h

/-- A roll is too large where the exact sum of its faces is asked for. -/
theorem overflow_of_roll {modifier : Modifier} {c : Comparison} {target : Number} {count faces : Nat} {shown : List Nat}
    (h : (roll modifier c target count faces shown).outcome = .error .overflow) :
    (modifier = .plain ∨ modifier = .marginOfSuccess) ∧ ∃ fs : List Nat,
      (roll modifier c target count faces shown).recorded = fs.map Number.ofNat ∧
        Number.ofInt? (fs.foldl (· + ·) 0 : Nat) = none := by
  unfold roll at h ⊢
  cases modifier with
  | plain =>
    obtain ⟨hrecorded, htotal⟩ := overflow_of_whole h
    exact ⟨.inl rfl, _, hrecorded, ofInt?_of_total htotal⟩
  | marginOfSuccess =>
    obtain ⟨hrecorded, hscore⟩ := overflow_of_whole h
    refine ⟨.inr rfl, _, hrecorded, ofInt?_of_total ?_⟩
    generalize total _ = sum at hscore ⊢
    cases sum with
    | ok x => cases hscore
    | error failure => exact hscore
  | countSuccesses =>
    obtain ⟨-, hscore⟩ := overflow_of_whole h
    cases hscore
  | select s =>
    obtain ⟨-, hscore⟩ := overflow_of_whole h
    split at hscore <;> cases hscore
  | reroll => cases error_of_running h
  | explode => cases error_of_running h
  | compoundExplode => cases error_of_running h

/-- The roll of dice runs out of rolls, has too large a sum, or an endless number to keep or drop. -/
theorem arises_make {e count faces : Expr} {context : Context} {label : Option String} {modifier : Modifier}
    {c : Comparison} {target : Target Expr}
    (hpart : (Expr.dice slot count faces label modifier c target).PartOf e) (x : Number) (n m : Nat) :
    FailsAs (Arises e context) (make slot m (roll modifier c x n m)) := by
  intro t failure t' h
  have houtcome : ((make slot m (roll modifier c x n m)).on t).1 = _ := fst_on_make
  have hrolls : ((make slot m (roll modifier c x n m)).on t).2.sheet.rolls slot = _ := rolls_on_make
  rw [h] at houtcome hrolls
  rcases outcome_error_roll houtcome.symm with rfl | rfl | rfl
  · exact .outOfRolls
  · obtain ⟨hmodifier, fs, hrecorded, hsum⟩ := overflow_of_roll houtcome.symm
    rw [hrecorded] at hrolls
    exact .total ⟨slot, count, faces, label, modifier, c, target, hpart, hmodifier, fs,
      ⟨t.sheet.rolls slot, hrolls.symm⟩, hsum⟩
  · have hmem : "Keep/drop count" ∈ Fault.subjects := by decide
    exact .fault hmem

/-! ### Steps of evaluations -/

section Steps

variable {e : Expr} {context : Context}

theorem arises_lookUp (key : String) (t : Table) : FailsOnly (Arises e context · t) (lookUp context key) := by
  unfold lookUp
  cases hd : context.get? key with
  | none => exact .error (.fault trivial)
  | some d =>
    dsimp only
    unfold requireValue
    cases hv : d.toValue with
    | ok v => exact .ok v
    | error refusal =>
      cases refusal with
      | kind name => exact .error (.fault trivial)
      | overflow => exact .error (.datum ⟨key, d, hd, hv⟩)

theorem arises_substitute (slot : Slot) (name : String) :
    FailsAs (Arises e context) (substitute context slot (some (.string name))) := by
  intro t failure t' h
  rw [on_substitute] at h
  have hkey : (keyText (some (.string name))).mapError Failure.lacking >>= lookUp context = lookUp context name := rfl
  rw [hkey] at h
  split at h
  · cases h
  · cases hlook : lookUp context name with
    | ok v =>
      rw [hlook] at h
      cases h
    | error failure' =>
      rw [hlook] at h
      cases h
      exact arises_lookUp name t failure hlook

theorem arises_named {target : Expr} (hfits : target.Fits) (n : Nat) :
    FailsAs (Arises e context) (named .standard target n) := by
  refine .of_still (r := fun s => (target.name? s).mapError .lacking >>= fun name =>
    (callee .standard name n).mapError (.fault · none)) (on_named .standard target n) fun t => ?_
  obtain ⟨name, hname⟩ := Expr.exists_name? hfits t.sheet
  rw [hname]
  exact (Fault.ordinary_callee name n).mapError fun _ hcause => .fault hcause

theorem callee_of_named {builtins : Builtins} {target : Expr} {n : Nat} {f : Builtin} {t t' : Table}
    (h : (named builtins target n).on t = (.ok f, t')) : ∃ name?, callee builtins name? n = .ok f := by
  rw [on_named] at h
  obtain ⟨hf, -⟩ := Prod.mk.inj h
  cases hn : target.name? t.sheet with
  | error l =>
    rw [hn] at hf
    cases hf
  | ok name =>
    rw [hn] at hf
    change (callee builtins name n).mapError (Failure.fault · none) = .ok f at hf
    cases hc : callee builtins name n with
    | error cause =>
      rw [hc] at hf
      cases hf
    | ok g =>
      rw [hc] at hf
      cases hf
      exact ⟨name, hc⟩

theorem regular_of_named {target : Expr} {n : Nat} {f : Builtin} (h : MayGive (named .standard target n) f) :
    Fault.Regular f ∧ 0 < n := by
  obtain ⟨t, t', h⟩ := h
  obtain ⟨name, hc⟩ := callee_of_named h
  exact Fault.regular_of_callee hc

theorem arises_wholeOperand {x : Play (Option Value)} {what : String} (hx : FailsAs (Arises e context) x) (role : Role)
    (hwhat : what ∈ Fault.subjects) : FailsAs (Arises e context) (wholeOperand role what x) := by
  refine hx.bind fun v _ => ?_
  refine (FailsAs.lift (Fault.ordinary_requireRole role v)).bind fun y _ => ?_
  exact .lift (Fault.ordinary_requireFinite hwhat y)

theorem arises_targetNumber {x : Play (Option Value)} {modifier : Modifier}
    (hx : modifier ≠ .plain → FailsAs (Arises e context) x) : FailsAs (Arises e context) (targetNumber modifier x) := by
  unfold targetNumber
  by_cases hplain : modifier = .plain
  · rw [if_pos hplain]
    exact .pure _
  · rw [if_neg hplain]
    exact (hx hplain).bind fun v _ => .lift (Fault.ordinary_requireRole .target v)

theorem arises_operands {modifier : Modifier} {count faces target : Play (Option Value)}
    (hc : FailsAs (Arises e context) count) (hf : FailsAs (Arises e context) faces)
    (ht : modifier ≠ .plain → FailsAs (Arises e context) target) :
    FailsAs (Arises e context) (operands modifier count faces target) := by
  refine (arises_wholeOperand hc .count (by decide)).bind fun n _ => ?_
  refine (arises_wholeOperand hf .faces (by decide)).bind fun m _ => ?_
  refine (FailsAs.lift (Fault.ordinary_requireFaces n m)).bind fun _ _ => ?_
  exact (arises_targetNumber ht).bind fun x _ => .pure _

end Steps

theorem length_of_evaluateAll {setting : Setting} {es : List Expr} {vs : List (Option Value)}
    (h : MayGive (Expr.evaluateAll setting es) vs) : vs.length = es.length := by
  induction es generalizing vs with
  | nil =>
    obtain ⟨t, t', h⟩ := h
    cases h
    rfl
  | cons e es ih =>
    obtain ⟨t, t', h⟩ := h
    obtain ⟨v, t₁, -, h⟩ := on_bind_eq_ok h
    obtain ⟨ws, t₂, hws, h⟩ := on_bind_eq_ok h
    cases h
    rw [List.length_cons, List.length_cons, ih ⟨t₁, _, hws⟩]

end Play

/-! ### Expressions -/

namespace Expr

/-- The operator of a node. -/
def operator? : Expr → Option Token
  | .unary op _ | .binary op _ _ => op
  | _ => none

/-- A node that evaluations know: one of the grammar, with an operator of the notation. -/
structure Known (e : Expr) : Prop where
  fits : e.Fits
  operator : ∀ op, e.operator? = some op → op.lexeme ∈ Fault.subjects

/-- **An evaluation fails only** for its values, for a number that is too large, or for want of rolls. -/
theorem evaluate_arises {root : Expr} (hroot : root.Everywhere Known) (context : Context) :
    FailsAs (Arises root context) (root.evaluate ⟨context, .standard⟩) := by
  have hlocated op failure t (h : Arises root context failure t) : Arises root context (locateAt op failure) t :=
    h.located op
  have hparts : root.Everywhere fun d => d.Known ∧ d.PartOf root := fun d hd => ⟨hroot d hd, hd⟩
  suffices ∀ e : Expr, (e.Everywhere fun d => d.Known ∧ d.PartOf root) →
      FailsAs (Arises root context) (e.evaluate ⟨context, .standard⟩) from this root hparts
  intro e he
  -- the induction goes down to the parts, while what fails is told of the whole
  induction e using Expr.ind with
  | literal v label => exact .pure v
  | substitution slot key label =>
    obtain ⟨name, rfl⟩ := he.self.1.fits
    exact (arises_substitute slot name).map some
  | group inner ih => exact ih (everywhere_group.1 he).2
  | unary op operand ih =>
    obtain ⟨hknown, ho⟩ := everywhere_unary.1 he
    obtain ⟨⟨op, rfl, hkind⟩, -⟩ := hknown.1.fits
    refine ((ih ho).bind fun v _ => ?_).located hlocated (some op)
    exact (FailsAs.lift (Fault.ordinary_applyUnary (hknown.1.operator op rfl) hkind v)).map some
  | binary op left right ihl ihr =>
    obtain ⟨hknown, hl, hr⟩ := everywhere_binary.1 he
    obtain ⟨op, l, rfl, hkind, -⟩ := hknown.1.fits
    refine ((ihl hl).bind fun v _ => (ihr hr).bind fun w _ => ?_).located hlocated (some op)
    exact (FailsAs.lift (Fault.ordinary_applyBinary (hknown.1.operator op rfl) hkind v w)).map some
  | choice c t e ihc iht ihe =>
    obtain ⟨-, hc, ht, he⟩ := everywhere_choice.1 he
    refine (ihc hc).bind fun v _ => ?_
    by_cases hv : Value.isTruthy v
    · rw [if_pos hv]
      exact iht ht
    · rw [if_neg hv]
      exact ihe he
  | call callee token arguments ihc iha =>
    obtain ⟨-, hc, ha⟩ := everywhere_call.1 he
    have hvs := FailsAs.mapM fun a hm => iha a hm (ha a hm)
    rw [← evaluateAll_eq_mapM] at hvs
    refine FailsAs.located hlocated ?_ token
    refine (arises_named hc.self.1.fits _).bind fun f hf => hvs.bind fun vs hlength => ?_
    obtain ⟨hregular, hpos⟩ := regular_of_named hf
    have hne : vs ≠ [] := List.ne_nil_of_length_pos (length_of_evaluateAll hlength ▸ hpos)
    exact (FailsAs.ofOutcome fun t failure hfailure => .ordinary (hregular.apply hne failure hfailure)).map some
  | dice slot count faces label modifier c target ihc ihf iht =>
    obtain ⟨hknown, hc, hf, ht⟩ := everywhere_dice.1 he
    obtain ⟨-, -, -, -, habsent, -⟩ := hknown.1.fits
    have htarget (hplain : modifier ≠ .plain) : FailsAs (Arises root context)
        (evaluateTarget ⟨context, .standard⟩ modifier faces target) := by
      cases target with
      | absent => exact absurd (habsent.2 rfl) hplain
      | faces => exact ihf hf
      | value target => exact iht target rfl (ht target rfl)
    rw [evaluate_dice]
    have hroll := (arises_operands (ihc hc) (ihf hf) htarget).bind fun o _ =>
      arises_make hknown.2 o.target o.count.toNat o.faces.toNat
    exact hroll.once.bind fun x _ => .pure _
  | pool entries modifier c target ihe iht =>
    obtain ⟨hknown, hes, ht⟩ := everywhere_pool.1 he
    obtain ⟨⟨target, rfl, -⟩, hmodifier⟩ := hknown.1.fits
    have hxs := FailsAs.mapM fun a hm => (ihe a hm (hes a hm)).bind fun v _ =>
      FailsAs.lift (Fault.ordinary_requireRole .poolEntry v)
    refine FailsAs.bind (evaluateEntries_eq_mapM _ entries ▸ hxs) fun xs _ => ?_
    refine (iht target rfl (ht target rfl)).bind fun v _ => ?_
    refine (FailsAs.lift (Fault.ordinary_requireRole .poolTarget v)).bind fun x _ => ?_
    exact (FailsAs.lift (Fault.ordinary_scorePool hmodifier c xs x)).bind fun r _ => .pure _
  | foreign text => exact absurd he.self.1.fits id

end Expr

end DiceNotation
