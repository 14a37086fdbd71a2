import DiceNotation.Form
import DiceNotation.Proofs.Course

/-!
What is read and evaluated without regard to columns.

A token without its place has the column one, or zero if it had none; expressions, errors and failures lose the places
of their tokens in the same way. A rule of the grammar does the same on tokens without their places, so it gives the
same expression up to them; evaluations and printed forms look at no column but to tell where a failure happened.

Main statements: `Expr.ofTokens_unplaced`, `Expr.evaluate_unplaced`, `Expr.prefixText_unplaced` and
`Expr.rolledText_unplaced`.
-/

namespace DiceNotation

/-! ### Tokens and cursors -/

/-- The column one in the place of every other; a token in column zero has no place. -/
def firstColumn (column : Nat) : Nat := min column 1

namespace Token

def unplaced (t : Token) : Token := { t with column := firstColumn t.column }

@[simp] theorem kind_unplaced (t : Token) : t.unplaced.kind = t.kind := rfl

@[simp] theorem lexeme_unplaced (t : Token) : t.unplaced.lexeme = t.lexeme := rfl

theorem unplaced_unplaced (t : Token) : t.unplaced.unplaced = t.unplaced := by
  simp [unplaced, firstColumn]

namespace Cursor

def unplaced (c : Cursor) : Cursor := ⟨c.passed.map Token.unplaced, c.ahead.map Token.unplaced⟩

variable (c : Cursor)

theorem current_unplaced : c.unplaced.current = c.current.unplaced := by
  rcases c with ⟨passed, _ | ⟨t, ahead⟩⟩ <;> rfl

theorem previous_unplaced : c.unplaced.previous = c.previous.unplaced := by
  rcases c with ⟨_ | ⟨t, passed⟩, ahead⟩ <;> rfl

theorem position_unplaced : c.unplaced.position = c.position := List.length_map _

theorem advance_unplaced : c.unplaced.advance = c.advance.unplaced := by
  rcases c with ⟨passed, _ | ⟨t, ahead⟩⟩
  · rfl
  · simp only [unplaced, advance, List.map_cons, kind_unplaced]
    split <;> rfl

theorem sees_unplaced (kinds : List Kind) : c.unplaced.sees kinds = c.sees kinds := by
  rw [sees, sees, current_unplaced, kind_unplaced]

end Cursor

end Token

def ParseError.unplaced (e : ParseError) : ParseError := { e with token := e.token.unplaced }

/-! ### Expressions -/

/-- The target with another expression in it. -/
def Target.map {α β : Type} (f : α → β) : Target α → Target β
  | .absent => .absent
  | .faces => .faces
  | .value e => .value (f e)

namespace Expr

mutual
/-- The expression without the places of its operators. -/
def unplaced : Expr → Expr
  | .literal v label => .literal v label
  | .substitution slot key label => .substitution slot key label
  | .group inner => .group inner.unplaced
  | .unary op operand => .unary (op.map Token.unplaced) operand.unplaced
  | .binary op left right => .binary (op.map Token.unplaced) left.unplaced right.unplaced
  | .choice c t e => .choice c.unplaced t.unplaced e.unplaced
  | .call callee token arguments => .call callee.unplaced (token.map Token.unplaced) (unplacedAll arguments)
  | .dice slot count faces label modifier comparison (.value target) =>
    .dice slot count.unplaced faces.unplaced label modifier comparison (.value target.unplaced)
  | .dice slot count faces label modifier comparison .faces =>
    .dice slot count.unplaced faces.unplaced label modifier comparison .faces
  | .dice slot count faces label modifier comparison .absent =>
    .dice slot count.unplaced faces.unplaced label modifier comparison .absent
  | .pool entries modifier comparison (some target) =>
    .pool (unplacedAll entries) modifier comparison (some target.unplaced)
  | .pool entries modifier comparison none => .pool (unplacedAll entries) modifier comparison none
  | .foreign text => .foreign text
  termination_by structural e => e

/-- The expressions of a list without the places of their operators. -/
def unplacedAll : List Expr → List Expr
  | [] => []
  | e :: es => e.unplaced :: unplacedAll es
  termination_by structural es => es
end

theorem unplacedAll_eq_map (es : List Expr) : unplacedAll es = es.map unplaced := by
  induction es with
  | nil => rfl
  | cons e es ih => rw [unplacedAll, ih, List.map_cons]

theorem unplaced_dice (slot : Slot) (count faces : Expr) (label : Option String) (modifier : Modifier)
    (comparison : Comparison) (target : Target Expr) :
    (dice slot count faces label modifier comparison target).unplaced =
      .dice slot count.unplaced faces.unplaced label modifier comparison (target.map unplaced) := by
  cases target <;> rfl

theorem unplaced_pool (entries : List Expr) (modifier : Modifier) (comparison : Comparison) (target : Option Expr) :
    (pool entries modifier comparison target).unplaced =
      .pool (entries.map unplaced) modifier comparison (target.map unplaced) := by
  rw [← unplacedAll_eq_map]
  cases target <;> rfl

theorem unplaced_call (callee : Expr) (token : Option Token) (arguments : List Expr) :
    (call callee token arguments).unplaced =
      .call callee.unplaced (token.map Token.unplaced) (arguments.map unplaced) := by
  rw [← unplacedAll_eq_map]
  rfl

end Expr

/-! ### Rules -/

open Token

namespace Rule

variable {α β γ δ : Type} {c : Cursor}

/-- On tokens without their places the second rule does what the first does, and gives `f` of what the first gives. -/
def Follows (f : α → β) (x : Rule α) (y : Rule β) : Prop :=
  ∀ c, y c.unplaced = ((x c).mapError ParseError.unplaced).map fun r => (f r.1, r.2.unplaced)

namespace Follows

variable {f : α → β} {g : γ → δ}

theorem pure (f : α → β) (a : α) : Follows f (Pure.pure a) (Pure.pure (f a)) := fun _ => rfl

theorem bind {x : Rule α} {y : Rule β} {k : α → Rule γ} {l : β → Rule δ} (h : Follows f x y)
    (hk : ∀ a, Follows g (k a) (l (f a))) : Follows g (x >>= k) (y >>= l) := by
  intro c
  show (y c.unplaced >>= fun r => l r.1 r.2) = ((x c >>= fun r => k r.1 r.2).mapError _).map _
  rw [h c]
  cases x c with
  | error e => rfl
  | ok r => exact hk r.1 r.2

theorem fail (f : α → β) (cause : ParseError.Cause) (t : Token) :
    Follows f (Rule.fail cause t) (Rule.fail cause t.unplaced) := fun _ => rfl

theorem get : Follows Cursor.unplaced (MonadState.get : Rule Cursor) MonadState.get := fun _ => rfl

theorem sees (kinds : List Kind) : Follows id (Rule.sees kinds) (Rule.sees kinds) := by
  intro c
  show Except.ok (c.unplaced.sees kinds, c.unplaced) = _
  rw [Cursor.sees_unplaced]
  rfl

theorem next : Follows Token.unplaced Rule.next Rule.next := by
  intro c
  show Except.ok (c.unplaced.current, c.unplaced.advance) = _
  rw [Cursor.current_unplaced, Cursor.advance_unplaced]
  rfl

theorem skip (kinds : List Kind) : Follows id (Rule.skip kinds) (Rule.skip kinds) := by
  intro c
  show Except.ok (c.unplaced.skip kinds) = (((Except.ok (c.skip kinds)).mapError _).map _)
  rw [Cursor.skip, Cursor.skip, Cursor.sees_unplaced, Cursor.advance_unplaced]
  split <;> rfl

theorem expect (kind : Kind) (hint : String) :
    Follows Token.unplaced (Rule.expect kind hint) (Rule.expect kind hint) := by
  intro c
  show c.unplaced.expect kind hint = (((c.expect kind hint).mapError _).map _)
  rw [Cursor.expect, Cursor.expect, Cursor.sees_unplaced, Cursor.advance_unplaced, Cursor.current_unplaced]
  split <;> rfl

theorem nextAll (kind : Kind) : Follows (List.map Token.unplaced) (Rule.nextAll kind) (Rule.nextAll kind) := by
  intro c
  have hrun : (c.ahead.map Token.unplaced).takeWhile (·.kind == kind) =
      (c.ahead.takeWhile (·.kind == kind)).map Token.unplaced :=
    List.takeWhile_map
  have hnext : Rule.nextAll kind c.unplaced = Except.ok ((c.ahead.takeWhile (·.kind == kind)).map Token.unplaced,
      Cursor.unplaced ⟨(c.ahead.takeWhile (·.kind == kind)).reverse ++ c.passed,
        c.ahead.drop (c.ahead.takeWhile (·.kind == kind)).length⟩) := by
    simp only [Rule.nextAll, hrun, Cursor.unplaced, List.length_map, List.map_drop, List.map_reverse, List.map_append]
  rw [hnext]
  rfl

end Follows

open Follows

/-! ### One lemma a rule -/

theorem follows_label : Follows id label label := by
  refine (Follows.skip _).bind fun labelled => ?_
  cases labelled with
  | false => exact .pure id none
  | true =>
    refine (Follows.nextAll _).bind fun words => (Follows.expect _ _).bind fun _ => ?_
    have hwords : (words.map Token.unplaced).map Token.lexeme = words.map Token.lexeme := by
      rw [List.map_map]
      rfl
    show Follows id _ (Pure.pure (some (" ".intercalate ((words.map Token.unplaced).map Token.lexeme))))
    rw [hwords]
    exact .pure id _

theorem follows_labelIf (labelled : Bool) : Follows id (labelIf labelled) (labelIf labelled) := by
  cases labelled with
  | false => exact .pure id none
  | true => exact follows_label

/-- Both rules for what is nested follow themselves. -/
structure Inner.Follows (inner : Inner) : Prop where
  expr : Rule.Follows Expr.unplaced inner.expr inner.expr
  call : Rule.Follows Expr.unplaced inner.call inner.call

section Lists

variable {inner : Inner} (hi : inner.Follows)

include hi

theorem follows_commaExprs (n : Nat) :
    Follows (List.map Expr.unplaced) (commaExprs inner n) (commaExprs inner n) := by
  induction n with
  | zero => exact .pure _ []
  | succ n ih =>
    refine (Follows.skip _).bind fun more => ?_
    cases more with
    | false => exact .pure _ []
    | true => exact hi.expr.bind fun e => ih.bind fun es => .pure _ (e :: es)

theorem follows_exprsUpTo (closer : Kind) (n : Nat) :
    Follows (List.map Expr.unplaced) (exprsUpTo closer inner n) (exprsUpTo closer inner n) := by
  refine (Follows.sees _).bind fun closed => ?_
  cases closed with
  | true => exact .pure _ []
  | false => exact hi.expr.bind fun e => (follows_commaExprs hi n).bind fun es => .pure _ (e :: es)

end Lists

/-- What stands behind a modifier, without the places in its value. -/
abbrev unplacedComparison : Comparison × Option Expr → Comparison × Option Expr :=
  Prod.map id (Option.map Expr.unplaced)

/-- A modifier of dice without the places in its target. -/
abbrev unplacedModifier : Modifier × Comparison × Target Expr → Modifier × Comparison × Target Expr :=
  Prod.map id (Prod.map id (Target.map Expr.unplaced))

theorem targetOf_unplaced (modifier : Modifier) (target : Option Expr) :
    targetOf modifier (target.map Expr.unplaced) = (targetOf modifier target).map Expr.unplaced := by
  cases target with
  | some e => rfl
  | none =>
    simp only [targetOf, Option.map_none]
    split <;> rfl

section Modifiers

variable {value : Rule Expr} (hv : Follows Expr.unplaced value value)

include hv

theorem follows_comparison : Follows unplacedComparison (comparison value) (comparison value) := by
  refine Follows.get.bind fun c => ?_
  rw [Cursor.current_unplaced, kind_unplaced]
  cases comparisonOf? c.current.kind with
  | some o => exact Follows.next.bind fun _ => hv.bind fun e => .pure unplacedComparison (o, some e)
  | none =>
    refine (Follows.sees _).bind fun number => ?_
    cases number with
    | true =>
      exact Follows.next.bind fun t =>
        .pure unplacedComparison (Comparison.equal, some (.literal (some (.number t.number)) none))
    | false => exact .pure unplacedComparison (Comparison.equal, none)

theorem follows_diceModifier : Follows unplacedModifier (diceModifier value) (diceModifier value) := by
  refine Follows.next.bind fun keyword => ?_
  rw [lexeme_unplaced]
  cases Modifier.ofKeyword? keyword.lexeme with
  | none => exact .fail _ _ keyword
  | some modifier =>
    refine Follows.get.bind fun c => (follows_comparison hv).bind fun r => ?_
    obtain ⟨o, target⟩ := r
    dsimp only [Prod.map, id]
    rw [targetOf_unplaced, Cursor.current_unplaced]
    split
    · exact .fail _ _ _
    · exact .pure unplacedModifier (modifier, o, targetOf modifier target)

theorem follows_optionalModifier : Follows unplacedModifier (optionalModifier value) (optionalModifier value) := by
  refine (Follows.sees _).bind fun modified => ?_
  cases modified with
  | true => exact follows_diceModifier hv
  | false => exact .pure unplacedModifier (.plain, .equal, .absent)

theorem follows_poolModifier :
    Follows (Prod.map id (Prod.map id Expr.unplaced)) (poolModifier value) (poolModifier value) := by
  refine Follows.get.bind fun c => ?_
  dsimp only
  rw [Cursor.current_unplaced, kind_unplaced, lexeme_unplaced]
  cases if c.current.kind = .name then Modifier.ofPoolKeyword? c.current.lexeme else none with
  | none => exact .fail _ _ _
  | some modifier =>
    refine Follows.next.bind fun _ => (follows_comparison hv).bind fun r => ?_
    obtain ⟨o, target⟩ := r
    have htarget : (target.map Expr.unplaced).getD one = (target.getD one).unplaced := by cases target <;> rfl
    show Follows _ _ (Pure.pure (modifier, o, (target.map Expr.unplaced).getD one))
    rw [htarget]
    exact .pure _ (modifier, o, target.getD one)

end Modifiers

section Primaries

variable {inner : Inner} (hi : inner.Follows) (labelled : Bool) (n : Nat)

include hi

theorem follows_primaryFrom (position : Nat) (t : Token) :
    Follows Expr.unplaced (primaryFrom inner labelled n position t)
      (primaryFrom inner labelled n position t.unplaced) := by
  unfold primaryFrom
  rw [kind_unplaced]
  split
  case h_1 => exact .pure _ (Expr.literal (some (.bool false)) none)
  case h_2 => exact .pure _ (Expr.literal (some (.bool true)) none)
  case h_3 => exact (follows_labelIf labelled).bind fun l => .pure _ (Expr.literal (some (.number t.number)) l)
  case h_4 =>
    exact (follows_labelIf labelled).bind fun l => .pure _ (Expr.substitution position (some (.string t.key)) l)
  case h_5 =>
    refine (follows_exprsUpTo hi _ n).bind fun entries => (Follows.expect _ _).bind fun _ =>
      (follows_poolModifier hi.call).bind fun r => ?_
    obtain ⟨modifier, o, target⟩ := r
    have hpool := Follows.pure Expr.unplaced (.pool entries modifier o (some target))
    rw [Expr.unplaced_pool] at hpool
    exact hpool
  case h_6 => exact hi.expr.bind fun e => (Follows.expect _ _).bind fun _ => .pure _ (Expr.group e)
  case h_7 => exact .pure _ (Expr.literal (some (.string t.lexeme)) none)

theorem follows_primary : Follows Expr.unplaced (primary inner labelled n) (primary inner labelled n) := by
  refine Follows.get.bind fun c => ?_
  rw [Cursor.current_unplaced, kind_unplaced, Cursor.position_unplaced]
  split
  · exact .fail _ _ _
  · exact Follows.next.bind fun t => follows_primaryFrom hi labelled n c.position t

theorem follows_applications (n : Nat) (callee : Expr) :
    Follows Expr.unplaced (applications inner n callee) (applications inner n callee.unplaced) := by
  induction n generalizing callee with
  | zero => exact .pure _ callee
  | succ n ih =>
    refine (Follows.sees _).bind fun applied => ?_
    cases applied with
    | false => exact .pure _ callee
    | true =>
      refine Follows.get.bind fun c => Follows.next.bind fun _ => (follows_exprsUpTo hi _ n).bind fun arguments =>
        (Follows.expect _ _).bind fun _ => ?_
      -- the token of a call is the one before its parenthesis
      have hcall := ih (.call callee (some c.previous) arguments)
      rw [Expr.unplaced_call] at hcall
      rw [Cursor.previous_unplaced]
      exact hcall

theorem follows_call : Follows Expr.unplaced (call inner labelled n) (call inner labelled n) :=
  (follows_primary hi labelled n).bind fun callee => follows_applications hi n callee

end Primaries

section Operators

variable {inner : Inner} (hi : inner.Follows) (n : Nat)

theorem follows_binaryChain (kinds : List Kind) {operand : Rule Expr} (ho : Follows Expr.unplaced operand operand)
    (m : Nat) (left : Expr) :
    Follows Expr.unplaced (binaryChain kinds operand m left) (binaryChain kinds operand m left.unplaced) := by
  induction m generalizing left with
  | zero => exact .pure _ left
  | succ m ih =>
    refine (Follows.sees _).bind fun more => ?_
    cases more with
    | false => exact .pure _ left
    | true => exact Follows.next.bind fun op => ho.bind fun right => ih (.binary (some op) left right)

theorem follows_level (kinds : List Kind) {operand : Rule Expr} (ho : Follows Expr.unplaced operand operand) :
    Follows Expr.unplaced (level kinds operand n) (level kinds operand n) :=
  ho.bind fun left => follows_binaryChain kinds ho n left

theorem follows_seesDice : Follows id seesDice seesDice := by
  refine Follows.get.bind fun c => Follows.get.bind fun c' => ?_
  rw [Cursor.current_unplaced, Cursor.current_unplaced, kind_unplaced, lexeme_unplaced]
  exact .pure id _

include hi

theorem follows_signed (m : Nat) : Follows Expr.unplaced (signed inner n m) (signed inner n m) := by
  induction m with
  | zero => exact follows_call hi true n
  | succ m ih =>
    refine (Follows.sees _).bind fun signs => ?_
    cases signs with
    | false => exact follows_call hi true n
    | true => exact Follows.next.bind fun op => ih.bind fun operand => .pure _ (Expr.unary (some op) operand)

theorem follows_diceChain (m : Nat) (count : Expr) :
    Follows Expr.unplaced (diceChain inner n m count) (diceChain inner n m count.unplaced) := by
  induction m generalizing count with
  | zero => exact .pure _ count
  | succ m ih =>
    refine follows_seesDice.bind fun dice => ?_
    cases dice with
    | false => exact .pure _ count
    | true =>
      refine Follows.get.bind fun c => Follows.next.bind fun _ => (follows_call hi false n).bind fun faces =>
        (follows_optionalModifier (follows_call hi true n)).bind fun r => follows_label.bind fun l => ?_
      obtain ⟨modifier, o, target⟩ := r
      have hdice := ih (.dice c.position count faces l modifier o target)
      rw [Expr.unplaced_dice] at hdice
      rw [Cursor.position_unplaced]
      exact hdice

theorem follows_dice : Follows Expr.unplaced (dice inner n) (dice inner n) :=
  (follows_signed hi n (n + 1)).bind fun count => follows_diceChain hi n n count

theorem follows_equality : Follows Expr.unplaced (equality inner n) (equality inner n) :=
  follows_level n _ (follows_level n _ (follows_level n _ (follows_level n _ (follows_dice hi n))))

theorem follows_choice : Follows Expr.unplaced (choice inner n) (choice inner n) := by
  refine (follows_equality hi n).bind fun condition => (Follows.skip _).bind fun chosen => ?_
  cases chosen with
  | false => exact .pure _ condition
  | true =>
    exact hi.expr.bind fun consequent => (Follows.expect _ _).bind fun _ => hi.expr.bind fun alternative =>
      .pure _ (Expr.choice condition consequent alternative)

end Operators

/-- By induction on the bound, all rules follow themselves. -/
theorem follows_inner (n : Nat) : (inner n).Follows := by
  induction n with
  | zero =>
    have hmissing : Follows Expr.unplaced (inner 0).expr (inner 0).expr := by
      refine Follows.get.bind fun c => ?_
      rw [Cursor.current_unplaced]
      exact .fail _ _ _
    exact ⟨hmissing, hmissing⟩
  | succ n ih => exact ⟨follows_choice ih n, follows_call ih true n⟩

end Rule

namespace Expr

/-- **Tokens are read without regard to their columns.** -/
theorem ofTokens_unplaced (tokens : List Token) :
    ofTokens (tokens.map Token.unplaced) =
      ((ofTokens tokens).mapError ParseError.unplaced).map Expr.unplaced := by
  have hrule := (Rule.follows_inner tokens.length).expr (Cursor.start tokens)
  have hstart : (Cursor.start tokens).unplaced = Cursor.start (tokens.map Token.unplaced) := rfl
  rw [hstart] at hrule
  rw [ofTokens, ofTokens, List.length_map, Rule.expr, hrule]
  cases (Rule.inner tokens.length).expr (Cursor.start tokens) with
  | error e => rfl
  | ok r =>
    obtain ⟨e, c⟩ := r
    show (if c.unplaced.sees [.endOfInput] then Except.ok e.unplaced else .error ⟨.trailingTokens, c.unplaced.current⟩) =
      ((if c.sees [.endOfInput] then .ok e else .error ⟨.trailingTokens, c.current⟩ : Except ParseError Expr).mapError
        ParseError.unplaced).map Expr.unplaced
    rw [Cursor.sees_unplaced, Cursor.current_unplaced]
    split <;> rfl

end Expr

/-! ### Failures -/

def Place.unplaced (p : Place) : Place := { p with column := firstColumn p.column }

/-- A failure with the column one in the place of the one that it tells. -/
def Failure.unplaced : Failure → Failure
  | .fault cause place => .fault cause (place.map Place.unplaced)
  | failure => failure

theorem Failure.unplaced_locate (failure : Failure) (op : Token) :
    (failure.locate op).unplaced = failure.unplaced.locate op.unplaced := by
  have hzero : op.unplaced.column = 0 ↔ op.column = 0 := by
    show min op.column 1 = 0 ↔ op.column = 0
    omega
  cases failure with
  | fault cause place =>
    cases place with
    | some p => rfl
    | none =>
      by_cases h : op.column = 0
      · rw [locate, if_pos h, unplaced, Option.map_none, locate, if_pos (hzero.2 h)]
      · rw [locate, if_neg h, unplaced, unplaced, Option.map_none, locate, if_neg fun hz => h (hzero.1 hz)]
        rfl
  | _ => rfl

namespace Play

variable {α β : Type}

theorem unplaced_locateAt (op : Option Token) (failure : Failure) :
    (locateAt op failure).unplaced = locateAt (op.map Token.unplaced) failure.unplaced := by
  cases op with
  | none => rfl
  | some op => exact failure.unplaced_locate op

theorem mapError_locateAt (op : Option Token) (r : Except Failure α) :
    (r.mapError (locateAt op)).mapError Failure.unplaced =
      (r.mapError Failure.unplaced).mapError (locateAt (op.map Token.unplaced)) := by
  cases r with
  | ok a => rfl
  | error failure => exact congrArg Except.error (unplaced_locateAt op failure)

/-- The steps do the same at every table, and fail alike up to the columns that they tell. -/
def Alike (x y : Play α) : Prop :=
  ∀ t, (x.on t).2 = (y.on t).2 ∧ (x.on t).1.mapError Failure.unplaced = (y.on t).1.mapError Failure.unplaced

namespace Alike

theorem refl (x : Play α) : Alike x x := fun _ => ⟨rfl, rfl⟩

theorem bind {x y : Play α} {f g : α → Play β} (h : Alike x y) (hf : ∀ a, Alike (f a) (g a)) :
    Alike (x >>= f) (y >>= g) := by
  intro t
  obtain ⟨htable, houtcome⟩ := h t
  rw [on_bind, on_bind]
  generalize x.on t = r at htable houtcome ⊢
  generalize y.on t = r' at htable houtcome ⊢
  obtain ⟨outcome, t'⟩ := r
  obtain ⟨outcome', t''⟩ := r'
  obtain rfl : t' = t'' := htable
  cases outcome with
  | error failure =>
    cases outcome' with
    | error failure' => exact ⟨rfl, congrArg Except.error (Except.error.inj houtcome)⟩
    | ok b => cases houtcome
  | ok a =>
    cases outcome' with
    | error failure' => cases houtcome
    | ok b =>
      obtain rfl : a = b := Except.ok.inj houtcome
      exact hf a t'

theorem located {x y : Play α} {op op' : Option Token} (hop : op.map Token.unplaced = op'.map Token.unplaced)
    (h : Alike x y) : Alike (at? op x) (at? op' y) := by
  intro t
  obtain ⟨htable, houtcome⟩ := h t
  rw [on_at, on_at]
  refine ⟨htable, ?_⟩
  rw [mapError_locateAt, mapError_locateAt, houtcome, hop]

theorem once {x y : Play Number} (slot : Slot) (h : Alike x y) : Alike (Play.once slot x) (Play.once slot y) := by
  intro t
  rw [on_once, on_once]
  cases t.sheet.result slot with
  | some x => exact ⟨rfl, rfl⟩
  | none => exact h t

end Alike

/-- As a relation between two evaluations of one expression: those that look at no columns are alike. -/
theorem alike_congruence (setting : Setting) : Congruence setting setting (fun _ => True) fun x y => Alike x y where
  pure _ := .refl _
  throw _ := .refl _
  bind hx hf := hx.bind hf
  located _ hx := hx.located rfl
  substitute _ _ _ _ := .refl _
  named _ _ _ := .refl _
  once slot _ _ _ _ _ _ _ ho := .once slot (ho.bind fun _ => .refl _)

end Play

namespace Expr

open Play

theorem name?_unplaced (callee : Expr) (sheet : Sheet) : callee.unplaced.name? sheet = callee.name? sheet := by
  cases callee with
  | dice slot count faces label modifier comparison target => cases target <;> rfl
  | pool entries modifier comparison target => cases target <;> rfl
  | _ => rfl

theorem map_unplaced (op : Option Token) : op.map Token.unplaced = (op.map Token.unplaced).map Token.unplaced := by
  cases op with
  | none => rfl
  | some op => rw [Option.map_some, Option.map_some, op.unplaced_unplaced]

variable (setting : Setting)

/-- **An evaluation looks at no columns**, but to tell where it failed. -/
theorem evaluate_unplaced (e : Expr) : Alike (e.evaluate setting) (e.unplaced.evaluate setting) := by
  have h := alike_congruence setting
  induction e using Expr.ind with
  | literal v label => exact .refl _
  | substitution slot key label => exact .refl _
  | group inner ih => exact ih
  | unary op operand ih =>
    refine Alike.located (map_unplaced op) (ih.bind fun v => ?_)
    cases op with
    | none => exact .refl _
    | some op => exact .refl _
  | binary op left right ihl ihr =>
    -- a failure of an operand that has no place yet gets the one of the operator
    refine Alike.located (map_unplaced op) (ihl.bind fun v => ihr.bind fun w => ?_)
    cases op with
    | none => exact .refl _
    | some op => exact .refl _
  | choice c t e ihc iht ihe =>
    refine ihc.bind fun v => ?_
    split
    · exact iht
    · exact ihe
  | call callee token arguments ihc iha =>
    -- the callee is not evaluated, only its name is looked at
    have hnamed : named setting.builtins callee.unplaced (arguments.map unplaced).length =
        named setting.builtins callee arguments.length := by
      unfold named
      simp only [name?_unplaced, List.length_map]
    have hvs : Alike (arguments.mapM (evaluate setting)) (arguments.mapM (evaluate setting ∘ unplaced)) := h.mapM iha
    rw [← List.mapM_map, ← evaluateAll_eq_mapM, ← evaluateAll_eq_mapM] at hvs
    rw [unplaced_call]
    refine Alike.located (map_unplaced token) (.bind ?_ fun f => hvs.bind fun vs => .refl _)
    rw [hnamed]
    exact .refl _
  | dice slot count faces label modifier comparison target ihc ihf iht =>
    have htarget : Alike (evaluateTarget setting modifier faces target)
        (evaluateTarget setting modifier faces.unplaced (target.map unplaced)) := by
      cases target with
      | absent => exact .refl _
      | faces => exact ihf
      | value target => exact iht target rfl
    rw [unplaced_dice, evaluate_dice, evaluate_dice]
    exact .bind (.once slot (.bind (h.operands ihc ihf htarget) fun o => .refl _)) fun x => .refl _
  | pool entries modifier comparison target ihe iht =>
    have hxs : Alike (entries.mapM (evaluateEntry setting)) (entries.mapM (evaluateEntry setting ∘ unplaced)) :=
      h.mapM fun e he => Alike.bind (ihe e he) fun v => .refl _
    rw [← List.mapM_map, ← evaluateEntries_eq_mapM, ← evaluateEntries_eq_mapM] at hxs
    rw [unplaced_pool]
    cases target with
    | none => exact hxs.bind fun xs => .refl _
    | some target => exact hxs.bind fun xs => (iht target rfl).bind fun v => .refl _
  | foreign text => exact .refl _

/-! ### Printed forms -/

section Print

variable {es : List Expr} {sheet : Sheet} {context : Context}

theorem operatorText_unplaced (op : Option Token) : operatorText (op.map Token.unplaced) = operatorText op := by
  cases op <;> rfl

theorem prefixTexts_unplaced
    (h : ∀ e ∈ es, e.unplaced.prefixText sheet context = e.prefixText sheet context) :
    prefixTexts sheet context (unplacedAll es) = prefixTexts sheet context es := by
  induction es with
  | nil => rfl
  | cons e es ih =>
    obtain ⟨he, hes⟩ := List.forall_mem_cons.1 h
    rw [unplacedAll, prefixTexts, prefixTexts, he, ih hes]

theorem rolledTexts_unplaced (h : ∀ e ∈ es, e.unplaced.rolledText sheet = e.rolledText sheet) :
    rolledTexts sheet (unplacedAll es) = rolledTexts sheet es := by
  induction es with
  | nil => rfl
  | cons e es ih =>
    obtain ⟨he, hes⟩ := List.forall_mem_cons.1 h
    rw [unplacedAll, rolledTexts, rolledTexts, he, ih hes]

/-- The debug form shows no columns. -/
theorem prefixText_unplaced (e : Expr) (sheet : Sheet) (context : Context) :
    e.unplaced.prefixText sheet context = e.prefixText sheet context := by
  induction e using Expr.ind with
  | literal v label => rfl
  | substitution slot key label => rfl
  | group inner ih => rw [unplaced, prefixText, prefixText, ih]
  | unary op operand ih => rw [unplaced, prefixText, prefixText, operatorText_unplaced, ih]
  | binary op left right ihl ihr => rw [unplaced, prefixText, prefixText, operatorText_unplaced, ihl, ihr]
  | choice c t e ihc iht ihe => rw [unplaced, prefixText, prefixText, ihc, iht, ihe]
  | call callee token arguments ihc iha =>
    rw [unplaced, prefixText, prefixText, name?_unplaced, ihc, prefixTexts_unplaced iha]
  | dice slot count faces label modifier comparison target ihc ihf iht =>
    cases target with
    | absent => rw [unplaced, prefixText, prefixText, ihc, ihf]
    | faces => rw [unplaced, prefixText, prefixText, ihc, ihf]
    | value target => simp only [unplaced, prefixText, ihc, ihf, iht target rfl]
  | pool entries modifier comparison target ihe iht =>
    cases target with
    | none => rw [unplaced, prefixText, prefixText, prefixTexts_unplaced ihe]
    | some target => simp only [unplaced, prefixText, prefixTexts_unplaced ihe, iht target rfl]
  | foreign text => rfl

/-- The rolled form shows no columns. -/
theorem rolledText_unplaced (e : Expr) (sheet : Sheet) : e.unplaced.rolledText sheet = e.rolledText sheet := by
  induction e using Expr.ind with
  | literal v label => rfl
  | substitution slot key label => rfl
  | group inner ih => rw [unplaced, rolledText, rolledText, ih]
  | unary op operand ih => rw [unplaced, rolledText, rolledText, operatorText_unplaced, ih]
  | binary op left right ihl ihr => rw [unplaced, rolledText, rolledText, operatorText_unplaced, ihl, ihr]
  | choice c t e ihc iht ihe => rw [unplaced, rolledText, rolledText, ihc, iht, ihe]
  | call callee token arguments ihc iha =>
    rw [unplaced, rolledText, rolledText, name?_unplaced, ihc, rolledTexts_unplaced iha]
  | dice slot count faces label modifier comparison target ihc ihf iht =>
    cases target with
    | absent => simp only [unplaced, rolledText, ihc, ihf]
    | faces => simp only [unplaced, rolledText, ihc, ihf]
    | value target => simp only [unplaced, rolledText, ihc, ihf, iht target rfl]
  | pool entries modifier comparison target ihe iht =>
    cases target with
    | none => rw [unplaced, rolledText, rolledText, rolledTexts_unplaced ihe]
    | some target => simp only [unplaced, rolledText, rolledTexts_unplaced ihe, iht target rfl]
  | foreign text => rfl

end Print

end Expr

end DiceNotation
