import DiceNotation.Proofs.Grammar
import DiceNotation.Proofs.Numerals

/-!
Expressions that their renderings give back, and what renderings look like.

A rendering is a careful spelling. It leaves nothing to the rules to guess: a value is written behind every modifier,
and no label could belong to two nodes. `Expr.Canonical` tells which nodes are written so at all.

Main statement: `Expr.exists_rendering`, every canonical expression can be rendered.
-/

namespace DiceNotation

open Token

namespace Expr

/-! ### Canonical expressions -/

/-- Dice without modifier and label. -/
def isBareDice : Expr → Bool
  | .dice _ _ _ none .plain _ _ => true
  | _ => false

/-- The value of a modifier that a rendering writes: a number by itself, for equality, or a group. -/
def IsWritten (comparison : Comparison) (e : Expr) : Prop :=
  (comparison = .equal ∧ ∃ x, e = .literal (some (.number x)) none) ∨ ∃ inner, e = .group inner

/-- A node of the grammar that its renderings give back. -/
def Canonical (e : Expr) : Prop :=
  e.Fits ∧ match e with
    | .call callee token _ => ∃ t, token = some t ∧ t.kind = .name ∧ callee = .literal (some (.string t.lexeme)) none
    | .dice _ count _ _ _ comparison target => ¬count.isBareDice ∧ match target with
      | .absent => comparison = .equal
      | .faces => False
      | .value e => IsWritten comparison e
    | .pool _ _ comparison target => ∀ e, target = some e → IsWritten comparison e
    | _ => True

/-! ### Without slots -/

mutual
/-- An expression with nothing to tell its slots apart. -/
def forgetSlots : Expr → Expr
  | .literal v label => .literal v label
  | .substitution _ key label => .substitution 0 key label
  | .group inner => .group inner.forgetSlots
  | .unary op operand => .unary op operand.forgetSlots
  | .binary op left right => .binary op left.forgetSlots right.forgetSlots
  | .choice c t e => .choice c.forgetSlots t.forgetSlots e.forgetSlots
  | .call callee token arguments => .call callee.forgetSlots token (forgetSlotsOf arguments)
  | .dice _ count faces label modifier comparison .absent =>
    .dice 0 count.forgetSlots faces.forgetSlots label modifier comparison .absent
  | .dice _ count faces label modifier comparison .faces =>
    .dice 0 count.forgetSlots faces.forgetSlots label modifier comparison .faces
  | .dice _ count faces label modifier comparison (.value e) =>
    .dice 0 count.forgetSlots faces.forgetSlots label modifier comparison (.value e.forgetSlots)
  | .pool entries modifier comparison none => .pool (forgetSlotsOf entries) modifier comparison none
  | .pool entries modifier comparison (some e) =>
    .pool (forgetSlotsOf entries) modifier comparison (some e.forgetSlots)
  | .foreign text => .foreign text
  termination_by structural e => e

def forgetSlotsOf : List Expr → List Expr
  | [] => []
  | e :: es => e.forgetSlots :: forgetSlotsOf es
  termination_by structural es => es
end

end Expr

/-! ### Renderings exist -/

theorem Modifier.ofKeyword?_suffix {modifier : Modifier} (h : modifier ≠ .plain) :
    ofKeyword? modifier.suffix = some modifier := by
  rcases modifier with _ | _ | _ | _ | _ | _ | ⟨_ | _, _ | _⟩ <;> first | exact absurd rfl h | decide

theorem Modifier.ofPoolKeyword?_suffix {modifier : Modifier}
    (h : modifier = .countSuccesses ∨ modifier.isSelection) : ofPoolKeyword? modifier.suffix = some modifier := by
  rcases modifier with _ | _ | _ | _ | _ | _ | ⟨_ | _, _ | _⟩ <;> revert h <;> decide

theorem exists_labels (label : Option String) : ∃ ls, Labels label ls := by
  cases label with
  | none => exact ⟨[], .absent⟩
  | some s =>
    have h := Labels.words (rfl : (⟨.leftBracket, "[", 0⟩ : Token).kind = .leftBracket)
      (List.forall_mem_singleton.2 (rfl : (⟨.name, s, 0⟩ : Token).kind = .name))
      (rfl : (⟨.rightBracket, "]", 0⟩ : Token).kind = .rightBracket)
    rw [List.map_singleton, String.intercalate_singleton] at h
    exact ⟨_, h⟩

theorem exists_number (x : Number) : ∃ t : Token, t.kind = .number ∧ t.number = x := by
  obtain ⟨s, hs⟩ := x.exists_numeral
  exact ⟨⟨.number, s, 0⟩, rfl, by rw [Token.number, hs, Option.getD_some]⟩

theorem exists_key (name : String) : ∃ t : Token, t.kind = .substitution ∧ t.key = name :=
  ⟨⟨.substitution, String.ofList ('@' :: name.toList), 0⟩, rfl, by simp [Token.key]⟩

theorem exists_comparison (comparison : Comparison) :
    ∃ op : Token, Rule.comparisonOf? op.kind = some comparison := by
  cases comparison with
  | equal => exact ⟨⟨.assign, "=", 0⟩, rfl⟩
  | less => exact ⟨⟨.less, "<", 0⟩, rfl⟩
  | lessEqual => exact ⟨⟨.lessEqual, "<=", 0⟩, rfl⟩
  | greater => exact ⟨⟨.greater, ">", 0⟩, rfl⟩
  | greaterEqual => exact ⟨⟨.greaterEqual, ">=", 0⟩, rfl⟩

theorem exists_compared {comparison : Comparison} {e : Expr} (hw : e.IsWritten comparison)
    (he : ∃ ts, Spelled .careful e ts) : ∃ ms, Compared .careful comparison (some e) ms := by
  rcases hw with ⟨rfl, x, rfl⟩ | ⟨inner, rfl⟩
  · obtain ⟨t, ht, rfl⟩ := exists_number x
    exact ⟨[t], .number ht⟩
  · obtain ⟨op, ho⟩ := exists_comparison comparison
    obtain ⟨ts, hs⟩ := he
    exact ⟨op :: ts, .operator ho ⟨inner, rfl⟩ hs⟩

theorem exists_spelledRest {es : List Expr} (h : ∀ e ∈ es, ∃ ts, Spelled .careful e ts) :
    ∃ us, SpelledRest .careful es us := by
  induction es with
  | nil => exact ⟨[], .nil⟩
  | cons e es ih =>
    obtain ⟨ts, hts⟩ := h e List.mem_cons_self
    obtain ⟨us, hus⟩ := ih fun e' he' => h e' (List.mem_cons_of_mem _ he')
    exact ⟨_, .cons (rfl : (⟨.comma, ",", 0⟩ : Token).kind = .comma) hts hus⟩

theorem exists_spelledAll {es : List Expr} (h : ∀ e ∈ es, ∃ ts, Spelled .careful e ts) :
    ∃ us, SpelledAll .careful es us := by
  cases es with
  | nil => exact ⟨[], .nil⟩
  | cons e es =>
    obtain ⟨ts, hts⟩ := h e List.mem_cons_self
    obtain ⟨us, hus⟩ := exists_spelledRest fun e' he' => h e' (List.mem_cons_of_mem _ he')
    exact ⟨_, .cons hts hus⟩

namespace Expr

/-- Every canonical expression has a rendering. -/
theorem exists_rendering {e : Expr} (h : e.Everywhere Canonical) : ∃ ts, Spelled .careful e ts := by
  induction e using Expr.ind with
  | literal v label =>
    obtain ⟨hfits, -⟩ := h.self
    cases v with
    | none => exact hfits.elim
    | some v =>
      cases v with
      | number x =>
        obtain ⟨t, ht, rfl⟩ := exists_number x
        obtain ⟨ls, hl⟩ := exists_labels label
        exact ⟨_, .number ht hl⟩
      | string s =>
        obtain rfl : label = none := hfits
        exact ⟨_, .name (show Style.careful.Names (⟨.name, s, 0⟩ : Token).kind from rfl)⟩
      | bool b =>
        obtain rfl : label = none := hfits
        cases b with
        | true => exact ⟨_, .true (rfl : (⟨.trueWord, "true", 0⟩ : Token).kind = .trueWord)⟩
        | false => exact ⟨_, .false (rfl : (⟨.falseWord, "false", 0⟩ : Token).kind = .falseWord)⟩
  | substitution slot key label =>
    obtain ⟨⟨name, rfl⟩, -⟩ := h.self
    obtain ⟨t, ht, rfl⟩ := exists_key name
    obtain ⟨ls, hl⟩ := exists_labels label
    exact ⟨_, .substitution ht hl⟩
  | group inner ih =>
    obtain ⟨ts, hs⟩ := ih (everywhere_group.1 h).2
    exact ⟨_, .group (rfl : (⟨.leftParen, "(", 0⟩ : Token).kind = .leftParen) hs
      (rfl : (⟨.rightParen, ")", 0⟩ : Token).kind = .rightParen)⟩
  | unary op operand ih =>
    obtain ⟨⟨⟨⟨t, rfl, -⟩, -⟩, -⟩, hoperand⟩ := everywhere_unary.1 h
    obtain ⟨ts, hs⟩ := ih hoperand
    exact ⟨_, .unary hs⟩
  | binary op left right ihl ihr =>
    obtain ⟨⟨⟨t, l, rfl, -⟩, -⟩, hleft, hright⟩ := everywhere_binary.1 h
    obtain ⟨ls, hl⟩ := ihl hleft
    obtain ⟨rs, hr⟩ := ihr hright
    exact ⟨_, .binary hl hr⟩
  | choice c t e ihc iht ihe =>
    obtain ⟨-, hcondition, hconsequent, halternative⟩ := everywhere_choice.1 h
    obtain ⟨cs, hc⟩ := ihc hcondition
    obtain ⟨ts, ht⟩ := iht hconsequent
    obtain ⟨es, he⟩ := ihe halternative
    exact ⟨_, .choice hc (rfl : (⟨.question, "?", 0⟩ : Token).kind = .question) ht
      (rfl : (⟨.colon, ":", 0⟩ : Token).kind = .colon) he⟩
  | call callee token arguments ihc iha =>
    obtain ⟨⟨-, t, rfl, ht, rfl⟩, -, harguments⟩ := everywhere_call.1 h
    obtain ⟨us, hs⟩ := exists_spelledAll fun a ha => iha a ha (harguments a ha)
    have hc : Spelled .careful (.literal (some (.string t.lexeme)) none) ([] ++ [t]) := .name ht
    exact ⟨_, .call hc (rfl : (⟨.leftParen, "(", 0⟩ : Token).kind = .leftParen) hs
      (rfl : (⟨.rightParen, ")", 0⟩ : Token).kind = .rightParen)⟩
  | dice slot count faces label modifier comparison target ihc ihf iht =>
    obtain ⟨hself, hcount, hfaces, htarget⟩ := everywhere_dice.1 h
    obtain ⟨⟨-, -, -, -, habsent, -⟩, -, hwritten⟩ := hself
    obtain ⟨cs, hc⟩ := ihc hcount
    obtain ⟨fs, hf⟩ := ihf hfaces
    obtain ⟨ls, hl⟩ := exists_labels label
    have hdie : (⟨.name, "d", 0⟩ : Token).kind = .name := rfl
    cases target with
    | absent =>
      obtain rfl : modifier = .plain := habsent.2 rfl
      obtain rfl : comparison = .equal := hwritten
      exact ⟨_, .plainDice hc hdie (.inl rfl) hf hl⟩
    | faces => exact hwritten.elim
    | value e =>
      have hplain : modifier ≠ .plain := fun hm => by cases habsent.1 hm
      obtain ⟨ms, hm⟩ := exists_compared hwritten (iht e rfl (htarget e rfl))
      exact ⟨_, .dice hc hdie (.inl rfl) hf (.inl (rfl : (⟨.name, modifier.suffix, 0⟩ : Token).kind = .name))
        (Modifier.ofKeyword?_suffix hplain) hm rfl hl⟩
  | pool entries modifier comparison target ihe iht =>
    obtain ⟨⟨⟨⟨e, rfl, -⟩, hm⟩, hwritten⟩, hentries, htarget⟩ := everywhere_pool.1 h
    obtain ⟨us, hs⟩ := exists_spelledAll fun a ha => ihe a ha (hentries a ha)
    obtain ⟨ms, hms⟩ := exists_compared (hwritten e rfl) (iht e rfl (htarget e rfl))
    exact ⟨_, .pool (rfl : (⟨.leftBrace, "\x7b", 0⟩ : Token).kind = .leftBrace) hs
      (rfl : (⟨.rightBrace, "\x7d", 0⟩ : Token).kind = .rightBrace)
      (rfl : (⟨.name, modifier.suffix, 0⟩ : Token).kind = .name) (Modifier.ofPoolKeyword?_suffix hm) hms rfl⟩
  | foreign text => exact h.self.1.elim

end Expr

/-! ### First tokens -/

/-- The kinds of the first tokens of renderings of the call level. -/
def primaryKinds : List Kind :=
  [.trueWord, .falseWord, .number, .substitution, .name, .leftParen, .leftBrace]

theorem eq_of_name {style : Style} {s : String} {ts : List Token}
    (h : Spelled style (.literal (some (.string s)) none) ts) : ∃ t, ts = [t] ∧ style.Names t.kind ∧ t.lexeme = s := by
  cases h with
  | name ht => exact ⟨_, rfl, ht, rfl⟩

/-- The tokens of a call of a name. -/
theorem eq_of_call {callee : Expr} {t : Token} {arguments : List Expr} {ts : List Token}
    (h : Spelled .careful (.call callee (some t) arguments) ts)
    (hc : callee = .literal (some (.string t.lexeme)) none) :
    ∃ opener us closer, ts = t :: opener :: (us ++ [closer]) ∧ t.kind = .name ∧ opener.kind = .leftParen ∧
      SpelledAll .careful arguments us ∧ closer.kind = .rightParen := by
  subst hc
  cases h with
  | call hcallee ho ha hl =>
    obtain ⟨t', hts, hname, -⟩ := eq_of_name hcallee
    obtain ⟨rfl, ht⟩ := List.append_eq_singleton_iff.1 hts |>.resolve_right fun h => by simp at h
    cases ht
    exact ⟨_, _, _, rfl, hname, ho, ha, hl⟩

theorem first_of_call {e : Expr} {ts : List Token} (h : Spelled .careful e ts) (hc : e.Canonical)
    (hl : e.level = .call) : ∃ t us, ts = t :: us ∧ t.kind ∈ primaryKinds := by
  cases e with
  | call callee token arguments =>
    obtain ⟨-, t, rfl, ht, hcallee⟩ := hc
    obtain ⟨opener, us, closer, rfl, -⟩ := eq_of_call h hcallee
    exact ⟨_, _, rfl, by simp [ht, primaryKinds]⟩
  | literal v label =>
    cases h with
    | true ht => exact ⟨_, _, rfl, by simp [ht, primaryKinds]⟩
    | false ht => exact ⟨_, _, rfl, by simp [ht, primaryKinds]⟩
    | number ht => exact ⟨_, _, rfl, by simp [ht, primaryKinds]⟩
    | name ht => exact ⟨_, _, rfl, by simp [show _ = Kind.name from ht, primaryKinds]⟩
  | substitution slot key label =>
    cases h with
    | substitution ht => exact ⟨_, _, rfl, by simp [ht, primaryKinds]⟩
  | group inner =>
    cases h with
    | group ho => exact ⟨_, _, rfl, by simp [ho, primaryKinds]⟩
  | pool entries modifier comparison target =>
    cases h with
    | pool ho => exact ⟨_, _, rfl, by simp [ho, primaryKinds]⟩
  | foreign text => exact hc.1.elim
  | unary op operand => cases hl
  | choice c t e => cases hl
  | dice slot count faces label modifier comparison target => cases hl
  | binary op left right =>
    obtain ⟨⟨t, l, rfl, hop, -⟩, -⟩ := hc
    rw [Expr.level_binary hop] at hl
    exact absurd (hl ▸ (Expr.le_of_level? hop).2) (by decide)

/-- The kinds of the first tokens of renderings. -/
def firstKinds : List Kind := .bang :: .minus :: primaryKinds

theorem first_of_rendering {e : Expr} {ts : List Token} (h : Spelled .careful e ts) (he : e.Everywhere Expr.Canonical) :
    ∃ t us, ts = t :: us ∧ t.kind ∈ firstKinds := by
  have call : ∀ {e : Expr} {ts : List Token}, Spelled .careful e ts → e.Canonical → e.level = .call →
      ∃ t us, ts = t :: us ∧ t.kind ∈ firstKinds := fun h hc hl => by
    obtain ⟨t, us, hts, ht⟩ := first_of_call h hc hl
    exact ⟨t, us, hts, List.mem_cons_of_mem _ (List.mem_cons_of_mem _ ht)⟩
  induction e using Expr.ind generalizing ts with
  | unary op operand ih =>
    obtain ⟨⟨⟨t, rfl, ht⟩, -⟩, -⟩ := he.self
    cases h with
    | unary hs => exact ⟨_, _, rfl, by rcases ht with ht | ht <;> simp [ht, firstKinds]⟩
  | binary op left right ihl ihr =>
    cases h with
    | binary hl hr =>
      obtain ⟨t, us, rfl, ht⟩ := ihl hl (Expr.everywhere_binary.1 he).2.1
      exact ⟨_, _, rfl, ht⟩
  | choice c t e ihc iht ihe =>
    cases h with
    | choice hc =>
      obtain ⟨t, us, rfl, ht⟩ := ihc hc (Expr.everywhere_choice.1 he).2.1
      exact ⟨_, _, rfl, ht⟩
  | dice slot count faces label modifier comparison target ihc ihf iht =>
    have hcount := (Expr.everywhere_dice.1 he).2.1
    cases h with
    | plainDice hc =>
      obtain ⟨t, us, rfl, ht⟩ := ihc hc hcount
      exact ⟨_, _, rfl, ht⟩
    | dice hc =>
      obtain ⟨t, us, rfl, ht⟩ := ihc hc hcount
      exact ⟨_, _, rfl, ht⟩
  | literal v label => exact call h he.self rfl
  | substitution slot key label => exact call h he.self rfl
  | group inner ih => exact call h he.self rfl
  | call callee token arguments ihc iha => exact call h he.self rfl
  | pool entries modifier comparison target ihe iht => exact call h he.self rfl
  | foreign text => exact he.self.1.elim

end DiceNotation
