import DiceNotation.Expr.Parse
import DiceNotation.Proofs.Parts

/-!
The grammar, apart from the rules that read it.

`Expr.Fits` says of a node that its parts stand on the levels that the grammar gives them. `Spelled` relates an
expression to the tokens it may be written with, in their order, and names every freedom of the notation. A style
tells how much of that freedom is used.
-/

namespace DiceNotation

open Token

/-! ### Levels -/

/-- The levels of the grammar, from the loosest on. -/
inductive Level where
  | choice | equality | ordering | term | factor | dice | sign | call
  deriving DecidableEq

namespace Level

def rank : Level → Nat
  | choice => 0
  | equality => 1
  | ordering => 2
  | term => 3
  | factor => 4
  | dice => 5
  | sign => 6
  | call => 7

/-- The tighter level is the greater one. -/
instance : LE Level := ⟨fun a b => a.rank ≤ b.rank⟩

instance : LT Level := ⟨fun a b => a.rank < b.rank⟩

instance (a b : Level) : Decidable (a ≤ b) := inferInstanceAs (Decidable (a.rank ≤ b.rank))

instance (a b : Level) : Decidable (a < b) := inferInstanceAs (Decidable (a.rank < b.rank))

variable {a b c : Level}

theorem le_refl (a : Level) : a ≤ a := Nat.le_refl _

theorem le_trans (h : a ≤ b) (h' : b ≤ c) : a ≤ c := Nat.le_trans h h'

theorem lt_of_lt_of_le (h : a < b) (h' : b ≤ c) : a < c := Nat.lt_of_lt_of_le h h'

theorem lt_of_le_of_lt (h : a ≤ b) (h' : b < c) : a < c := Nat.lt_of_le_of_lt h h'

theorem le_of_lt (h : a < b) : a ≤ b := Nat.le_of_lt h

theorem eq_call_of_le (h : call ≤ a) : a = call := by
  cases a <;> first | rfl | exact absurd h (by decide)

end Level

/-- The level of the operators of a kind, if they stand between operands. -/
def Token.Kind.level? : Kind → Option Level
  | .equal | .unequal => some .equality
  | .less | .lessEqual | .greater | .greaterEqual => some .ordering
  | .plus | .minus => some .term
  | .star | .slash | .percent => some .factor
  | _ => none

namespace Expr

/-- The level that an expression stands on. -/
def level : Expr → Level
  | .choice .. => .choice
  | .binary op _ _ => (op.bind (·.kind.level?)).getD .choice
  | .dice .. => .dice
  | .unary .. => .sign
  | _ => .call

/-- The operators between operands stand on the levels from equality to factors. -/
theorem le_of_level? {kind : Kind} {l : Level} (h : kind.level? = some l) : .equality ≤ l ∧ l ≤ .factor := by
  cases kind <;> cases h <;> decide

theorem level_binary {op : Token} {l : Level} (h : op.kind.level? = some l) (left right : Expr) :
    (Expr.binary (some op) left right).level = l := by
  simp [level, h]

/-- The label of the primary that an expression of the call level begins with. -/
def headLabel : Expr → Option String
  | .literal _ label | .substitution _ _ label => label
  | .call callee _ _ => callee.headLabel
  | _ => none

end Expr

/-- The expression that a modifier of dice with these faces compares with. -/
def Target.expr? (faces : Expr) : Target Expr → Option Expr
  | .absent => none
  | .faces => some faces
  | .value e => some e

/-! ### Nodes -/

/-- A node is one that the grammar knows, and its parts stand on the levels that the grammar gives them. -/
def Expr.Fits : Expr → Prop
  | .literal v label => match v with
    | some (.number _) => True
    | some _ => label = none
    | none => False
  | .substitution _ key _ => ∃ name, key = some (.string name)
  | .group _ => True
  | .unary op operand => (∃ t, op = some t ∧ (t.kind = .bang ∨ t.kind = .minus)) ∧ Level.sign ≤ operand.level
  | .binary op left right =>
    ∃ t l, op = some t ∧ t.kind.level? = some l ∧ l ≤ left.level ∧ l < right.level
  | .choice condition _ _ => condition.level ≠ .choice
  | .call callee token _ => callee.level = .call ∧ token.isSome
  | .dice _ count faces _ modifier comparison target =>
    Level.dice ≤ count.level ∧ faces.level = .call ∧ faces.headLabel = none ∧
      (modifier.isSelection → comparison = .equal) ∧ (modifier = .plain ↔ target.expr? faces = none) ∧
      ∀ e, target.expr? faces = some e → e.level = .call
  | .pool _ modifier _ target =>
    (∃ e, target = some e ∧ e.level = .call) ∧ (modifier = .countSuccesses ∨ modifier.isSelection)
  | .foreign _ => False

/-! ### Spellings -/

/-- How much freedom spellings take. -/
inductive Style where
  /-- All that the notation has. -/
  | free
  /-- Only names stand for themselves, modifiers are written with a value, and behind a comparison that value is a
  group. -/
  | careful
  deriving DecidableEq

namespace Style

/-- The kinds that have a rule of their own where an operand begins, or end the input. -/
def ruled : List Kind :=
  [.trueWord, .falseWord, .number, .substitution, .leftParen, .leftBrace, .endOfInput]

/-- A token of the kind may stand as its own text. -/
def Names (style : Style) (kind : Kind) : Prop :=
  match style with
  | .free => kind ∉ ruled
  | .careful => kind = .name

/-- An expression may stand behind the comparison of a modifier. -/
def Compares (style : Style) (e : Expr) : Prop :=
  match style with
  | .free => True
  | .careful => ∃ inner, e = .group inner

end Style

/-- A label and its tokens: words in brackets, or none at all. -/
inductive Labels : Option String → List Token → Prop where
  | absent : Labels none []
  | words {opener closer : Token} {words : List Token} (ho : opener.kind = .leftBracket)
      (hw : ∀ t ∈ words, t.kind = .name) (hc : closer.kind = .rightBracket) :
      Labels (some (" ".intercalate (words.map (·.lexeme)))) (opener :: (words ++ [closer]))

mutual
/-- An expression and the tokens that spell it. -/
inductive Spelled (style : Style) : Expr → List Token → Prop where
  | true {t : Token} (ht : t.kind = .trueWord) : Spelled style (.literal (some (.bool Bool.true)) none) [t]
  | false {t : Token} (ht : t.kind = .falseWord) : Spelled style (.literal (some (.bool Bool.false)) none) [t]
  | number {t : Token} {label : Option String} {ls : List Token} (ht : t.kind = .number) (hl : Labels label ls) :
      Spelled style (.literal (some (.number t.number)) label) (t :: ls)
  | substitution {t : Token} {slot : Slot} {label : Option String} {ls : List Token} (ht : t.kind = .substitution)
      (hl : Labels label ls) : Spelled style (.substitution slot (some (.string t.key)) label) (t :: ls)
  | name {t : Token} (ht : style.Names t.kind) : Spelled style (.literal (some (.string t.lexeme)) none) [t]
  | group {opener closer : Token} {inner : Expr} {ts : List Token} (ho : opener.kind = .leftParen)
      (hi : Spelled style inner ts) (hc : closer.kind = .rightParen) :
      Spelled style (.group inner) (opener :: (ts ++ [closer]))
  | unary {op : Token} {operand : Expr} {ts : List Token} (ho : Spelled style operand ts) :
      Spelled style (.unary (some op) operand) (op :: ts)
  | binary {op : Token} {left right : Expr} {ls rs : List Token} (hl : Spelled style left ls)
      (hr : Spelled style right rs) : Spelled style (.binary (some op) left right) (ls ++ op :: rs)
  | choice {mark colon : Token} {condition consequent alternative : Expr} {cs ts es : List Token}
      (hc : Spelled style condition cs) (hm : mark.kind = .question) (ht : Spelled style consequent ts)
      (hn : colon.kind = .colon) (he : Spelled style alternative es) :
      Spelled style (.choice condition consequent alternative) (cs ++ mark :: (ts ++ colon :: es))
  /-- The token of a call is the last one of its callee. -/
  | call {opener closer token : Token} {callee : Expr} {arguments : List Expr} {cs ts : List Token}
      (hc : Spelled style callee (cs ++ [token])) (ho : opener.kind = .leftParen) (ha : SpelledAll style arguments ts)
      (hl : closer.kind = .rightParen) :
      Spelled style (.call callee (some token) arguments) (cs ++ token :: opener :: (ts ++ [closer]))
  /-- Dice without a modifier; the operator is the name `d` in either case. -/
  | plainDice {die : Token} {slot : Slot} {count faces : Expr} {label : Option String} {cs fs ls : List Token}
      (hc : Spelled style count cs) (hd : die.kind = .name) (hx : die.lexeme = "d" ∨ die.lexeme = "D")
      (hf : Spelled style faces fs) (hl : Labels label ls) :
      Spelled style (.dice slot count faces label .plain .equal .absent) (cs ++ die :: (fs ++ ls))
  /-- Dice with a modifier; its keyword is any of those that name it. -/
  | dice {die keyword : Token} {slot : Slot} {count faces : Expr} {label : Option String} {modifier : Modifier}
      {comparison : Comparison} {target : Target Expr} {written : Option Expr} {cs fs ms ls : List Token}
      (hc : Spelled style count cs) (hd : die.kind = .name) (hx : die.lexeme = "d" ∨ die.lexeme = "D")
      (hf : Spelled style faces fs) (hk : keyword.kind = .name ∨ keyword.kind = .bang ∨ keyword.kind = .doubleBang)
      (hw : Modifier.ofKeyword? keyword.lexeme = some modifier) (hm : Compared style comparison written ms)
      (ht : target = Rule.targetOf modifier written) (hl : Labels label ls) :
      Spelled style (.dice slot count faces label modifier comparison target)
        (cs ++ die :: (fs ++ keyword :: (ms ++ ls)))
  /-- A pool; a value that is left out is one. -/
  | pool {opener closer keyword : Token} {entries : List Expr} {modifier : Modifier} {comparison : Comparison}
      {target : Expr} {written : Option Expr} {ts ms : List Token} (ho : opener.kind = .leftBrace)
      (he : SpelledAll style entries ts) (hc : closer.kind = .rightBrace) (hk : keyword.kind = .name)
      (hw : Modifier.ofPoolKeyword? keyword.lexeme = some modifier) (hm : Compared style comparison written ms)
      (ht : target = written.getD Rule.one) :
      Spelled style (.pool entries modifier comparison (some target))
        (opener :: (ts ++ closer :: keyword :: ms))

/-- Expressions with commas between them. -/
inductive SpelledAll (style : Style) : List Expr → List Token → Prop where
  | nil : SpelledAll style [] []
  | cons {e : Expr} {es : List Expr} {ts us : List Token} (he : Spelled style e ts) (hs : SpelledRest style es us) :
      SpelledAll style (e :: es) (ts ++ us)

/-- Expressions with a comma before each. -/
inductive SpelledRest (style : Style) : List Expr → List Token → Prop where
  | nil : SpelledRest style [] []
  | cons {comma : Token} {e : Expr} {es : List Expr} {ts us : List Token} (hc : comma.kind = .comma)
      (he : Spelled style e ts) (hs : SpelledRest style es us) : SpelledRest style (e :: es) (comma :: (ts ++ us))

/-- What follows the keyword of a modifier: nothing, a number alone, or a comparison with a value. -/
inductive Compared (style : Style) : Comparison → Option Expr → List Token → Prop where
  | bare (hs : style = .free) : Compared style .equal none []
  | number {t : Token} (ht : t.kind = .number) :
      Compared style .equal (some (.literal (some (.number t.number)) none)) [t]
  | operator {op : Token} {comparison : Comparison} {e : Expr} {ts : List Token}
      (ho : Rule.comparisonOf? op.kind = some comparison) (hs : style.Compares e) (he : Spelled style e ts) :
      Compared style comparison (some e) (op :: ts)
end

theorem Spelled.ne_nil {style : Style} {e : Expr} {ts : List Token} (h : Spelled style e ts) : ts ≠ [] := by
  cases h <;> simp

end DiceNotation
