import DiceNotation.Proofs.Lookahead
import DiceNotation.Proofs.Reading

/-!
Whose a label behind dice is.

Where dice with a bare keyword are a whole input, the program has come to behind their faces when it sees the keyword.
From there it is run on whatever may stand behind the keyword before a label.

Main statement: `Descent.ofTokens_label`.
-/

namespace DiceNotation

open Token Token.Cursor

namespace Descent

variable {c c' : Cursor} {p ts rest : List Token} {t : Token}

/-! ### Whole inputs of one dice term -/

section Levels

variable {l : Level} {e : Expr}

theorem Stops.reads (h : Stops (.read (.level l)) c (.ok (e, c'))) : Rule.Reads l c e c' := by
  have hrule := (advances_level l).stops c c.left (Nat.le_succ _)
  exact Rule.reads_ruleAt _ l (h.unique hrule).symm

theorem givesDice_of_level (h : Stops (.read (.level .dice)) c (.ok (e, c'))) (he : e.level = .dice) :
    GivesDice (.read (.level .dice)) c c' e := by
  obtain ⟨count, c₁, h₁, k₁⟩ := h.of_read.of_bind
  rcases givesDice_of_chain k₁ with ⟨rfl, -⟩ | hgives
  · have hsign := h₁.reads.level
    rw [he] at hsign
    exact absurd hsign (by decide)
  · exact .read (.bind h₁ hgives)

theorem level_of_chain {left : Expr} (h : Stops (.read (.binaryChain l left)) c (.ok (e, c'))) :
    e = left ∧ c' = c ∨ e.level = l := by
  induction hn : c.left using Nat.strongRecOn generalizing left c with
  | ind n ih =>
    obtain ⟨b, c₁, h₁, k₁⟩ := h.of_read.of_bind
    cases h₁.of_step
    cases hb : l.operators.contains c.current.kind with
    | false =>
      rw [show c.sees l.operators = false from hb] at k₁
      cases k₁.of_give
      exact .inl ⟨rfl, rfl⟩
    | true =>
      have hop := mem_operators_iff.1 (List.contains_iff_mem.1 hb)
      rw [show c.sees l.operators = true from hb] at k₁
      obtain ⟨op, c₂, h₂, k₂⟩ := Stops.of_bind k₁
      obtain ⟨right, c₃, h₃, k₃⟩ := k₂.of_bind
      cases h₂.of_step
      have hleft : c₃.left < n := by
        have hne : c.current.kind ≠ .endOfInput := fun hend => by rw [hend] at hop; cases hop
        have hnext := (passes_advance hne).left_eq
        have hright := h₃.left_le
        simp only [List.length_singleton] at hnext
        omega
      rcases ih _ hleft k₃ rfl with ⟨rfl, -⟩ | hlevel
      · exact .inr (Expr.level_binary hop _ _)
      · exact .inr hlevel

/-- What is tighter than a level has been read on the next one. -/
theorem tighter_of_level (hl : l < .dice) (h : Stops (.read (.level l)) c (.ok (e, c'))) (he : l < e.level) :
    Stops (.read (.level l.tighter)) c (.ok (e, c')) := by
  by_cases hchain : .equality ≤ l ∧ l ≤ .factor
  · have hread := h.of_read
    rw [ofNonterminal_chain hchain] at hread
    obtain ⟨left, c₁, h₁, k₁⟩ := hread.of_bind
    rcases level_of_chain k₁ with ⟨rfl, rfl⟩ | hlevel
    · exact h₁
    · rw [hlevel] at he
      exact absurd he (by cases l <;> decide)
  · obtain rfl : l = .choice := by
      cases l <;> revert hchain hl <;> decide
    obtain ⟨condition, c₁, h₁, k₁⟩ := h.of_read.of_bind
    obtain ⟨b, c₂, h₂, k₂⟩ := k₁.of_bind
    rcases Rule.skip_eq_ok (by decide) h₂.of_step.symm with ⟨rfl, -⟩ | ⟨rfl, rfl⟩
    · obtain ⟨consequent, c₃, -, k₃⟩ := Stops.of_bind k₂
      obtain ⟨colon, c₄, -, k₄⟩ := k₃.of_bind
      obtain ⟨alternative, c₅, -, k₅⟩ := k₄.of_bind
      cases k₅.of_give
      exact absurd he (show ¬Level.choice < .choice by decide)
    · cases k₂.of_give
      exact h₁

theorem dice_of_choice (h : Stops (.read (.level .choice)) c (.ok (e, c'))) (he : e.level = .dice) :
    Stops (.read (.level .dice)) c (.ok (e, c')) := by
  have hequality := tighter_of_level (by decide) h (he ▸ by decide)
  have hordering := tighter_of_level (by decide) hequality (he ▸ by decide)
  have hterm := tighter_of_level (by decide) hordering (he ▸ by decide)
  have hfactor := tighter_of_level (by decide) hterm (he ▸ by decide)
  exact tighter_of_level (by decide) hfactor (he ▸ by decide)

variable (hend : c'.current.kind = .endOfInput)

include hend

/-- At the end of input every looser level ends as well. -/
theorem level_of_tighter (hl : l < .dice) (h : Stops (.read (.level l.tighter)) c (.ok (e, c'))) :
    Stops (.read (.level l)) c (.ok (e, c')) := by
  by_cases hchain : .equality ≤ l ∧ l ≤ .factor
  · refine .read ?_
    rw [ofNonterminal_chain hchain]
    have hoperator : c'.current.kind ∉ l.operators := by
      rw [hend]
      cases l <;> decide
    exact .andThen h (.read (.andThen (.of_eq (Rule.sees_other hoperator)) (.give ..)))
  · obtain rfl : l = .choice := by
      cases l <;> revert hchain hl <;> decide
    have hmark : c'.current.kind ≠ .question := by
      rw [hend]
      decide
    exact .read (.andThen h (.andThen (.of_eq (Rule.skip_other hmark)) (.give ..)))

theorem choice_of_dice (h : Stops (.read (.level .dice)) c (.ok (e, c'))) :
    Stops (.read (.level .choice)) c (.ok (e, c')) := by
  have hfactor := level_of_tighter (l := .factor) hend (by decide) h
  have hterm := level_of_tighter (l := .term) hend (by decide) hfactor
  have hordering := level_of_tighter (l := .ordering) hend (by decide) hterm
  have hequality := level_of_tighter (l := .equality) hend (by decide) hordering
  exact level_of_tighter hend (by decide) hequality

end Levels

theorem ofTokens_eq_ok_iff {tokens : List Token} {e : Expr} : Expr.ofTokens tokens = .ok e ↔
    ∃ c', Stops (.read (.level .choice)) (.start tokens) (.ok (e, c')) ∧ c'.current.kind = .endOfInput := by
  have hrule : Stops wholeInput (.start tokens) (Rule.wholeInput tokens.length (.start tokens)) :=
    (Agrees.wholeInput (fits_start tokens)).own
  rw [Expr.ofTokens_eq]
  constructor
  · intro h
    cases hx : Rule.wholeInput tokens.length (.start tokens) with
    | error e => rw [hx] at h; cases h
    | ok r =>
      obtain ⟨e', c'⟩ := r
      rw [hx] at h hrule
      cases h
      obtain ⟨e', c₁, h₁, k₁⟩ := hrule.of_bind
      obtain ⟨t, c₂, h₂, k₂⟩ := k₁.of_bind
      obtain ⟨rfl, rfl⟩ := h₂.of_current
      by_cases hend : c₂.current.kind = .endOfInput
      · rw [if_pos hend] at k₂
        cases k₂.of_give
        exact ⟨_, h₁, hend⟩
      · rw [if_neg hend] at k₂
        cases k₂
  · rintro ⟨c', h, hend⟩
    have hwhole : Stops wholeInput (.start tokens) (.ok (e, c')) := by
      refine .andThen h (.andThen (.step .current c') ?_)
      rw [if_pos hend]
      exact .give ..
    rw [← hwhole.unique hrule]
    rfl

/-! ### Dice with a bare keyword -/

section Bare

variable {e : Expr} {l : Option String} {modifier : Modifier} {comparison : Comparison}

theorem label_eq_none (h : Stops label c (.ok (none, c'))) : c' = c := by
  obtain ⟨b, c₁, h₁, k₁⟩ := h.of_bind
  rcases Rule.skip_eq_ok (by decide) h₁.of_step.symm with ⟨rfl, -⟩ | ⟨rfl, rfl⟩
  · obtain ⟨words, c₂, -, k₂⟩ := Stops.of_bind k₁
    obtain ⟨closer, c₃, -, k₃⟩ := k₂.of_bind
    cases k₃.of_give
  · cases k₁.of_give
    rfl

theorem passes_number {x : Number} (h : Stops (.read (.call true)) c (.ok (.literal (some (.number x)) none, c'))) :
    ∃ t, t.kind = .number ∧ Passes c [t] c' := by
  have hrule := (advances_call true).stops c c.left (Nat.le_succ _)
  have hread := (Rule.ensures_call (Rule.sound_inner _) true _ (h.unique hrule).symm).1
  obtain ⟨ts, hp, hs⟩ := hread.spelled
  cases hs with
  | @number t label ls ht hl =>
    cases hl
    exact ⟨t, ht, hp⟩

/-- What stands behind a keyword and means what nothing does closes with a number. -/
theorem passes_comparison {written : Option Expr}
    (hw : Rule.targetOf modifier written = Rule.targetOf modifier none)
    (h : Stops (.read .comparison) c (.ok ((comparison, written), c'))) :
    ∃ us, Passes c us c' ∧ (us = [] ∨ ∃ vs t, us = vs ++ [t] ∧ t.kind = .number) := by
  obtain ⟨t, c₁, h₁, k₁⟩ := h.of_read.of_bind
  obtain ⟨rfl, rfl⟩ := h₁.of_current
  cases ho : Rule.comparisonOf? c₁.current.kind with
  | some found =>
    rw [ho] at k₁
    have hne : c₁.current.kind ≠ .endOfInput := fun hend => by rw [hend] at ho; cases ho
    obtain ⟨op, c₂, h₂, k₂⟩ := Stops.of_bind k₁
    obtain ⟨rfl, hp⟩ := Rule.next_eq_ok h₂.of_step.symm hne
    obtain ⟨e, c₃, h₃, k₃⟩ := k₂.of_bind
    cases k₃.of_give
    rcases Rule.eq_of_targetOf hw.symm with he | rfl
    · cases he
    · obtain ⟨t, ht, hq⟩ := passes_number h₃
      exact ⟨_, hp.trans hq, .inr ⟨_, t, rfl, ht⟩⟩
  | none =>
    rw [ho] at k₁
    obtain ⟨b, c₂, h₂, k₂⟩ := Stops.of_bind k₁
    obtain ⟨hb, rfl⟩ := Rule.sees_eq_ok h₂.of_step.symm
    cases b with
    | false =>
      cases k₂.of_give
      exact ⟨[], .refl _, .inl rfl⟩
    | true =>
      have hkind : c₂.current.kind = .number := by simpa using hb.symm
      obtain ⟨number, c₃, h₃, k₃⟩ := Stops.of_bind k₂
      obtain ⟨rfl, hp⟩ := Rule.next_eq_ok h₃.of_step.symm (by simp [hkind])
      cases k₃.of_give
      exact ⟨_, hp, .inr ⟨[], _, rfl, hkind⟩⟩

theorem passes_modifier
    (h : Stops (.read .optionalModifier) c (.ok ((modifier, comparison, Rule.targetOf modifier none), c'))) :
    ∃ keyword us, Passes c (keyword :: us) c' ∧ (us = [] ∨ ∃ vs t, us = vs ++ [t] ∧ t.kind = .number) := by
  obtain ⟨b, c₁, h₁, k₁⟩ := h.of_read.of_bind
  obtain ⟨hb, rfl⟩ := Rule.sees_eq_ok h₁.of_step.symm
  cases b with
  | false => cases k₁.of_give
  | true =>
    obtain ⟨keyword, c₂, h₂, k₂⟩ := (Stops.of_read k₁).of_bind
    obtain ⟨rfl, hp⟩ := Rule.next_eq_ok h₂.of_step.symm fun hend => by rw [hend] at hb; cases hb
    cases hw : Modifier.ofKeyword? c₁.current.lexeme with
    | none => rw [hw] at k₂; cases k₂
    | some found =>
      rw [hw] at k₂
      obtain ⟨operator, c₃, h₃, k₃⟩ := Stops.of_bind k₂
      obtain ⟨rfl, rfl⟩ := h₃.of_current
      obtain ⟨⟨comparison', written⟩, c₄, h₄, k₄⟩ := k₃.of_bind
      dsimp only at k₄
      split at k₄
      · cases k₄
      · obtain ⟨hr, rfl⟩ := Prod.mk.inj (Except.ok.inj k₄.of_give)
        obtain ⟨rfl, hr⟩ := Prod.mk.inj hr
        obtain ⟨us, hq, hus⟩ := passes_comparison (Prod.mk.inj hr).2.symm h₄
        exact ⟨_, us, hp.cons hq, hus⟩

theorem eq_append_singleton {head us : List Token} {keyword k : Token} (h : head ++ [keyword] = ts ++ k :: us)
    (hkeyword : keyword.kind ≠ .number) (hus : us = [] ∨ ∃ vs t, us = vs ++ [t] ∧ t.kind = .number) :
    head = ts ∧ keyword = k := by
  rcases hus with rfl | ⟨vs, t, rfl, ht⟩
  · obtain ⟨hhead, hlast⟩ := List.append_inj' h rfl
    exact ⟨hhead, List.singleton_inj.1 hlast⟩
  · have h' : head ++ [keyword] = ts ++ k :: vs ++ [t] := by
      rw [h]
      simp
    obtain rfl := List.singleton_inj.1 (List.append_inj' h' rfl).2
    exact absurd ht hkeyword

/-- Where dice with a bare keyword are a whole input, the program is behind their faces at the keyword, whatever follows
it. -/
theorem ofTokens_of_bare {head rest : List Token} {keyword last : Token} {slot : Slot} {count faces e : Expr}
    (hhead : ∀ t ∈ head, t.kind ≠ .endOfInput) (hkeyword : keyword.kind ≠ .number)
    (hkeyword' : keyword.kind ≠ .endOfInput) (hlast : last.kind = .endOfInput)
    (hbare : Expr.ofTokens (head ++ [keyword, last]) =
      .ok (.dice slot count faces none modifier comparison (Rule.targetOf modifier none)))
    (hgives : Stops (behindFaces slot count faces) ⟨head.reverse, keyword :: rest⟩ (.ok (e, c)))
    (hend : c.current.kind = .endOfInput) : Expr.ofTokens (head ++ keyword :: rest) = .ok e := by
  obtain ⟨c', hread, hend'⟩ := ofTokens_eq_ok_iff.1 hbare
  have hdice := dice_of_choice hread rfl
  obtain ⟨hopens, hm, hl⟩ := givesDice_of_level hdice rfl
  rename_i ts d d'
  obtain rfl := label_eq_none hl
  obtain ⟨k, us, hp, hus⟩ := passes_modifier hm
  have hall := hopens.passes.trans hp
  have htokens : head ++ [keyword] = ts ++ k :: us := by
    have hcontent := congrArg content (show head ++ [keyword, last] = ts ++ k :: us ++ c'.ahead from hall.ahead)
    rw [content_append hhead, content_append hall.inner, content_eq_nil hend', List.append_nil] at hcontent
    rw [← hcontent]
    simp [content, hkeyword', hlast]
  obtain ⟨rfl, rfl⟩ := eq_append_singleton htokens hkeyword hus
  refine ofTokens_eq_ok_iff.2 ⟨c, choice_of_dice hend ?_, hend⟩
  refine hopens.stops (keyword :: rest) _ ?_ ?_
  · rw [current, hp.ahead]
    rfl
  · rw [hopens.passes.passed]
    rwa [Cursor.start, List.append_nil]

end Bare

/-! ### A label behind a modifier -/

section Labelled

variable {label : Option String} {ls : List Token} {c d d' : Cursor}

theorem stops_label (h : Labels label ls) (hr : label = none → nextKind rest ≠ .leftBracket) :
    Stops Descent.label ⟨p, ls ++ rest⟩ (.ok (label, ⟨ls.reverse ++ p, rest⟩)) := by
  have hown : Stops Descent.label ⟨p, ls ++ rest⟩ (Rule.label ⟨p, ls ++ rest⟩) := (Agrees.label (.own (Nat.le_refl _))).own
  rwa [Rule.label_ok h hr] at hown

/-- A number or a substitution, where a label may follow. -/
theorem stops_leaf {e : Expr} (h : Labels label ls) (hr : label = none → nextKind rest ≠ .leftBracket)
    (hparen : nextKind rest ≠ .leftParen)
    (he : t.kind = .number ∧ e = .literal (some (.number t.number)) label ∨
      t.kind = .substitution ∧ e = .substitution p.length (some (.string t.key)) label) :
    Stops (.read (.call true)) ⟨p, t :: (ls ++ rest)⟩ (.ok (e, ⟨ls.reverse ++ t :: p, rest⟩)) := by
  have hne : t.kind ≠ .endOfInput := by
    rcases he with ⟨ht, -⟩ | ⟨ht, -⟩ <;> simp [ht]
  have hfrom : Stops (.read (.primaryFrom true p.length t)) ⟨t :: p, ls ++ rest⟩
      (.ok (e, ⟨ls.reverse ++ t :: p, rest⟩)) := by
    refine .read ?_
    rw [ofNonterminal]
    rcases he with ⟨ht, rfl⟩ | ⟨ht, rfl⟩
    · rw [ht]
      exact .andThen (stops_label h hr) (.give ..)
    · rw [ht]
      exact .andThen (stops_label h hr) (.give ..)
  have hprimary : Stops (.read (.primary true)) ⟨p, t :: (ls ++ rest)⟩ (.ok (e, ⟨ls.reverse ++ t :: p, rest⟩)) := by
    refine .read (.andThen (.step .current _) ?_)
    rw [if_neg (show (⟨p, t :: (ls ++ rest)⟩ : Cursor).current.kind ≠ .endOfInput from hne)]
    exact .andThen (.step .position _) (.andThen (.of_eq (Rule.next_ok hne)) hfrom)
  have happlications : Stops (.read (.applications e)) ⟨ls.reverse ++ t :: p, rest⟩
      (.ok (e, ⟨ls.reverse ++ t :: p, rest⟩)) := by
    have hopener : (⟨ls.reverse ++ t :: p, rest⟩ : Cursor).current.kind ∉ [Kind.leftParen] := by
      rw [List.mem_singleton]
      exact hparen
    exact .read (.andThen (.of_eq (Rule.sees_other hopener)) (.give ..))
  exact .read (.andThen hprimary happlications)

section Comparison

variable {op : Token} {comparison : Comparison} {e : Expr}

theorem stops_bare (hnone : Rule.comparisonOf? c.current.kind = none) (hnumber : c.current.kind ≠ .number) :
    Stops (.read .comparison) c (.ok ((.equal, none), c)) := by
  refine .read (.andThen (.step .current _) ?_)
  rw [hnone]
  exact .andThen (.of_eq (Rule.sees_other (by simpa using hnumber))) (.give ..)

theorem stops_number (ht : t.kind = .number) : Stops (.read .comparison) ⟨p, t :: rest⟩
    (.ok ((.equal, some (.literal (some (.number t.number)) none)), ⟨t :: p, rest⟩)) := by
  have hnone : Rule.comparisonOf? (⟨p, t :: rest⟩ : Cursor).current.kind = none := by
    show Rule.comparisonOf? t.kind = none
    rw [ht]
    rfl
  have hsees : Rule.sees [.number] ⟨p, t :: rest⟩ = .ok (true, ⟨p, t :: rest⟩) :=
    Rule.sees_ok (by rw [nextKind_cons, ht]; rfl)
  refine .read (.andThen (.step .current _) ?_)
  rw [hnone]
  exact .andThen (.of_eq hsees) (.andThen (.of_eq (Rule.next_ok (by simp [ht]))) (.give ..))

theorem stops_operator (ho : Rule.comparisonOf? op.kind = some comparison)
    (he : Stops (.read (.call true)) ⟨op :: p, rest⟩ (.ok (e, d))) :
    Stops (.read .comparison) ⟨p, op :: rest⟩ (.ok ((comparison, some e), d)) := by
  have hsome : Rule.comparisonOf? (⟨p, op :: rest⟩ : Cursor).current.kind = some comparison := ho
  have hne : op.kind ≠ .endOfInput := fun hend => by rw [hend] at ho; cases ho
  refine .read (.andThen (.step .current _) ?_)
  rw [hsome]
  exact .andThen (.of_eq (Rule.next_ok hne)) (.andThen he (.give ..))

end Comparison

variable {keyword : Token} {modifier : Modifier} {comparison : Comparison} {written : Option Expr} {slot : Slot}
  {count faces : Expr}

theorem stops_behindFaces (hkind : keyword.kind ∈ [Kind.name, .bang, .doubleBang])
    (hm : Modifier.ofKeyword? keyword.lexeme = some modifier) (hs : modifier.isSelection → comparison = .equal)
    (hc : Stops (.read .comparison) ⟨keyword :: p, rest⟩ (.ok ((comparison, written), d)))
    (hl : Stops Descent.label d (.ok (label, d'))) (hend : d'.current.kind = .endOfInput) :
    Stops (behindFaces slot count faces) ⟨p, keyword :: rest⟩
      (.ok (.dice slot count faces label modifier comparison (Rule.targetOf modifier written), d')) := by
  have hsees : Rule.sees [.name, .bang, .doubleBang] ⟨p, keyword :: rest⟩ = .ok (true, ⟨p, keyword :: rest⟩) :=
    Rule.sees_ok (by simpa using hkind)
  have hne : keyword.kind ≠ .endOfInput := fun hend => by rw [hend] at hkind; revert hkind; decide
  have hmodifier : Stops (.read .diceModifier) ⟨p, keyword :: rest⟩
      (.ok ((modifier, comparison, Rule.targetOf modifier written), d)) := by
    refine .read (.andThen (.of_eq (Rule.next_ok hne)) ?_)
    rw [hm]
    refine .andThen (.step .current _) (.andThen hc ?_)
    dsimp only
    rw [if_neg (by simpa using hs)]
    exact .give ..
  have hname : d'.current.kind ≠ .name := by
    rw [hend]
    decide
  have hdie : Stops seesDice d' (Rule.seesDice d') := (Agrees.seesDice (.own (Nat.le_refl _))).own
  rw [Rule.seesDice_other hname] at hdie
  have hchain : ∀ e, Stops (.read (.diceChain e)) d' (.ok (e, d')) := fun e => .read (.andThen hdie (.give ..))
  exact .andThen (.read (.andThen (.of_eq hsees) hmodifier)) (.andThen hl (hchain _))

end Labelled

/-- **Whose the label behind a modifier is.** Where the tokens before a keyword are dice that the bare keyword
modifies, a label right behind the modifier is one of the dice if the keyword is bare or a number follows it. If an
operator and a number or a substitution follow it, the label is theirs, and the dice have none. -/
theorem ofTokens_label {head ls : List Token} {keyword last : Token} {slot : Slot} {count faces : Expr}
    {modifier : Modifier} {text : String} (hhead : ∀ t ∈ head, t.kind ≠ .endOfInput)
    (hkind : keyword.kind ∈ [Kind.name, .bang, .doubleBang])
    (hm : Modifier.ofKeyword? keyword.lexeme = some modifier) (hlast : last.kind = .endOfInput)
    (hl : Labels (some text) ls)
    (hbare : Expr.ofTokens (head ++ [keyword, last]) =
      .ok (.dice slot count faces none modifier .equal (Rule.targetOf modifier none))) :
    faces.headLabel = none ∧
    Expr.ofTokens (head ++ keyword :: (ls ++ [last])) =
      .ok (.dice slot count faces (some text) modifier .equal (Rule.targetOf modifier none)) ∧
    (∀ t, t.kind = .number → Expr.ofTokens (head ++ keyword :: t :: (ls ++ [last])) =
      .ok (.dice slot count faces (some text) modifier .equal (.value (.literal (some (.number t.number)) none)))) ∧
    ∀ op c, Rule.comparisonOf? op.kind = some c → (modifier.isSelection → c = .equal) →
      (∀ t, t.kind = .number → Expr.ofTokens (head ++ keyword :: op :: t :: (ls ++ [last])) =
        .ok (.dice slot count faces none modifier c (.value (.literal (some (.number t.number)) (some text))))) ∧
      (∀ t, t.kind = .substitution → Expr.ofTokens (head ++ keyword :: op :: t :: (ls ++ [last])) =
        .ok (.dice slot count faces none modifier c
          (.value (.substitution (head.length + 2) (some (.string t.key)) (some text))))) := by
  have hnumber : keyword.kind ≠ .number := fun h => by rw [h] at hkind; revert hkind; decide
  have hend : keyword.kind ≠ .endOfInput := fun h => by rw [h] at hkind; revert hkind; decide
  have goesOn : ∀ {rest e d}, Stops (behindFaces slot count faces) ⟨head.reverse, keyword :: rest⟩ (.ok (e, d)) →
      d.current.kind = .endOfInput → Expr.ofTokens (head ++ keyword :: rest) = .ok e :=
    fun h hd => ofTokens_of_bare hhead hnumber hend hlast hbare h hd
  have label : ∀ p, Stops Descent.label ⟨p, ls ++ [last]⟩ (.ok (some text, ⟨ls.reverse ++ p, [last]⟩)) :=
    fun p => stops_label hl fun h => by cases h
  have hbracket : nextKind [last] ≠ .leftBracket := by
    rw [nextKind_cons, hlast]
    decide
  have hparen : nextKind [last] ≠ .leftParen := by
    rw [nextKind_cons, hlast]
    decide
  have noLabel : ∀ p, Stops Descent.label ⟨p, [last]⟩ (.ok (none, ⟨p, [last]⟩)) :=
    fun p => stops_label .absent fun _ => hbracket
  refine ⟨?_, ?_, fun t ht => ?_, fun op c hop hs => ⟨fun t ht => ?_, fun t ht => ?_⟩⟩
  · exact (Expr.everywhere_dice.1 (Expr.ofTokens_sound hbare).1).1.2.2.1
  · have hc : Stops (.read .comparison) ⟨keyword :: head.reverse, ls ++ [last]⟩
        (.ok ((.equal, none), ⟨keyword :: head.reverse, ls ++ [last]⟩)) := by
      have hopener : (⟨keyword :: head.reverse, ls ++ [last]⟩ : Cursor).current.kind = .leftBracket := by
        cases hl with
        | words ho => exact ho
      exact stops_bare (by rw [hopener]; rfl) (by rw [hopener]; decide)
    exact goesOn (stops_behindFaces hkind hm (fun _ => rfl) hc (label _) hlast) hlast
  · exact goesOn (stops_behindFaces hkind hm (fun _ => rfl) (stops_number ht) (label _) hlast) hlast
  · have hleaf := stops_leaf (p := op :: keyword :: head.reverse) hl (fun h => by cases h) hparen (.inl ⟨ht, rfl⟩)
    exact goesOn (stops_behindFaces hkind hm hs (stops_operator hop hleaf) (noLabel _) hlast) hlast
  · have hleaf := stops_leaf (p := op :: keyword :: head.reverse) hl (fun h => by cases h) hparen (.inr ⟨ht, rfl⟩)
    have hlength : (op :: keyword :: head.reverse).length = head.length + 2 := by simp
    rw [hlength] at hleaf
    exact goesOn (stops_behindFaces hkind hm hs (stops_operator hop hleaf) (noLabel _) hlast) hlast

theorem ofTokens_label_kept :
    let head : List Token := [⟨.number, "4", 1⟩, ⟨.name, "d", 2⟩, ⟨.number, "6", 3⟩]
    let keyword : Token := ⟨.name, "kh", 4⟩
    let value : Token := ⟨.number, "3", 6⟩
    let ls : List Token := [⟨.leftBracket, "[", 7⟩, ⟨.name, "w", 8⟩, ⟨.rightBracket, "]", 9⟩]
    ∃ count faces : Expr, faces.headLabel = none ∧
      Expr.ofTokens (head ++ keyword :: (ls ++ [endAt 10])) =
        .ok (.dice 1 count faces (some "w") .keepHighest .equal (.value Rule.one)) ∧
      Expr.ofTokens (head ++ keyword :: value :: (ls ++ [endAt 10])) =
        .ok (.dice 1 count faces (some "w") .keepHighest .equal (.value (.literal (some (.number value.number)) none))) ∧
      Expr.ofTokens (head ++ keyword :: ⟨.assign, "=", 5⟩ :: value :: (ls ++ [endAt 10])) =
        .ok (.dice 1 count faces none .keepHighest .equal
          (.value (.literal (some (.number value.number)) (some "w")))) := by
  intro head keyword value ls
  have hl : Labels (some "w") ls := by
    have hwords := Labels.words (show (⟨.leftBracket, "[", 7⟩ : Token).kind = .leftBracket from rfl)
      (show ∀ t ∈ [(⟨.name, "w", 8⟩ : Token)], t.kind = .name by decide)
      (show (⟨.rightBracket, "]", 9⟩ : Token).kind = .rightBracket from rfl)
    exact hwords
  have hread : Expr.ofTokens (head ++ [keyword, endAt 10]) =
      .ok (.dice 1 (.literal (some (.number (Token.number ⟨.number, "4", 1⟩))) none)
        (.literal (some (.number (Token.number ⟨.number, "6", 3⟩))) none) none .keepHighest .equal
        (Rule.targetOf .keepHighest none)) := rfl
  obtain ⟨hfaces, hbare, hnumber, hoperator⟩ := ofTokens_label (by decide) (by decide) rfl rfl hl hread
  exact ⟨_, _, hfaces, hbare, hnumber value rfl, (hoperator _ .equal rfl fun _ => rfl).1 value rfl⟩

/-- The same value behind the same keyword, once as a number alone and once behind an operator: the label of the one is
the dice's, that of the other the value's. -/
theorem label_of_written_value : ∃ (count faces : Expr) (value : Option Value),
    Expr.ofText "4d6kh3[w]" = .ok (.dice 1 count faces (some "w") .keepHighest .equal (.value (.literal value none))) ∧
      Expr.ofText "4d6kh=3[w]" =
        .ok (.dice 1 count faces none .keepHighest .equal (.value (.literal value (some "w")))) ∧
      Expr.ofText "4d6kh3[w]" ≠ Expr.ofText "4d6kh=3[w]" := by
  have hbehind : Token.scan "4d6kh3[w]" = .ok [⟨.number, "4", 1⟩, ⟨.name, "d", 2⟩, ⟨.number, "6", 3⟩,
      ⟨.name, "kh", 4⟩, ⟨.number, "3", 6⟩, ⟨.leftBracket, "[", 7⟩, ⟨.name, "w", 8⟩, ⟨.rightBracket, "]", 9⟩,
      endAt 10] := by decide +kernel
  have hcompared : Token.scan "4d6kh=3[w]" = .ok [⟨.number, "4", 1⟩, ⟨.name, "d", 2⟩, ⟨.number, "6", 3⟩,
      ⟨.name, "kh", 4⟩, ⟨.assign, "=", 6⟩, ⟨.number, "3", 7⟩, ⟨.leftBracket, "[", 8⟩, ⟨.name, "w", 9⟩,
      ⟨.rightBracket, "]", 10⟩, endAt 11] := by decide +kernel
  have hfirst : Expr.ofText "4d6kh3[w]" = .ok (.dice 1 (.literal (some (.number (Token.number ⟨.number, "4", 1⟩))) none)
      (.literal (some (.number (Token.number ⟨.number, "6", 3⟩))) none) (some "w") .keepHighest .equal
      (.value (.literal (some (.number (Token.number ⟨.number, "3", 6⟩))) none))) := by
    rw [Expr.ofText, hbehind]
    rfl
  have hsecond : Expr.ofText "4d6kh=3[w]" = .ok (.dice 1 (.literal (some (.number (Token.number ⟨.number, "4", 1⟩))) none)
      (.literal (some (.number (Token.number ⟨.number, "6", 3⟩))) none) none .keepHighest .equal
      (.value (.literal (some (.number (Token.number ⟨.number, "3", 6⟩))) (some "w")))) := by
    rw [Expr.ofText, hcompared]
    rfl
  refine ⟨_, _, _, hfirst, hsecond, fun h => ?_⟩
  rw [hfirst, hsecond] at h
  cases h

end Descent

end DiceNotation
