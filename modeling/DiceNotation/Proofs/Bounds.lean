import DiceNotation.Proofs.Ending

/-!
Reading ends, and what it ends with.

The bound of a rule is the number of tokens before the end of input that are left, and each rule passes a token before
it comes back to itself. So the rule with the bound does what the rule without it does, and that rule ends.

Main statement: `Descent.ofTokens_ends`.
-/

namespace DiceNotation

open Token Token.Cursor

namespace Rule

/-- What the rule of a level gives is on that level. -/
theorem reads_ruleAt (n : Nat) (l : Level) : (ruleAt n l).Ensures (Reads l) := by
  have hi := sound_inner n
  have chain : ∀ {l : Level}, .equality ≤ l ∧ l ≤ .factor → (ruleAt n l.tighter).Ensures (Reads l.tighter) →
      (ruleAt n l).Ensures (Reads l) := by
    intro l hl ht
    rw [ruleAt_chain n hl]
    exact ensures_level (fun k hk => mem_operators_iff.1 hk) (by cases l <;> revert hl <;> decide) ht n
  have hfactor := chain (l := .factor) (by decide) (ensures_dice hi n)
  have hterm := chain (l := .term) (by decide) hfactor
  have hordering := chain (l := .ordering) (by decide) hterm
  have hequality := chain (l := .equality) (by decide) hordering
  cases l with
  | choice => exact ensures_choice hi n
  | equality => exact hequality
  | ordering => exact hordering
  | term => exact hterm
  | factor => exact hfactor
  | dice => exact ensures_dice hi n
  | sign => exact ensures_signed hi n (n + 1)
  | call => exact fun c e c' h => (ensures_call hi true n h).1

end Rule

namespace Descent

variable {α : Type} {c c' : Cursor} {tail : List Token} {t : Token}

/-! ### Rules -/

/-- The rules for what is nested do what the programs do, with as many tokens left as their bound is. -/
structure Nested (tail : List Token) (n : Nat) : Prop where
  expr : ∀ ⦃c⦄, Fits tail n c → Agrees tail c (.read (.level .choice)) (Rule.inner n).expr
  call : ∀ ⦃c⦄, Fits tail n c → Agrees tail c (.read (.call true)) (Rule.inner n).call

theorem ofNonterminal_chain {l : Level} (hl : .equality ≤ l ∧ l ≤ .factor) :
    ofNonterminal (.level l) = read (.level l.tighter) >>= fun left => read (.binaryChain l left) := by
  cases l <;> first | rfl | exact absurd hl (by decide)

namespace Agrees

open Rule (skip_eq_ok skip_other sees_eq_ok sees_other seesDice_eq_ok seesDice_other next_eq_ok)

variable {n k : Nat}

section Modifiers

variable {value : Rule Expr} (hv : ∀ ⦃c⦄, Fits tail n c → Agrees tail c (.read (.call true)) value)

include hv

theorem comparison (hf : Fits tail n c) : Agrees tail c (.read .comparison) (Rule.comparison value) := by
  refine .read (.get (.current ?_))
  rw [kind_endedBy hf.kind]
  cases ho : Rule.comparisonOf? c.current.kind with
  | some comparison =>
    have hkind : c.current.kind ≠ .endOfInput := fun h => by rw [h] at ho; cases ho
    refine (next hf hkind).bind fun op c₁ ts h₁ hp₁ => ?_
    refine (hv (hf.after hp₁)).bind fun e c₂ us h₂ hp₂ => ?_
    exact give ..
  | none =>
    refine (sees hf _).bind fun b c₁ ts h₁ hp₁ => ?_
    obtain ⟨hb, rfl⟩ := sees_eq_ok h₁
    cases b with
    | false => exact give ..
    | true =>
      have hkind : c₁.current.kind = .number := by simpa using hb.symm
      refine (next hf (by simp [hkind])).bind fun t c₂ us h₂ hp₂ => ?_
      exact give ..

theorem diceModifier (hf : Fits tail n c) (hc : c.current.kind ≠ .endOfInput) :
    Agrees tail c (.read .diceModifier) (Rule.diceModifier value) := by
  refine .read ((next hf hc).bind fun keyword c₁ ts h₁ hp₁ => ?_)
  obtain ⟨rfl, hp⟩ := next_eq_ok h₁ hc
  cases hw : Modifier.ofKeyword? c.current.lexeme with
  | none =>
    exact fail _ (endedBy_of_ne hc tail).symm (hp.tells_iff.2 (tells_current c))
  | some modifier =>
    have hf₁ := hf.after hp₁
    refine .get (.current ?_)
    refine (comparison hv hf₁).bind fun r c₂ us h₂ hp₂ => ?_
    rw [hf₁.lexeme_current]
    dsimp only
    split
    · exact fail _ rfl (hp₂.tells_iff.2 (tells_current c₁))
    · exact give ..

theorem optionalModifier (hf : Fits tail n c) :
    Agrees tail c (.read .optionalModifier) (Rule.optionalModifier value) := by
  refine .read ((sees hf _).bind fun b c₁ ts h₁ hp₁ => ?_)
  obtain ⟨hb, rfl⟩ := sees_eq_ok h₁
  cases b with
  | false => exact give ..
  | true => exact diceModifier hv hf fun h => by rw [h] at hb; cases hb

theorem poolModifier (hf : Fits tail n c) : Agrees tail c (.read .poolModifier) (Rule.poolModifier value) := by
  refine .read (.get (.current ?_))
  rw [kind_endedBy hf.kind, hf.lexeme_current]
  dsimp only
  cases hw : if c.current.kind = .name then Modifier.ofPoolKeyword? c.current.lexeme else none with
  | none => exact fail _ rfl (tells_current c)
  | some modifier =>
    have hkind : c.current.kind ≠ .endOfInput := fun h => by simp [h] at hw
    refine (next hf hkind).bind fun keyword c₁ ts h₁ hp₁ => ?_
    refine (comparison hv (hf.after hp₁)).bind fun r c₂ us h₂ hp₂ => ?_
    exact give ..

end Modifiers

section Nested

variable (hi : Nested tail n)

include hi

theorem commaExprs (hf : Fits tail n c) (hk : c.left ≤ k) :
    Agrees tail c (.read .commaExprs) (Rule.commaExprs (Rule.inner n) k) := by
  induction k generalizing c with
  | zero =>
    have hcomma : c.current.kind ≠ .comma := by
      rw [kind_of_left hk]
      decide
    exact .read (.stay (skip hf (by decide)) (skip_other hcomma) (give ..))
  | succ k ih =>
    refine .read ((skip hf (by decide)).bind fun b c₁ ts h₁ hp₁ => ?_)
    rcases skip_eq_ok (by decide) h₁ with ⟨rfl, comma, -, hp⟩ | ⟨rfl, rfl⟩
    · have hf₁ := hf.after hp
      refine (hi.expr hf₁).bind fun e c₂ us h₂ hp₂ => ?_
      have hk₂ : c₂.left ≤ k := Nat.le_trans hp₂.left_le (hp.left_le_of_ne (List.cons_ne_nil _ _) hk)
      refine (ih (hf₁.after hp₂) hk₂).bind fun es c₃ vs h₃ hp₃ => ?_
      exact give ..
    · exact give ..

theorem exprsUpTo (closer : Kind) (hf : Fits tail n c) (hk : c.left ≤ k) :
    Agrees tail c (.read (.exprsUpTo closer)) (Rule.exprsUpTo closer (Rule.inner n) k) := by
  refine .read ((sees hf _).bind fun b c₁ ts h₁ hp₁ => ?_)
  obtain ⟨-, rfl⟩ := sees_eq_ok h₁
  cases b with
  | true => exact give ..
  | false =>
    refine (hi.expr hf).bind fun e c₂ us h₂ hp₂ => ?_
    refine (commaExprs hi (hf.after hp₂) (Nat.le_trans hp₂.left_le hk)).bind fun es c₃ vs h₃ hp₃ => ?_
    exact give ..

theorem primaryFrom (labelled : Bool) (position : Nat) (t : Token) (hf : Fits tail n c) :
    Agrees tail c (.read (.primaryFrom labelled position t))
      (Rule.primaryFrom (Rule.inner n) labelled n position t) := by
  refine .read ?_
  rw [ofNonterminal, Rule.primaryFrom]
  cases t.kind with
  | number =>
    refine (labelIf hf labelled).bind fun l c₁ ts h₁ hp₁ => ?_
    exact give ..
  | substitution =>
    refine (labelIf hf labelled).bind fun l c₁ ts h₁ hp₁ => ?_
    exact give ..
  | leftBrace =>
    refine (exprsUpTo hi .rightBrace hf hf.left).bind fun entries c₁ ts h₁ hp₁ => ?_
    have hf₁ := hf.after hp₁
    refine (expect hf₁ (by decide) _).bind fun closer c₂ us h₂ hp₂ => ?_
    refine (poolModifier hi.call (hf₁.after hp₂)).bind fun r c₃ vs h₃ hp₃ => ?_
    exact give ..
  | leftParen =>
    refine (hi.expr hf).bind fun e c₁ ts h₁ hp₁ => ?_
    refine (expect (hf.after hp₁) (by decide) _).bind fun closer c₂ us h₂ hp₂ => ?_
    exact give ..
  | _ => exact give ..

theorem primary (labelled : Bool) (hf : Fits tail (n + 1) c) :
    Agrees tail c (.read (.primary labelled)) (Rule.primary (Rule.inner n) labelled n) := by
  refine .read (.get (.current ?_))
  rw [kind_endedBy hf.kind]
  by_cases hend : c.current.kind = .endOfInput
  · rw [if_pos hend, if_pos hend]
    exact fail _ rfl (tells_current c)
  · rw [if_neg hend, if_neg hend]
    refine .peek rfl ((next hf hend).bind fun t c₁ ts h₁ hp₁ => ?_)
    obtain ⟨-, hp⟩ := next_eq_ok h₁ hend
    exact primaryFrom hi labelled c.position t (hf.behind hp (List.cons_ne_nil _ _))

theorem applications (callee : Expr) (hf : Fits tail n c) (hk : c.left ≤ k) :
    Agrees tail c (.read (.applications callee)) (Rule.applications (Rule.inner n) k callee) := by
  induction k generalizing callee c with
  | zero =>
    have hopener : c.current.kind ∉ [Kind.leftParen] := by
      rw [kind_of_left hk]
      decide
    exact .read (.stay (sees hf _) (sees_other hopener) (give ..))
  | succ k ih =>
    refine .read ((sees hf _).bind fun b c₁ ts h₁ hp₁ => ?_)
    obtain ⟨hb, rfl⟩ := sees_eq_ok h₁
    cases b with
    | false => exact give ..
    | true =>
      have hkind : c₁.current.kind = .leftParen := by simpa using hb.symm
      have hne : c₁.current.kind ≠ .endOfInput := by simp [hkind]
      refine .get (.peek rfl ((next hf hne).bind fun opener c₂ us h₂ hp₂ => ?_))
      obtain ⟨-, hp⟩ := next_eq_ok h₂ hne
      have hf₂ := hf.after hp
      have hk₂ : c₂.left ≤ k := hp.left_le_of_ne (List.cons_ne_nil _ _) hk
      refine (exprsUpTo hi .rightParen hf₂ hk₂).bind fun arguments c₃ vs h₃ hp₃ => ?_
      have hf₃ := hf₂.after hp₃
      refine (expect hf₃ (by decide) _).bind fun closer c₄ ws h₄ hp₄ => ?_
      exact ih _ (hf₃.after hp₄) (Nat.le_trans (hp₃.trans hp₄).left_le hk₂)

theorem call (labelled : Bool) (hf : Fits tail (n + 1) c) :
    Agrees tail c (.read (.call labelled)) (Rule.call (Rule.inner n) labelled n) := by
  refine .read ((primary hi labelled hf).bind fun callee c₁ ts h₁ hp₁ => ?_)
  have hread := (Rule.ensures_primary (Rule.sound_inner n) labelled n h₁).1
  have hf₁ := hf.of_reads hread
  exact applications hi callee hf₁ hf₁.left

theorem signed (hf : Fits tail (n + 1) c) (hk : c.left ≤ k) :
    Agrees tail c (.read (.level .sign)) (Rule.signed (Rule.inner n) n k) := by
  induction k generalizing c with
  | zero =>
    have hsign : c.current.kind ∉ [Kind.bang, .minus] := by
      rw [kind_of_left hk]
      decide
    refine .read (.stay (sees hf _) (sees_other hsign) ?_)
    exact call hi true hf
  | succ k ih =>
    refine .read ((sees hf _).bind fun b c₁ ts h₁ hp₁ => ?_)
    obtain ⟨hb, rfl⟩ := sees_eq_ok h₁
    cases b with
    | false => exact call hi true hf
    | true =>
      have hne : c₁.current.kind ≠ .endOfInput := fun h => by rw [h] at hb; cases hb
      refine (next hf hne).bind fun op c₂ us h₂ hp₂ => ?_
      obtain ⟨-, hp⟩ := next_eq_ok h₂ hne
      refine (ih (hf.after hp) (hp.left_le_of_ne (List.cons_ne_nil _ _) hk)).bind fun operand c₃ vs h₃ hp₃ => ?_
      exact give ..

theorem diceChain (count : Expr) (hf : Fits tail n c) (hk : c.left ≤ k) :
    Agrees tail c (.read (.diceChain count)) (Rule.diceChain (Rule.inner n) n k count) := by
  induction k generalizing count c with
  | zero =>
    have hname : c.current.kind ≠ .name := by
      rw [kind_of_left hk]
      decide
    exact .read (.stay (seesDice hf) (seesDice_other hname) (give ..))
  | succ k ih =>
    refine .read ((seesDice hf).bind fun b c₁ ts h₁ hp₁ => ?_)
    obtain ⟨hb, rfl⟩ := seesDice_eq_ok h₁
    cases b with
    | false => exact give ..
    | true =>
      have hne : c₁.current.kind ≠ .endOfInput := by simp [(hb rfl).1]
      refine .get (.peek rfl ((next hf hne).bind fun die c₂ us h₂ hp₂ => ?_))
      obtain ⟨-, hp⟩ := next_eq_ok h₂ hne
      have hf₂ := hf.after hp
      have hk₂ : c₂.left ≤ k := hp.left_le_of_ne (List.cons_ne_nil _ _) hk
      refine (call hi false hf₂.weaken).bind fun faces c₃ vs h₃ hp₃ => ?_
      have hf₃ := hf₂.after hp₃
      have hvalue : ∀ ⦃c⦄, Fits tail n c → Agrees tail c (.read (.call true)) (Rule.call (Rule.inner n) true n) :=
        fun _ hf => call hi true hf.weaken
      refine (optionalModifier hvalue hf₃).bind fun r c₄ ws h₄ hp₄ => ?_
      have hf₄ := hf₃.after hp₄
      refine (label hf₄).bind fun l c₅ xs h₅ hp₅ => ?_
      exact ih _ (hf₄.after hp₅) (Nat.le_trans (hp₃.trans (hp₄.trans hp₅)).left_le hk₂)

theorem dice (hf : Fits tail (n + 1) c) :
    Agrees tail c (.read (.level .dice)) (Rule.dice (Rule.inner n) n) := by
  refine .read ((signed hi hf hf.left).bind fun count c₁ ts h₁ hp₁ => ?_)
  have hf₁ := hf.of_reads (Rule.ensures_signed (Rule.sound_inner n) n (n + 1) h₁)
  exact diceChain hi count hf₁ hf₁.left

end Nested

section Chain

variable {l : Level} {operand : Rule Expr}
  (ho : ∀ ⦃c⦄, Fits tail (n + 1) c → Agrees tail c (.read (.level l.tighter)) operand)

include ho

theorem binaryChain (left : Expr) (hf : Fits tail n c) (hk : c.left ≤ k) :
    Agrees tail c (.read (.binaryChain l left)) (Rule.binaryChain l.operators operand k left) := by
  induction k generalizing left c with
  | zero =>
    have hoperator : c.current.kind ∉ l.operators := by
      rw [kind_of_left hk]
      cases l <;> decide
    exact .read (.stay (sees hf _) (sees_other hoperator) (give ..))
  | succ k ih =>
    refine .read ((sees hf _).bind fun b c₁ ts h₁ hp₁ => ?_)
    obtain ⟨hb, rfl⟩ := sees_eq_ok h₁
    cases b with
    | false => exact give ..
    | true =>
      have hne : c₁.current.kind ≠ .endOfInput := fun h => by rw [h] at hb; cases l <;> cases hb
      refine (next hf hne).bind fun op c₂ us h₂ hp₂ => ?_
      obtain ⟨-, hp⟩ := next_eq_ok h₂ hne
      have hf₂ := hf.after hp
      refine (ho hf₂.weaken).bind fun right c₃ vs h₃ hp₃ => ?_
      exact ih _ (hf₂.after hp₃) (Nat.le_trans hp₃.left_le (hp.left_le_of_ne (List.cons_ne_nil _ _) hk))

end Chain

/-- **With its bound, the rule of a level does what it does without.** -/
theorem level (hi : Nested tail n) (l : Level) :
    ∀ ⦃c⦄, Fits tail (n + 1) c → Agrees tail c (.read (.level l)) (Rule.ruleAt n l) := by
  have chain : ∀ {l : Level}, .equality ≤ l ∧ l ≤ .factor →
      (∀ ⦃c⦄, Fits tail (n + 1) c → Agrees tail c (.read (.level l.tighter)) (Rule.ruleAt n l.tighter)) →
        ∀ ⦃c⦄, Fits tail (n + 1) c → Agrees tail c (.read (.level l)) (Rule.ruleAt n l) := by
    intro l hl ho c hf
    refine .read ?_
    rw [ofNonterminal_chain hl, Rule.ruleAt_chain n hl]
    refine (ho hf).bind fun left c₁ ts h₁ hp₁ => ?_
    have hf₁ := hf.of_reads (Rule.reads_ruleAt n l.tighter h₁)
    exact binaryChain ho left hf₁ hf₁.left
  have hdice : ∀ ⦃c⦄, Fits tail (n + 1) c → Agrees tail c (.read (.level .dice)) (Rule.ruleAt n .dice) :=
    fun _ hf => dice hi hf
  have hfactor := chain (l := .factor) (by decide) hdice
  have hterm := chain (l := .term) (by decide) hfactor
  have hordering := chain (l := .ordering) (by decide) hterm
  have hequality := chain (l := .equality) (by decide) hordering
  cases l with
  | choice =>
    intro c hf
    refine .read ((hequality hf).bind fun condition c₁ ts h₁ hp₁ => ?_)
    have hf₁ := hf.of_reads (Rule.reads_ruleAt n .equality h₁)
    refine (skip hf₁ (by decide)).bind fun b c₂ us h₂ hp₂ => ?_
    have hf₂ := hf₁.after hp₂
    cases b with
    | false => exact give ..
    | true =>
      refine (hi.expr hf₂).bind fun consequent c₃ vs h₃ hp₃ => ?_
      have hf₃ := hf₂.after hp₃
      refine (expect hf₃ (by decide) _).bind fun colon c₄ ws h₄ hp₄ => ?_
      refine (hi.expr (hf₃.after hp₄)).bind fun alternative c₅ xs h₅ hp₅ => ?_
      exact give ..
  | equality => exact hequality
  | ordering => exact hordering
  | term => exact hterm
  | factor => exact hfactor
  | dice => exact hdice
  | sign => exact fun _ hf => signed hi hf hf.left
  | call => exact fun _ hf => .read (call hi true hf)

/-- Where nothing is left, every rule for an expression finds it missing. -/
theorem missing (hf : Fits tail 0 c) {y : Descent Expr} (hy : ∀ ⦃c : Cursor⦄, c.current.kind = .endOfInput →
    Stops y c (.error ⟨.noExpression, c.current⟩)) : Agrees tail c y (Rule.inner 0).expr where
  ends := by
    have hend := (kind_current_endedBy hf.kind c).trans (kind_of_left hf.left)
    have hstops := hy hend
    rw [current_endedBy] at hstops
    exact hstops
  passes _ _ h := by cases h
  tells _ h := by
    cases h
    exact tells_current c

end Agrees

section AtEnd

variable (h : c.current.kind = .endOfInput)

include h

theorem primary_of_end (labelled : Bool) :
    Stops (.read (.primary labelled)) c (.error ⟨.noExpression, c.current⟩) := by
  refine .read (.andThen (.step _ _) ?_)
  rw [if_pos h]
  exact .fail ..

theorem call_of_end (labelled : Bool) : Stops (.read (.call labelled)) c (.error ⟨.noExpression, c.current⟩) :=
  .read (.error (primary_of_end h labelled))

theorem level_of_end (l : Level) : Stops (.read (.level l)) c (.error ⟨.noExpression, c.current⟩) := by
  have hsign : Stops (.read (.level .sign)) c (.error ⟨.noExpression, c.current⟩) := by
    have hsees : c.current.kind ∉ [Kind.bang, .minus] := by
      rw [h]
      decide
    exact .read (.andThen (.of_eq (Rule.sees_other hsees)) (call_of_end h true))
  have hdice := Stops.read (x := .level .dice) (.error hsign)
  have hfactor := Stops.read (x := .level .factor) (.error hdice)
  have hterm := Stops.read (x := .level .term) (.error hfactor)
  have hordering := Stops.read (x := .level .ordering) (.error hterm)
  have hequality := Stops.read (x := .level .equality) (.error hordering)
  cases l with
  | choice => exact .read (.error hequality)
  | equality => exact hequality
  | ordering => exact hordering
  | term => exact hterm
  | factor => exact hfactor
  | dice => exact hdice
  | sign => exact hsign
  | call => exact .read (call_of_end h true)

end AtEnd

theorem nested (tail : List Token) (n : Nat) : Nested tail n := by
  induction n with
  | zero => exact ⟨fun _ hf => .missing hf fun _ h => level_of_end h .choice, fun _ hf => .missing hf fun _ h =>
      call_of_end h true⟩
  | succ n ih => exact ⟨Agrees.level ih .choice, fun _ hf => Agrees.call ih true hf⟩

/-! ### In its own ending -/

/-- In its own ending a cursor stays what it is. -/
theorem Fits.own {n : Nat} (h : c.left ≤ n) : Fits (ending c.ahead) n c := ⟨h, nextKind_ending _, rfl⟩

theorem endedBy_of_tells (h : c.Tells t) : t.endedBy (ending c.ahead) = t := by
  rcases h with ⟨-, hkind⟩ | rfl
  · exact endedBy_of_ne hkind _
  · exact if_pos (nextKind_ending c.ahead)

theorem Agrees.own {y : Descent α} {x : Rule α} (h : Agrees (ending c.ahead) c y x) : Stops y c (x c) := by
  have hends := h.ends
  rw [endedBy_self] at hends
  have hsame : retail (ending c.ahead) (x c) = x c := by
    cases hx : x c with
    | error e =>
      show Except.error (e.endedBy _) = _
      rw [ParseError.endedBy, endedBy_of_tells (h.tells hx)]
    | ok r =>
      obtain ⟨ts, hp⟩ := h.passes hx
      show Except.ok (r.1, r.2.endedBy _) = _
      rw [← hp.ending_eq, endedBy_self]
  rwa [hsame] at hends

/-- The program ends as the rule does, if the bound of the rule allows what is left behind the first token. And it
takes a token at least, but no end of input, to give an expression. -/
structure Advances (y : Descent Expr) (x : Nat → Rule Expr) : Prop where
  stops : ∀ c n, c.left ≤ n + 1 → Stops y c (x n c)
  passes : ∀ ⦃c n e c'⦄, x n c = .ok (e, c') → ∃ t ts, Passes c (t :: ts) c'

theorem Advances.of_reads {y : Descent Expr} {x : Nat → Rule Expr} {l : Level}
    (hy : ∀ ⦃tail n c⦄, Fits tail (n + 1) c → Agrees tail c y (x n)) (hx : ∀ n, (x n).Ensures (Rule.Reads l)) :
    Advances y x where
  stops _ _ h := (hy (.own h)).own
  passes c n e c' h := by
    obtain ⟨ts, hp, hs⟩ := (hx n h).spelled
    obtain ⟨t, ts, rfl⟩ := List.exists_cons_of_ne_nil hs.ne_nil
    exact ⟨t, ts, hp⟩

theorem advances_level (l : Level) : Advances (.read (.level l)) (Rule.ruleAt · l) :=
  .of_reads (fun _ n _ hf => Agrees.level (nested _ n) l hf) fun n => Rule.reads_ruleAt n l

theorem advances_call (labelled : Bool) :
    Advances (.read (.call labelled)) fun n => Rule.call (Rule.inner n) labelled n :=
  .of_reads (fun _ n _ hf => Agrees.call (nested _ n) labelled hf) fun n _ _ _ h =>
    (Rule.ensures_call (Rule.sound_inner n) labelled n h).1

theorem advances_primary (labelled : Bool) :
    Advances (.read (.primary labelled)) fun n => Rule.primary (Rule.inner n) labelled n :=
  .of_reads (fun _ n _ hf => Agrees.primary (nested _ n) labelled hf) fun n _ _ _ h =>
    (Rule.ensures_primary (Rule.sound_inner n) labelled n h).1

/-! ### Whole inputs -/

end Descent

/-- The rule for a whole input. -/
def Rule.wholeInput (n : Nat) : Rule Expr := do
  let e ← expr n
  let cursor ← get
  if cursor.sees [.endOfInput] then return e
  else fail .trailingTokens cursor.current

theorem Expr.ofTokens_eq (tokens : List Token) :
    ofTokens tokens = (Rule.wholeInput tokens.length (.start tokens)).map Prod.fst := by
  unfold ofTokens Rule.wholeInput
  cases hx : Rule.expr tokens.length (.start tokens) with
  | error e =>
    show _ = Except.map Prod.fst (Rule.expr _ _ >>= _)
    rw [hx]
    rfl
  | ok r =>
    show _ = Except.map Prod.fst (Rule.expr _ _ >>= _)
    rw [hx]
    show (if _ then _ else _) = Except.map Prod.fst ((if _ then _ else _ : Rule Expr) _)
    split <;> rfl

namespace Descent

variable {n : Nat} {c : Cursor} {tail : List Token}

theorem Agrees.wholeInput (hf : Fits tail n c) : Agrees tail c wholeInput (Rule.wholeInput n) := by
  refine ((nested tail n).expr hf).bind fun e c₁ ts h₁ hp₁ => ?_
  refine .get (.current ?_)
  rw [kind_endedBy hf.kind]
  by_cases hend : c₁.current.kind = .endOfInput
  · rw [if_pos hend, if_pos (Rule.sees_iff.2 hend)]
    exact .give ..
  · rw [if_neg hend, if_neg fun h => hend (Rule.sees_iff.1 h)]
    exact .fail _ rfl (tells_current c₁)

theorem fits_start (tokens : List Token) : Fits (ending tokens) tokens.length (.start tokens) :=
  Fits.own (c := .start tokens) (List.takeWhile_prefix _).length_le

/-- Another end of input changes nothing but itself. -/
theorem ofTokens_append {tokens : List Token} {last : Token} (hts : ∀ t ∈ tokens, t.kind ≠ .endOfInput)
    (hlast : last.kind = .endOfInput) (hlexeme : last.lexeme = "") (more : List Token) :
    Expr.ofTokens (tokens ++ last :: more) = (Expr.ofTokens tokens).mapError (·.endedBy (last :: more)) := by
  have hcontent : content tokens = tokens := by simpa [content] using content_append hts []
  have hending : ending tokens = [] := by simpa [ending] using ending_append hts []
  have hstart : (Cursor.start tokens).endedBy (last :: more) = .start (tokens ++ last :: more) := by
    show (⟨[], content tokens ++ _⟩ : Cursor) = _
    rw [hcontent]
    rfl
  have hf : Fits (last :: more) tokens.length (.start tokens) := by
    refine ⟨(fits_start tokens).left, hlast, hlexeme.trans ?_⟩
    show _ = ((ending tokens).headD _).lexeme
    rw [hending]
    rfl
  have hends := (Agrees.wholeInput hf).ends
  rw [hstart] at hends
  have hsame := hends.unique (Agrees.wholeInput (fits_start (tokens ++ last :: more))).own
  rw [Expr.ofTokens_eq, Expr.ofTokens_eq, ← hsame]
  cases Rule.wholeInput tokens.length (.start tokens) <;> rfl

/-- **Reading ends**, for any tokens. The rules without bounds come to the same end as the reading. An error tells one
of the tokens, with no end of input before it, or the end behind all of them. The rules of the levels, of calls and of
primaries end from every cursor as well, and give an expression only for a token at least that they pass, and never an
end of input. Behind tokens without an end of input, one without text and whatever follows it change neither the
expression nor the error, but for the place that it tells. -/
theorem ofTokens_ends (tokens : List Token) :
    (∃ r, Stops wholeInput (.start tokens) r ∧ Expr.ofTokens tokens = r.map Prod.fst) ∧
    (∀ e, Expr.ofTokens tokens = .error e → ∃ passed ahead, tokens = passed ++ ahead ∧
      (∀ t ∈ passed, t.kind ≠ .endOfInput) ∧ e.token = ahead.headD (endAt 0)) ∧
    (∀ l, Advances (.read (.level l)) (Rule.ruleAt · l)) ∧
    (∀ labelled, Advances (.read (.call labelled)) fun n => Rule.call (Rule.inner n) labelled n) ∧
    (∀ labelled, Advances (.read (.primary labelled)) fun n => Rule.primary (Rule.inner n) labelled n) ∧
    ((∀ t ∈ tokens, t.kind ≠ .endOfInput) → ∀ last more, last.kind = .endOfInput → last.lexeme = "" →
      (Expr.ofTokens (tokens ++ last :: more)).mapError ParseError.cause =
        (Expr.ofTokens tokens).mapError ParseError.cause) := by
  have hwhole := Agrees.wholeInput (fits_start tokens)
  refine ⟨⟨_, hwhole.own, Expr.ofTokens_eq tokens⟩, fun e he => ?_, advances_level, advances_call, advances_primary,
    fun hts last more hlast hlexeme => ?_⟩
  · rw [Expr.ofTokens_eq] at he
    cases hx : Rule.wholeInput tokens.length (.start tokens) with
    | ok r => rw [hx] at he; cases he
    | error e' =>
      rw [hx] at he
      cases he
      rcases hwhole.tells hx with ⟨hmem, -⟩ | hlast
      · obtain ⟨passed, ahead, happend⟩ := List.append_of_mem (show e.token ∈ content tokens from hmem)
        refine ⟨passed, e.token :: ahead ++ ending tokens, ?_, fun t ht => ?_, rfl⟩
        · rw [← List.append_assoc, ← happend, content_append_ending]
        · exact kind_ne_of_mem_content (happend ▸ List.mem_append_left _ ht)
      · exact ⟨content tokens, ending tokens, (content_append_ending tokens).symm,
          fun t ht => kind_ne_of_mem_content ht, hlast⟩
  · rw [ofTokens_append hts hlast hlexeme]
    cases Expr.ofTokens tokens <;> rfl

/-- A pool without its modifier: what is missing is told of the end of input, and what stands behind it is not read. -/
theorem ofTokens_ends_pool :
    let tokens : List Token := [⟨.leftBrace, "\x7b", 1⟩, ⟨.number, "1", 2⟩, ⟨.rightBrace, "\x7d", 3⟩]
    Expr.ofTokens tokens = .error ⟨.noPoolModifier "", endAt 0⟩ ∧ (∃ r, Stops wholeInput (.start tokens) r) ∧
      (∃ passed ahead, tokens = passed ++ ahead ∧ (∀ t ∈ passed, t.kind ≠ .endOfInput) ∧
        endAt 0 = ahead.headD (endAt 0)) ∧
      (Expr.ofTokens (tokens ++ endAt 4 :: tokens)).mapError ParseError.cause = .error (.noPoolModifier "") := by
  intro tokens
  obtain ⟨⟨r, hstops, -⟩, htells, -, -, -, hmore⟩ := ofTokens_ends tokens
  have herror : Expr.ofTokens tokens = .error ⟨.noPoolModifier "", endAt 0⟩ := rfl
  refine ⟨herror, ⟨r, hstops⟩, htells _ herror, ?_⟩
  rw [hmore (by decide) (endAt 4) tokens rfl rfl, herror]
  rfl

end Descent

end DiceNotation
