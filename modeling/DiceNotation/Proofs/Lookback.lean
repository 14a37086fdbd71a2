import DiceNotation.Proofs.Lookahead

/-!
What a program sees of the tokens behind it.

A program sees how many tokens it has passed. The last of them it sees only where a call looks for the end of its
callee, and that callee it has read itself. So what is read behind a token does not depend on which token that is.

Main statement: `Descent.Guarded.stops`.
-/

namespace DiceNotation

open Token Token.Cursor

/-! ### Looking back -/

/-- The step looks at the token before the cursor. -/
def Step.looksBack {α : Type} : Step α → Bool
  | .previous => true
  | _ => false

namespace Nonterminal

variable {α : Type}

/-- The rule looks at the token before the cursor from which it starts. -/
def looksBack : Nonterminal α → Bool
  | .applications _ => true
  | _ => false

/-- Dice within what the rule reads stand in brackets. -/
def encloses : Nonterminal α → Bool
  | .poolModifier | .comparison | .call _ | .applications _ | .primary _ | .primaryFrom .. => true
  | _ => false

end Nonterminal

namespace Descent

variable {α β : Type} {c c' : Cursor} {p ts : List Token}

/-- Wherever the program gives something, it has passed a token. -/
def Moves (x : Descent α) : Prop := ∀ ⦃c a c'⦄, Stops x c (.ok (a, c')) → c'.left < c.left

theorem moves_expect {kind : Kind} (hkind : kind ≠ .endOfInput) (hint : String) :
    Moves (step (.expect kind hint)) := by
  intro c t c' h
  have hleft := (Rule.expect_eq_ok hkind h.of_step.symm).2.left_eq
  rw [List.length_singleton] at hleft
  omega

theorem Moves.bind {x : Descent α} (h : Moves x) (f : α → Descent β) : Moves (x >>= f) := by
  intro c b c' hstops
  obtain ⟨a, c₁, h₁, k₁⟩ := hstops.of_bind
  exact Nat.lt_of_le_of_lt k₁.left_le (h h₁)

theorem moves_primary (labelled : Bool) : Moves (read (.primary labelled)) := by
  intro c e c' h
  have hrule := (advances_primary labelled).stops c c.left (Nat.le_succ _)
  obtain ⟨t, ts, hp⟩ := (advances_primary labelled).passes (h.unique hrule).symm
  have hleft := hp.left_eq
  rw [List.length_cons] at hleft
  omega

/-- A program that is `shy` looks at the token before the cursor only once it has passed another one. If it `encloses`,
it passes some token behind all dice that it reads. -/
inductive Guarded : {α : Type} → Bool → Bool → Descent α → Prop where
  | give {α : Type} {shy encloses : Bool} (a : α) : Guarded shy encloses (.give a)
  | fail {α : Type} {shy encloses : Bool} (cause : ParseError.Cause) (token : Token) :
      Guarded shy encloses (.fail cause token : Descent α)
  | step {α : Type} {shy encloses : Bool} {x : Step α} (h : shy = true → x.looksBack = false) :
      Guarded shy encloses (.step x)
  | read {α : Type} {shy encloses : Bool} {y : Nonterminal α} (h : shy = true → y.looksBack = false)
      (h' : encloses = true → y.encloses = true) : Guarded shy encloses (.read y)
  | andThen {α β : Type} {shy encloses : Bool} {x : Descent α} {f : α → Descent β} (hx : Guarded shy true x)
      (hf : ∀ a, Guarded shy encloses (f a)) : Guarded shy encloses (.andThen x f)
  /-- Behind dice that nothing closes the program is shy. -/
  | loose {α β : Type} {shy encloses : Bool} {x : Descent α} {f : α → Descent β} (hx : Guarded shy false x)
      (hf : ∀ a, Guarded true encloses (f a)) (hm : encloses = true → ∀ a, Moves (f a)) :
      Guarded shy encloses (.andThen x f)
  /-- Behind a token of its own it need not be. -/
  | moved {α β : Type} {shy encloses : Bool} {x : Descent α} {f : α → Descent β} (hx : Guarded shy true x)
      (hm : Moves x) (hf : ∀ a, Guarded false encloses (f a)) : Guarded shy encloses (.andThen x f)

namespace Guarded

variable {shy encloses : Bool} {x y : Descent α}

theorem ite {q : Prop} [Decidable q] (h : Guarded shy encloses x) (h' : Guarded shy encloses y) :
    Guarded shy encloses (if q then x else y) := by
  split
  · exact h
  · exact h'

theorem plain {x : Step α} (h : x.looksBack = false) : Guarded shy encloses (.step x) := .step fun _ => h

theorem nested {y : Nonterminal α} (h : y.looksBack = false) : Guarded shy false (.read y) :=
  .read (fun _ => h) fun h => by cases h

theorem enclosed {y : Nonterminal α} (h : y.looksBack = false) (h' : y.encloses = true) :
    Guarded shy encloses (.read y) :=
  .read (fun _ => h) fun _ => h'

theorem bind {x : Descent α} {f : α → Descent β} (hx : Guarded shy false x) (hf : ∀ a, Guarded true false (f a)) :
    Guarded shy false (x >>= f) :=
  .loose hx hf fun h => by cases h

/-- A program that a token of its own follows. -/
theorem closed {x : Descent α} {f : α → Token → Descent β} {kind : Kind} {hint : String} (hx : Guarded shy false x)
    (hkind : kind ≠ .endOfInput) (hf : ∀ a t, Guarded false encloses (f a t)) :
    Guarded shy encloses (x >>= fun a => Descent.step (.expect kind hint) >>= f a) :=
  .loose hx (fun a => .moved (.plain rfl) (moves_expect hkind hint) (hf a))
    fun _ a => (moves_expect hkind hint).bind (f a)

theorem label : Guarded shy encloses label :=
  .andThen (.plain rfl) fun _ => .ite (.andThen (.plain rfl) fun _ => .andThen (.plain rfl) fun _ => .give _) (.give _)

theorem labelIf (labelled : Bool) : Guarded shy encloses (labelIf labelled) := .ite .label (.give _)

theorem seesDice : Guarded shy encloses seesDice := .andThen (.plain rfl) fun _ => .give _

/-! ### The rules -/

theorem chain {l : Level} (h : .equality ≤ l ∧ l ≤ .factor) :
    Guarded true false (Descent.ofNonterminal (.level l)) := by
  rw [ofNonterminal_chain h]
  exact .bind (.nested rfl) fun _ => .nested rfl

theorem choice : Guarded true false (Descent.ofNonterminal (.level .choice)) :=
  .bind (.nested rfl) fun _ => .andThen (.plain rfl) fun _ =>
    .ite (.closed (.nested rfl) (by decide) fun _ _ => .bind (.nested rfl) fun _ => .give _) (.give _)

theorem sign : Guarded true false (Descent.ofNonterminal (.level .sign)) :=
  .andThen (.plain rfl) fun _ =>
    .ite (.andThen (.plain rfl) fun _ => .bind (.nested rfl) fun _ => .give _) (.nested rfl)

theorem diceChain (count : Expr) : Guarded true false (Descent.ofNonterminal (.diceChain count)) :=
  .andThen .seesDice fun _ => .ite
    (.andThen (.plain rfl) fun _ => .andThen (.plain rfl) fun _ => .bind (.nested rfl) fun _ =>
      .bind (.nested rfl) fun _ => .andThen .label fun _ => .nested rfl)
    (.give _)

theorem diceModifier : Guarded true false (Descent.ofNonterminal .diceModifier) := by
  refine .andThen (.plain rfl) fun keyword => ?_
  split
  · exact .fail ..
  · exact .andThen (.plain rfl) fun _ => .bind (.nested rfl) fun _ => .ite (.fail ..) (.give _)

theorem poolModifier : Guarded true true (Descent.ofNonterminal .poolModifier) := by
  refine .andThen (.plain rfl) fun keyword => ?_
  split
  · exact .fail ..
  · exact .andThen (.plain rfl) fun _ => .andThen (.enclosed rfl rfl) fun _ => .give _

theorem comparison : Guarded true true (Descent.ofNonterminal .comparison) := by
  refine .andThen (.plain rfl) fun token => ?_
  split
  · exact .andThen (.plain rfl) fun _ => .andThen (.enclosed rfl rfl) fun _ => .give _
  · exact .andThen (.plain rfl) fun _ => .ite (.andThen (.plain rfl) fun _ => .give _) (.give _)

theorem applications (callee : Expr) : Guarded false true (Descent.ofNonterminal (.applications callee)) :=
  .andThen (.plain rfl) fun _ => .ite
    (.andThen (.step fun h => by cases h) fun _ => .andThen (.plain rfl) fun _ =>
      .closed (.nested rfl) (by decide) fun _ _ => .read (fun h => by cases h) fun _ => rfl)
    (.give _)

theorem primary (labelled : Bool) : Guarded true true (Descent.ofNonterminal (.primary labelled)) :=
  .andThen (.plain rfl) fun _ => .ite (.fail ..)
    (.andThen (.plain rfl) fun _ => .andThen (.plain rfl) fun _ => .enclosed rfl rfl)

theorem primaryFrom (labelled : Bool) (position : Nat) (token : Token) :
    Guarded true true (Descent.ofNonterminal (.primaryFrom labelled position token)) := by
  rw [Descent.ofNonterminal]
  split
  · exact .give _
  · exact .give _
  · exact .andThen (.labelIf labelled) fun _ => .give _
  · exact .andThen (.labelIf labelled) fun _ => .give _
  · exact .closed (.nested rfl) (by decide) fun _ _ => .andThen (.enclosed rfl rfl) fun _ => .give _
  · exact .closed (.nested rfl) (by decide) fun _ _ => .give _
  · exact .give _

/-- What every rule of the grammar does about the tokens behind it. -/
theorem ofNonterminal (y : Nonterminal α) : Guarded (!y.looksBack) y.encloses (ofNonterminal y) := by
  cases y with
  | level l =>
    cases l with
    | choice => exact .choice
    | dice => exact .bind (.nested rfl) fun _ => .nested rfl
    | sign => exact .sign
    | call => exact .nested rfl
    | _ => exact .chain (by decide)
  | binaryChain l left =>
    exact .andThen (.plain rfl) fun _ => .ite
      (.andThen (.plain rfl) fun _ => .bind (.nested rfl) fun _ => .nested rfl) (.give _)
  | diceChain count => exact .diceChain count
  | optionalModifier => exact .andThen (.plain rfl) fun _ => .ite (.nested rfl) (.give _)
  | diceModifier => exact .diceModifier
  | poolModifier => exact .poolModifier
  | comparison => exact .comparison
  | call labelled =>
    exact .moved (.enclosed rfl rfl) (moves_primary labelled) fun _ => .read (fun h => by cases h) fun _ => rfl
  | applications callee => exact .applications callee
  | primary labelled => exact .primary labelled
  | primaryFrom labelled position token => exact .primaryFrom labelled position token
  | exprsUpTo closer =>
    exact .andThen (.plain rfl) fun _ => .ite (.give _)
      (.bind (.nested rfl) fun _ => .bind (.nested rfl) fun _ => .give _)
  | commaExprs =>
    exact .andThen (.plain rfl) fun _ => .ite
      (.bind (.nested rfl) fun _ => .bind (.nested rfl) fun _ => .give _) (.give _)

end Guarded

/-! ### Behind other tokens -/

/-- What stands before a cursor once tokens have been passed from behind other ones. -/
theorem headD_of_passed (hp : Passes c ts c') (hprevious : ts = [] → p.headD (endAt 0) = c.previous) :
    (ts.reverse ++ p).headD (endAt 0) = c'.previous := by
  rw [previous, hp.passed]
  cases hts : ts.reverse with
  | nil => exact hprevious (List.reverse_eq_nil_iff.1 hts)
  | cons => rfl

theorem advance_behind (hp : Passes c ts c.advance) (p : List Token) :
    (⟨p, c.ahead⟩ : Cursor).advance = ⟨ts.reverse ++ p, c.advance.ahead⟩ := by
  have hpassed := hp.passed
  rcases c with ⟨passed, _ | ⟨t, rest⟩⟩
  · obtain rfl : ts = [] := by simpa [advance] using hpassed
    rfl
  · by_cases ht : t.kind = .endOfInput
    · obtain rfl : ts = [] := by simpa [advance, ht] using hpassed
      simp [advance, ht]
    · have happend : [t] ++ passed = ts.reverse ++ passed := by simpa [advance, ht] using hpassed
      simp [advance, ht, ← List.append_cancel_right happend]

theorem step_behind {x : Step α} {a : α} (hrun : x.run c = .ok (a, c')) (hp : Passes c ts c')
    (hlength : p.length = c.passed.length) (hback : x.looksBack = true → p.headD (endAt 0) = c.previous) :
    x.run ⟨p, c.ahead⟩ = .ok (a, ⟨ts.reverse ++ p, c'.ahead⟩) := by
  cases x with
  | current =>
    cases hrun
    rw [hp.eq_nil]
    rfl
  | previous =>
    cases hrun
    rw [hp.eq_nil, ← hback rfl]
    rfl
  | position =>
    cases hrun
    rw [hp.eq_nil, Cursor.position, ← hlength]
    rfl
  | sees kinds =>
    cases hrun
    rw [hp.eq_nil]
    rfl
  | next =>
    cases hrun
    rw [← advance_behind hp p]
    rfl
  | skip kind =>
    change Except.ok (if c.sees [kind] then _ else _) = _ at hrun
    change Except.ok (if c.sees [kind] then _ else _) = _
    split at hrun
    · next hsees =>
      cases hrun
      rw [if_pos hsees, advance_behind hp p]
    · next hsees =>
      cases hrun
      rw [if_neg hsees, hp.eq_nil]
      rfl
  | expect kind hint =>
    change (if c.sees [kind] then _ else _) = _ at hrun
    change (if c.sees [kind] then _ else _) = _
    split at hrun
    · next hsees =>
      cases hrun
      rw [if_pos hsees, ← advance_behind hp p]
      rfl
    · cases hrun
  | names =>
    obtain ⟨hwords, hq⟩ := Rule.nextAll_eq_ok (by decide) hrun
    have hts : a = ts := List.append_cancel_right (hq.ahead.symm.trans hp.ahead)
    rw [hts] at hwords ⊢
    rw [hp.ahead]
    exact Rule.nextAll_ok hwords (Rule.current_of_nextAll (by decide) hrun)

namespace Guarded

variable {shy encloses : Bool}

/-- The two parts of a program: where the second one looks back at once, the first one has closed its dice. -/
theorem of_andThen {x : Descent α} {f : α → Descent β} (h : Guarded shy encloses (.andThen x f)) :
    ∃ encloses' shy', Guarded shy encloses' x ∧ (∀ a, Guarded shy' encloses (f a)) ∧
      (shy' = false → encloses' = true ∧ (shy = false ∨ Moves x)) ∧
      (encloses = true → encloses' = true ∨ ∀ a, Moves (f a)) := by
  cases h with
  | andThen hx hf => exact ⟨_, _, hx, hf, fun h => ⟨rfl, .inl h⟩, fun _ => .inl rfl⟩
  | loose hx hf hm => exact ⟨_, _, hx, hf, (by cases ·), fun h => .inr (hm h)⟩
  | moved hx hm hf => exact ⟨_, _, hx, hf, fun _ => ⟨rfl, .inr hm⟩, fun _ => .inl rfl⟩

theorem shy_eq_false {b : Bool} (h : shy = true → b = false) (hb : b = true) : shy = false := by
  cases shy with
  | false => rfl
  | true => rw [h rfl] at hb; cases hb

/-- **What is read behind a token does not depend on which token that is.** Other tokens may stand behind the cursor, as
many of them, if a program that is not shy finds the last one unchanged. -/
theorem stops {x : Descent α} {a : α} (hx : Guarded shy encloses x) (h : Stops x c (.ok (a, c')))
    (hlength : p.length = c.passed.length) (hback : shy = false → p.headD (endAt 0) = c.previous) :
    ∃ ts, Passes c ts c' ∧ Stops x ⟨p, c.ahead⟩ (.ok (a, ⟨ts.reverse ++ p, c'.ahead⟩)) := by
  have behind : ∀ {α : Type} {x : Descent α} {c r}, Stops x c r → ∀ {shy encloses p a c'}, Guarded shy encloses x →
      p.length = c.passed.length → (shy = false → p.headD (endAt 0) = c.previous) → r = .ok (a, c') →
      ∃ ts, Passes c ts c' ∧ Stops x ⟨p, c.ahead⟩ (.ok (a, ⟨ts.reverse ++ p, c'.ahead⟩)) := by
    intro α x c r h
    induction h with
    | give a c =>
      rintro _ _ _ _ _ - - - ⟨⟩
      exact ⟨[], .refl c, .give ..⟩
    | step x c =>
      intro shy encloses p a c' hx hlength hback hrun
      cases hx with
      | step hshy =>
        obtain ⟨ts, htakes⟩ := takes_step hrun
        exact ⟨ts, htakes.passes, .of_eq (step_behind hrun htakes.passes hlength (hback ∘ shy_eq_false hshy))⟩
    | fail => exact fun _ _ _ h => by cases h
    | @read _ y _ _ _ ih =>
      intro shy encloses p a c' hx hlength hback hr
      cases hx with
      | read hshy =>
        have hlooks : (!y.looksBack) = false → y.looksBack = true := by simp
        obtain ⟨ts, hp, hstops⟩ := ih (.ofNonterminal y) hlength (hback ∘ shy_eq_false hshy ∘ hlooks) hr
        exact ⟨ts, hp, .read hstops⟩
    | error => exact fun _ _ _ h => by cases h
    | andThen h₁ _ ih ih' =>
      intro shy encloses p b c' hx hlength hback hr
      obtain ⟨encloses', shy', hx, hf, hshy, -⟩ := hx.of_andThen
      obtain ⟨ts, hp, hstops⟩ := ih hx hlength hback rfl
      have hback' : shy' = false → (ts.reverse ++ p).headD (endAt 0) = _ := fun h =>
        headD_of_passed hp fun hts => (hshy h).2.elim hback fun hm => by
          have hleft := hm h₁
          rw [hp.left_eq, hts, List.length_nil] at hleft
          omega
      obtain ⟨us, hq, hstops'⟩ := ih' (hf _) (by simp [hp.passed, hlength]) hback' hr
      refine ⟨ts ++ us, hp.trans hq, ?_⟩
      rw [List.reverse_append, List.append_assoc]
      exact .andThen hstops hstops'
  exact behind h hx hlength hback rfl

end Guarded

end Descent

end DiceNotation
