import DiceNotation.Proofs.Labels
import DiceNotation.Proofs.Lookback

/-!
Keywords of dice and their other spellings.

`Comes` says that a rule comes to another one on its way over the tokens. The rule for a modifier is come to only behind
the faces of dice. Up to the keyword nothing depends on how it is spelled: what has been read before ends at the
keyword at the latest, and there no rule tells it from a bang. Behind it only a call looks back, and that never as far
as to the keyword. The step is one rule, the run the way through the rules.

Main statement: `Descent.ofTokens_respelled`.
-/

namespace DiceNotation

open Token Token.Cursor

/-! ### Where a rule comes to -/

/-- The rules for the modifier of dice. -/
def Nonterminal.isModifier {α : Type} : Nonterminal α → Bool
  | .optionalModifier | .diceModifier => true
  | _ => false

/-- The rules that enter one of these. -/
def Nonterminal.entersModifier {α : Type} : Nonterminal α → Bool
  | .diceChain _ | .optionalModifier => true
  | _ => false

namespace Descent

/-- On its way from a cursor the program enters the rule of a nonterminal at another one. -/
inductive Enters : {α β : Type} → Descent α → Cursor → Nonterminal β → Cursor → Prop where
  | here {α : Type} (y : Nonterminal α) (c : Cursor) : Enters (.read y) c y c
  | first {α β γ : Type} {x : Descent α} {f : α → Descent β} {y : Nonterminal γ} {c d : Cursor}
      (h : Enters x c y d) : Enters (.andThen x f) c y d
  | next {α β γ : Type} {x : Descent α} {f : α → Descent β} {y : Nonterminal γ} {c c' d : Cursor} {a : α}
      (h : Stops x c (.ok (a, c'))) (h' : Enters (f a) c' y d) : Enters (.andThen x f) c y d

/-- From a cursor the rule of a nonterminal comes to that of another one, by way of any number of rules. -/
inductive Comes {α : Type} (y : Nonterminal α) (c : Cursor) : {β : Type} → Nonterminal β → Cursor → Prop where
  | refl : Comes y c y c
  | tail {β γ : Type} {z : Nonterminal β} {w : Nonterminal γ} {d e : Cursor} (h : Comes y c z d)
      (h' : Enters (ofNonterminal z) d w e) : Comes y c w e

variable {α β γ : Type} {c c' d e : Cursor}

/-- The rule for the modifier of dice stands in the program. -/
def MentionsModifier : {α : Type} → Descent α → Prop
  | _, .read y => y.isModifier = true
  | _, .andThen x f => x.MentionsModifier ∨ ∃ a, (f a).MentionsModifier
  | _, _ => False

namespace Enters

theorem of_bind {x : Descent α} {f : α → Descent β} {y : Nonterminal γ} (h : Enters (x >>= f) c y d) :
    Enters x c y d ∨ ∃ a c', Stops x c (.ok (a, c')) ∧ Enters (f a) c' y d := by
  cases h with
  | first h => exact .inl h
  | next h h' => exact .inr ⟨_, _, h, h'⟩

theorem of_step {x : Step α} {f : α → Descent β} {y : Nonterminal γ} (h : Enters (step x >>= f) c y d) :
    ∃ a c', Stops (step x) c (.ok (a, c')) ∧ Enters (f a) c' y d := by
  rcases h.of_bind with h | h
  · cases h
  · exact h

theorem mentions {x : Descent α} {y : Nonterminal β} (h : Enters x c y d) (hy : y.isModifier = true) :
    x.MentionsModifier := by
  induction h with
  | here => exact hy
  | first _ ih => exact .inl (ih hy)
  | next _ _ ih => exact .inr ⟨_, ih hy⟩

end Enters

section Mentions

variable {y : Nonterminal α}

@[simp] theorem mentions_bind {x : Descent α} {f : α → Descent β} :
    (x >>= f).MentionsModifier ↔ x.MentionsModifier ∨ ∃ a, (f a).MentionsModifier := Iff.rfl

@[simp] theorem mentions_read : (read y).MentionsModifier ↔ y.isModifier = true := Iff.rfl

@[simp] theorem not_mentions_step (x : Step α) : ¬(step x).MentionsModifier := id

@[simp] theorem not_mentions_pure (a : α) : ¬(pure a : Descent α).MentionsModifier := id

@[simp] theorem not_mentions_fail (cause : ParseError.Cause) (token : Token) :
    ¬(fail cause token : Descent α).MentionsModifier := id

@[simp] theorem not_mentions_label : ¬label.MentionsModifier := by
  unfold label
  simp

theorem exists_of_mentions {x : Step α} {f : α → Descent β} (h : (step x >>= f).MentionsModifier) :
    ∃ a, (f a).MentionsModifier := by
  simpa using h

/-- Only the rule for dice and the first one for their modifier enter a rule for a modifier. -/
theorem entersModifier_of_mentions (h : (ofNonterminal y).MentionsModifier) : y.entersModifier = true := by
  cases y with
  | diceChain count => rfl
  | optionalModifier => rfl
  | level l => cases l <;> simp [ofNonterminal, Nonterminal.isModifier] at h
  | diceModifier =>
    obtain ⟨keyword, h⟩ := exists_of_mentions h
    split at h <;> simp [apply_ite MentionsModifier, Nonterminal.isModifier] at h
  | poolModifier =>
    obtain ⟨keyword, h⟩ := exists_of_mentions h
    split at h <;> simp [Nonterminal.isModifier] at h
  | comparison =>
    obtain ⟨token, h⟩ := exists_of_mentions h
    split at h <;> simp [Nonterminal.isModifier] at h
  | primary labelled =>
    obtain ⟨token, h⟩ := exists_of_mentions h
    split at h <;> simp [Nonterminal.isModifier] at h
  | primaryFrom labelled position token =>
    rw [ofNonterminal] at h
    cases labelled <;> split at h <;> simp [labelIf, Nonterminal.isModifier] at h
  | _ => simp [ofNonterminal, Nonterminal.isModifier] at h

end Mentions

/-- The rule comes to a dice operator, and the faces behind it end at a cursor. -/
structure ComesToFaces (y : Nonterminal α) (c : Cursor) (count : Expr) (b : Cursor) (faces : Expr) (d : Cursor) :
    Prop where
  comes : Comes y c (.diceChain count) b
  die : Stops seesDice b (.ok (true, b))
  faces : Stops (read (.call false)) b.advance (.ok (faces, d))

theorem Enters.faces {count : Expr} {w : Nonterminal β} (h : Enters (ofNonterminal (.diceChain count)) c w d)
    (hw : w.isModifier = true) :
    Stops seesDice c (.ok (true, c)) ∧ ∃ faces, Stops (read (.call false)) c.advance (.ok (faces, d)) := by
  have other : ∀ {γ : Type} {x : Descent γ} {c : Cursor}, ¬x.MentionsModifier → ¬Enters x c w d :=
    fun hx h => hx (h.mentions hw)
  rcases h.of_bind with h | ⟨b, c₁, h₁, k₁⟩
  · exact absurd h (other (by unfold seesDice; simp))
  · obtain ⟨rfl, -⟩ := seesDice_eq h₁
    cases b with
    | false => cases k₁
    | true =>
      obtain ⟨slot, c₂, h₂, k₂⟩ := Enters.of_step k₁
      obtain ⟨die, c₃, h₃, k₃⟩ := k₂.of_step
      cases h₂.of_step
      cases h₃.of_step
      refine ⟨h₁, ?_⟩
      rcases k₃.of_bind with h | ⟨faces, c₄, h₄, k₄⟩
      · exact absurd h (other (by simp [Nonterminal.isModifier]))
      · rcases k₄.of_bind with h | ⟨_, c₅, -, k₅⟩
        · cases h
          exact ⟨faces, h₄⟩
        · rcases Enters.of_bind k₅ with h | ⟨_, c₆, -, k₆⟩
          · exact absurd h (other (by simp))
          · exact absurd k₆ (other (by simp [Nonterminal.isModifier]))

/-- The rule for a modifier is entered behind the faces of dice. -/
theorem Comes.faces {y : Nonterminal α} {w : Nonterminal β} (h : Comes y c w d) (hy : y.isModifier = false)
    (hw : w.isModifier = true) : ∃ count b faces, ComesToFaces y c count b faces d := by
  induction h with
  | refl =>
    rw [hy] at hw
    cases hw
  | @tail _ _ z w d e h h' ih =>
    have hz := entersModifier_of_mentions (h'.mentions hw)
    cases z with
    | diceChain count =>
      obtain ⟨hdie, faces, hfaces⟩ := h'.faces hw
      exact ⟨count, d, faces, h, hdie, hfaces⟩
    | optionalModifier =>
      obtain ⟨b, c', h₁, k₁⟩ := h'.of_step
      cases h₁.of_step
      cases hb : d.sees [.name, .bang, .doubleBang] with
      | false =>
        rw [hb] at k₁
        cases k₁
      | true =>
        rw [hb] at k₁
        cases k₁
        exact ih rfl
    | _ => cases hz

/-- Behind the faces of dice the rule for a modifier is entered where one may stand. -/
theorem ComesToFaces.diceModifier {y : Nonterminal α} {count faces : Expr} {b : Cursor}
    (h : ComesToFaces y c count b faces d) (hsees : d.sees [.name, .bang, .doubleBang] = true) :
    Comes y c .diceModifier d := by
  have hstep : Stops (step (.sees [.name, .bang, .doubleBang])) d (.ok (true, d)) := hsees ▸ .step _ d
  have hmodifier : Enters (ofNonterminal (.diceChain count)) b .optionalModifier d :=
    .next h.die (.next (.step .position b) (.next (.step .next b) (.next h.faces (.first (.here ..)))))
  have hkeyword : Enters (ofNonterminal .optionalModifier) d .diceModifier d := .next hstep (.here ..)
  exact (h.comes.tail hmodifier).tail hkeyword

theorem Comes.tighter {y : Nonterminal α} {l : Level} (h : Comes y c (.level l) d) (hl : l < .dice) :
    Comes y c (.level l.tighter) d := by
  refine h.tail ?_
  cases l with
  | choice => exact .first (.here ..)
  | equality => exact .first (.here ..)
  | ordering => exact .first (.here ..)
  | term => exact .first (.here ..)
  | factor => exact .first (.here ..)
  | _ => exact absurd hl (by decide)

/-- An expression may begin with dice. -/
theorem comes_dice (c : Cursor) : Comes (.level .choice) c (.level .dice) c := by
  have hordering := (Comes.refl (y := .level .choice) (c := c)).tighter (by decide) |>.tighter (by decide)
  exact ((hordering.tighter (by decide)).tighter (by decide)).tighter (by decide)

end Descent

/-! ### Another spelling -/

/-- The second token spells the keyword of dice that the first one is, as bangs. -/
structure Token.Alias (k k' : Token) : Prop where
  name : k.kind = .name
  bang : k'.kind = .bang ∨ k'.kind = .doubleBang
  keyword : Modifier.ofKeyword? k'.lexeme = Modifier.ofKeyword? k.lexeme
  noPool : Modifier.ofPoolKeyword? k.lexeme = none

namespace Token.Alias

variable {k k' : Token}

theorem ne_endOfInput (h : k.Alias k') : k.kind ≠ .endOfInput := by
  rw [h.name]
  decide

theorem ne_endOfInput' (h : k.Alias k') : k'.kind ≠ .endOfInput := by
  rcases h.bang with hb | hb <;> rw [hb] <;> decide

theorem contains_eq {kinds : List Kind} (h : k.Alias k') (hb : kinds.contains .bang = kinds.contains .name)
    (hd : kinds.contains .doubleBang = kinds.contains .name) : kinds.contains k'.kind = kinds.contains k.kind := by
  rw [h.name]
  rcases h.bang with hk | hk <;> rw [hk]
  · exact hb
  · exact hd

end Token.Alias

/-- Where the step stays at the one token, it does not tell the other one from it. -/
def Step.Overlooks {α : Type} (k k' : Token) : Step α → Prop
  | .current => False
  | .sees kinds => kinds.contains k'.kind = kinds.contains k.kind
  | .skip kind => kind ≠ k.kind ∧ kind ≠ k'.kind
  | .names => k.kind = .name
  | _ => True

namespace Descent

variable {α β γ : Type} {c c' d e : Cursor}

/-- Where the program stops at the one token, it does not tell the other one from it. -/
inductive Overlooks (k k' : Token) : {α : Type} → Descent α → Prop where
  | give {α : Type} (a : α) : Overlooks k k' (.give a)
  | fail {α : Type} (cause : ParseError.Cause) (token : Token) : Overlooks k k' (.fail cause token : Descent α)
  | step {α : Type} {x : Step α} (h : x.Overlooks k k') : Overlooks k k' (.step x)
  | current {α : Type} {f : Token → Descent α} (h : f k' = f k ∨ ∃ cause token, f k = .fail cause token)
      (hf : ∀ t, Overlooks k k' (f t)) : Overlooks k k' (.andThen (.step .current) f)
  | read {α : Type} {y : Nonterminal α} (h : y.encloses = true) : Overlooks k k' (.read y)
  | andThen {α β : Type} {x : Descent α} {f : α → Descent β} (hx : Overlooks k k' x)
      (hf : ∀ a, Overlooks k k' (f a)) : Overlooks k k' (.andThen x f)
  /-- A program that a token of its own follows stops before that one. -/
  | closed {α β : Type} {x : Descent α} {kind : Kind} {hint : String} {f : α → Token → Descent β}
      (hkind : kind ≠ .endOfInput) (hf : ∀ a t, Overlooks k k' (f a t)) :
      Overlooks k k' (.andThen x fun a => .andThen (.step (.expect kind hint)) (f a))

section

variable {k k' : Token} {p v ts us : List Token}

/-- What has been passed where the next step leads to a token. -/
theorem eq_of_advance (hk : k.kind ≠ .endOfInput) (h : c.advance = ⟨p, k :: v⟩) (hp : Passes c ts ⟨p, k :: v⟩) :
    c.current.kind ≠ .endOfInput ∧ ts = [c.current] ∧ p = c.current :: c.passed := by
  by_cases hend : c.current.kind = .endOfInput
  · rw [advance_of_end hend] at h
    rw [h] at hend
    exact absurd hend hk
  · have hq := passes_advance hend
    rw [h] at hq
    exact ⟨hend, List.append_cancel_right (hp.ahead.symm.trans hq.ahead), hq.passed⟩

theorem step_overlooks {x : Step α} {a : α} (hk : k.kind ≠ .endOfInput) (hx : x.Overlooks k k')
    (h : x.run c = .ok (a, ⟨p, k :: v⟩)) (hp : Passes c ts ⟨p, k :: v⟩) :
    x.run ⟨c.passed, ts ++ k' :: v⟩ = .ok (a, ⟨p, k' :: v⟩) := by
  cases x with
  | current => exact hx.elim
  | previous =>
    cases h
    rw [hp.eq_nil]
    rfl
  | position =>
    cases h
    rw [hp.eq_nil]
    rfl
  | sees kinds =>
    cases h
    rw [hp.eq_nil]
    exact congrArg (fun b => Except.ok (b, _)) hx
  | next =>
    obtain ⟨rfl, hadvance⟩ := Prod.mk.inj (Except.ok.inj h)
    obtain ⟨hend, rfl, rfl⟩ := eq_of_advance hk hadvance hp
    exact Rule.next_ok hend
  | skip kind =>
    change Except.ok (if c.sees [kind] then _ else _) = _ at h
    split at h
    · next hsees =>
      obtain ⟨rfl, hadvance⟩ := Prod.mk.inj (Except.ok.inj h)
      obtain ⟨hend, rfl, rfl⟩ := eq_of_advance hk hadvance hp
      have hkind := Rule.sees_iff.1 hsees
      exact Rule.skip_ok hkind (hkind ▸ hend)
    · cases h
      rw [hp.eq_nil]
      exact Rule.skip_other hx.2.symm
  | expect kind hint =>
    change (if c.sees [kind] then _ else _) = _ at h
    split at h
    · next hsees =>
      obtain ⟨rfl, hadvance⟩ := Prod.mk.inj (Except.ok.inj h)
      obtain ⟨hend, rfl, rfl⟩ := eq_of_advance hk hadvance hp
      have hkind := Rule.sees_iff.1 hsees
      exact Rule.expect_ok hkind (hkind ▸ hend)
    · cases h
  | names => exact absurd hx (Rule.current_of_nextAll (by decide) h)

/-- The first program stops before the keyword or at it. Only in the second case does it come to the other spelling. -/
theorem Overlooks.andThen_stops {x : Descent α} {f : α → Descent β} {a : α} {b : β} (hx : Overlooks k k' (.andThen x f))
    (h₁ : Stops x c (.ok (a, d))) (h₂ : Stops (f a) d (.ok (b, ⟨p, k :: v⟩))) (hp₁ : Passes c ts d)
    (hp₂ : Passes d us ⟨p, k :: v⟩) (ih : Overlooks k k' x → d = ⟨p, k :: v⟩ →
      Stops x ⟨c.passed, ts ++ k' :: v⟩ (.ok (a, ⟨p, k' :: v⟩)))
    (ih' : Overlooks k k' (f a) → Stops (f a) ⟨d.passed, us ++ k' :: v⟩ (.ok (b, ⟨p, k' :: v⟩))) :
    Stops (.andThen x f) ⟨c.passed, ts ++ us ++ k' :: v⟩ (.ok (b, ⟨p, k' :: v⟩)) := by
  have hboth : ∀ {a'}, f a' = f a → Overlooks k k' (f a) →
      Stops x ⟨c.passed, ts ++ (us ++ k' :: v)⟩ (.ok (a', ⟨d.passed, us ++ k' :: v⟩)) →
      Stops (.andThen x f) ⟨c.passed, ts ++ us ++ k' :: v⟩ (.ok (b, ⟨p, k' :: v⟩)) := by
    intro a' hf hfa hstops
    rw [List.append_assoc]
    exact .andThen hstops (hf ▸ ih' hfa)
  by_cases hus : us = []
  · subst hus
    obtain rfl : d = ⟨p, k :: v⟩ := hp₂.eq_of_nil.symm
    cases hx with
    | @current _ f hk' hf =>
      obtain ⟨rfl, rfl⟩ := h₁.of_current
      obtain rfl := hp₁.eq_nil
      rcases hk' with hk' | ⟨cause, token, hfail⟩
      · exact hboth hk' (hf _) (.step .current _)
      · change Stops (f k) _ _ at h₂
        rw [hfail] at h₂
        cases h₂
    | andThen hx hf => exact hboth rfl (hf a) (ih hx rfl)
    | closed hkind hf =>
      have hleft := (moves_expect hkind _).bind _ h₂
      exact absurd hleft (Nat.lt_irrefl _)
  · have hstops := h₁.before hp₁ hp₂ hus (k' :: v)
    cases hx with
    | current _ hf => exact hboth rfl (hf a) hstops
    | andThen _ hf => exact hboth rfl (hf a) hstops
    | closed _ hf => exact hboth rfl (.andThen (.step trivial) (hf a)) hstops

variable (hk : k.Alias k')

include hk

theorem overlooks_label : Overlooks k k' label := by
  have hname : Kind.leftBracket ≠ k.kind := by
    rw [hk.name]
    decide
  have hbang : Kind.leftBracket ≠ k'.kind := by
    rcases hk.bang with h | h <;> rw [h] <;> decide
  refine .andThen (.step ⟨hname, hbang⟩) fun b => ?_
  cases b with
  | false => exact .give _
  | true => exact .andThen (.step hk.name) fun _ => .andThen (.step trivial) fun _ => .give _

/-- The rules that put dice in brackets, where they stop at the keyword. -/
theorem overlooks_ofNonterminal {y : Nonterminal α} (hy : y.encloses = true) : Overlooks k k' (ofNonterminal y) := by
  cases y with
  | call labelled => exact .andThen (.read rfl) fun _ => .read rfl
  | applications callee =>
    refine .andThen (.step (hk.contains_eq (by decide) (by decide))) fun b => ?_
    cases b with
    | false => exact .give _
    | true =>
      exact .andThen (.step trivial) fun _ => .andThen (.step trivial) fun _ => .closed (by decide) fun _ _ => .read rfl
  | primary labelled =>
    refine .current (.inl ?_) fun t => ?_
    · rw [if_neg hk.ne_endOfInput, if_neg hk.ne_endOfInput']
    · split
      · exact .fail ..
      · exact .andThen (.step trivial) fun _ => .andThen (.step trivial) fun _ => .read rfl
  | primaryFrom labelled position token =>
    have hlabel : Overlooks k k' (labelIf labelled) := by
      cases labelled with
      | false => exact .give _
      | true => exact overlooks_label hk
    rw [ofNonterminal]
    split
    · exact .give _
    · exact .give _
    · exact .andThen hlabel fun _ => .give _
    · exact .andThen hlabel fun _ => .give _
    · exact .closed (by decide) fun _ _ => .andThen (.read rfl) fun _ => .give _
    · exact .closed (by decide) fun _ _ => .give _
    · exact .give _
  | poolModifier =>
    refine .current (.inr ⟨.noPoolModifier k.lexeme, k, ?_⟩) fun t => ?_
    · rw [if_pos hk.name, hk.noPool]
    · split
      · exact .fail ..
      · exact .andThen (.step trivial) fun _ => .andThen (.read rfl) fun _ => .give _
  | comparison =>
    refine .current (.inl ?_) fun t => ?_
    · rcases hk.bang with h | h <;> rw [h, hk.name] <;> rfl
    · split
      · exact .andThen (.step trivial) fun _ => .andThen (.read rfl) fun _ => .give _
      · refine .andThen (.step (hk.contains_eq (by decide) (by decide))) fun b => ?_
        cases b with
        | false => exact .give _
        | true => exact .andThen (.step trivial) fun _ => .give _
  | _ => cases hy

/-- Where a program that overlooks the difference stops at the keyword, it stops as well at its other spelling. -/
theorem Overlooks.stops {x : Descent α} {a : α} (hx : Overlooks k k' x) (h : Stops x c (.ok (a, ⟨p, k :: v⟩)))
    (hp : Passes c ts ⟨p, k :: v⟩) : Stops x ⟨c.passed, ts ++ k' :: v⟩ (.ok (a, ⟨p, k' :: v⟩)) := by
  have atKeyword : ∀ {α : Type} {x : Descent α} {c r}, Stops x c r → ∀ {a ts}, Overlooks k k' x → r = .ok (a, ⟨p, k :: v⟩) →
      Passes c ts ⟨p, k :: v⟩ → Stops x ⟨c.passed, ts ++ k' :: v⟩ (.ok (a, ⟨p, k' :: v⟩)) := by
    intro α x c r h
    induction h with
    | give a c =>
      rintro _ ts - ⟨⟩ hp
      rw [hp.eq_nil]
      exact .give ..
    | step x c =>
      intro a ts hx hrun hp
      cases hx with
      | step hx => exact .of_eq (step_overlooks hk.ne_endOfInput hx hrun hp)
    | fail => exact fun _ h => by cases h
    | read _ ih =>
      intro a ts hx hr hp
      cases hx with
      | read hy => exact .read (ih (overlooks_ofNonterminal hk hy) hr hp)
    | error => exact fun _ h => by cases h
    | andThen h₁ h₂ ih ih' =>
      rintro b ts hx rfl hp
      obtain ⟨ts₁, htakes₁⟩ := h₁.takes
      obtain ⟨ts₂, htakes₂⟩ := h₂.takes
      have hp₁ := htakes₁.passes
      have hp₂ := htakes₂.passes
      obtain rfl : ts = ts₁ ++ ts₂ := List.append_cancel_right (hp.ahead.symm.trans (hp₁.trans hp₂).ahead)
      exact hx.andThen_stops h₁ h₂ hp₁ hp₂ (fun hx hd => ih hx (by rw [hd]) (hd ▸ hp₁)) fun hf => ih' hf rfl hp₂
  exact atKeyword h hx rfl hp

end

section Respells

/-- The program goes over the tokens to the keyword and reads on behind it. What it gives, it gives as well where the
keyword is spelled in another way; if it `encloses`, it has passed some token behind the modifier. -/
structure Respells (k k' : Token) (p v : List Token) (encloses : Bool) (x : Descent α) (c : Cursor) (ts : List Token) :
    Prop where
  passes : Passes c ts ⟨p, k :: v⟩
  ne_nil : ts ≠ []
  stops : ∀ a c', Stops x c (.ok (a, c')) → ∃ us, Passes ⟨k :: p, v⟩ us c' ∧ (encloses = true → us ≠ []) ∧
    Stops x ⟨c.passed, ts ++ k' :: v⟩ (.ok (a, ⟨us.reverse ++ k' :: p, c'.ahead⟩))

variable {k k' : Token} {p v ts us : List Token} {shy encloses : Bool}

/-- Behind the keyword nothing tells its spellings apart. -/
theorem Guarded.respelled {x : Descent α} {a : α} (k' : Token) (hx : Guarded shy encloses x)
    (h : Stops x c (.ok (a, c'))) (hp : Passes ⟨k :: p, v⟩ us c) (hne : shy = false → us ≠ []) :
    ∃ ws, Passes c ws c' ∧
      Stops x ⟨us.reverse ++ k' :: p, c.ahead⟩ (.ok (a, ⟨(us ++ ws).reverse ++ k' :: p, c'.ahead⟩)) := by
  have hlength : (us.reverse ++ k' :: p).length = c.passed.length := by simp [hp.passed]
  have hback : shy = false → (us.reverse ++ k' :: p).headD (endAt 0) = c.previous := fun hs =>
    headD_of_passed hp fun hus => absurd hus (hne hs)
  obtain ⟨ws, hq, hstops⟩ := hx.stops h hlength hback
  refine ⟨ws, hq, ?_⟩
  rwa [List.reverse_append, List.append_assoc]

theorem Respells.of_enters {x : Descent α} {z : Nonterminal β} (h : Enters x c z d) (hx : Guarded shy encloses x)
    (hz : Respells k k' p v z.encloses (read z) d ts) : ∃ ts', Respells k k' p v encloses x c ts' := by
  induction h generalizing shy encloses with
  | here z c =>
    cases hx with
    | read _ hencloses =>
      refine ⟨ts, hz.passes, hz.ne_nil, fun a c' h => ?_⟩
      obtain ⟨us, hp, hne, hstops⟩ := hz.stops a c' h
      exact ⟨us, hp, hne ∘ hencloses, hstops⟩
  | @first _ _ _ x f z c d h ih =>
    obtain ⟨encloses', shy', hx, hf, hshy, hclose⟩ := hx.of_andThen
    obtain ⟨ts', hread⟩ := ih hx hz
    refine ⟨ts', hread.passes, hread.ne_nil, fun b c' hstops => ?_⟩
    obtain ⟨a, c₁, h₁, k₁⟩ := Stops.of_bind hstops
    obtain ⟨us, hp, hne, hfirst⟩ := hread.stops a c₁ h₁
    obtain ⟨ws, hq, hrest⟩ := (hf a).respelled k' k₁ hp fun hs => hne (hshy hs).1
    refine ⟨us ++ ws, hp.trans hq, fun hencloses => ?_, .andThen hfirst hrest⟩
    rcases hclose hencloses with he | hmoves
    · exact List.append_ne_nil_of_left_ne_nil (hne he) ws
    · have hleft := hmoves a k₁
      rw [hq.left_eq] at hleft
      refine List.append_ne_nil_of_right_ne_nil us fun hws => ?_
      rw [hws, List.length_nil] at hleft
      omega
  | @next _ _ _ x f z c c₁ d a h₁ _ ih =>
    obtain ⟨-, shy', -, hf, -⟩ := hx.of_andThen
    obtain ⟨ts', hread⟩ := ih (hf a) hz
    obtain ⟨ts₁, htakes⟩ := h₁.takes
    refine ⟨ts₁ ++ ts', htakes.passes.trans hread.passes,
      List.append_ne_nil_of_right_ne_nil ts₁ hread.ne_nil, fun b c' hstops => ?_⟩
    obtain ⟨a', c₁', h₁', k₁⟩ := Stops.of_bind hstops
    obtain ⟨rfl, rfl⟩ := Prod.mk.inj (Except.ok.inj (h₁.unique h₁'))
    obtain ⟨us, hp, hne, hrest⟩ := hread.stops b c' k₁
    refine ⟨us, hp, hne, ?_⟩
    rw [List.append_assoc]
    exact .andThen (h₁.before htakes.passes hread.passes hread.ne_nil (k' :: v)) hrest

theorem Respells.of_comes {y : Nonterminal α} {z : Nonterminal β} (h : Comes y c z d)
    (hz : Respells k k' p v z.encloses (read z) d ts) : ∃ ts', Respells k k' p v y.encloses (read y) c ts' := by
  induction h generalizing ts with
  | refl => exact ⟨ts, hz⟩
  | tail _ h' ih =>
    obtain ⟨ts', hread⟩ := hz.of_enters h' (.ofNonterminal _)
    refine ih ⟨hread.passes, hread.ne_nil, fun a c' hstops => ?_⟩
    obtain ⟨us, hp, hne, hrest⟩ := hread.stops a c' hstops.of_read
    exact ⟨us, hp, hne, .read hrest⟩

section

variable (hk : k.Alias k')

include hk

/-- The modifier is the same in the other spelling. -/
theorem optionalModifier_respelled {m : Modifier × Comparison × Target Expr}
    (h : Stops (read .optionalModifier) ⟨p, k :: v⟩ (.ok (m, c'))) : ∃ us, Passes ⟨k :: p, v⟩ us c' ∧
      Stops (read .optionalModifier) ⟨p, k' :: v⟩ (.ok (m, ⟨us.reverse ++ k' :: p, c'.ahead⟩)) := by
  have hsees : [Kind.name, .bang, .doubleBang].contains k.kind = true := by
    rw [hk.name]
    decide
  have hsees' : Rule.sees [.name, .bang, .doubleBang] ⟨p, k' :: v⟩ = .ok (true, ⟨p, k' :: v⟩) :=
    Rule.sees_ok ((hk.contains_eq (by decide) (by decide)).trans hsees)
  obtain ⟨b, c₁, h₁, k₁⟩ := h.of_read.of_bind
  cases h₁.of_step
  rw [show (⟨p, k :: v⟩ : Cursor).sees [.name, .bang, .doubleBang] = true from hsees] at k₁
  obtain ⟨keyword, c₂, h₂, k₂⟩ := (Stops.of_read k₁).of_bind
  cases h₂.of_step.trans (Rule.next_ok hk.ne_endOfInput)
  dsimp only at k₂
  cases hw : Modifier.ofKeyword? k.lexeme with
  | none => rw [hw] at k₂; cases k₂
  | some modifier =>
    rw [hw] at k₂
    obtain ⟨operator, c₃, h₃, k₃⟩ := Stops.of_bind k₂
    obtain ⟨rfl, rfl⟩ := h₃.of_current
    obtain ⟨⟨comparison, written⟩, c₄, h₄, k₄⟩ := k₃.of_bind
    dsimp only at k₄
    split at k₄
    · cases k₄
    · next hselection =>
      cases k₄.of_give
      have hcomparison : Guarded true true (read .comparison) := .read (fun _ => rfl) fun _ => rfl
      obtain ⟨us, hp, hstops⟩ := hcomparison.respelled k' h₄ (.refl _) fun h => by cases h
      have hnext : Rule.next ⟨p, k' :: v⟩ = .ok (k', ⟨k' :: p, v⟩) :=
        Rule.next_ok hk.ne_endOfInput'
      refine ⟨us, hp, .read (.andThen (.of_eq hsees') (.read (.andThen (.of_eq hnext) ?_)))⟩
      rw [hk.keyword, hw]
      refine .andThen (.step .current _) (.andThen hstops ?_)
      dsimp only
      rw [if_neg hselection]
      exact .give ..

/-- Dice with the keyword are the same in the other spelling. -/
theorem ComesToFaces.respells {y : Nonterminal α} {count faces : Expr} {b : Cursor}
    (h : ComesToFaces y c count b faces ⟨p, k :: v⟩) :
    ∃ ts, Respells k k' p v false (read (.diceChain count)) b ts := by
  obtain ⟨-, hdie, hfaces⟩ := h
  have hne := (seesDice_eq hdie).2 rfl
  have hp := passes_advance hne
  obtain ⟨fs, htakes⟩ := hfaces.takes
  refine ⟨b.current :: fs, hp.cons htakes.passes, List.cons_ne_nil _ _, fun e c' hstops => ?_⟩
  obtain ⟨sees, c₁, h₁, k₁⟩ := hstops.of_read.of_bind
  cases h₁.unique hdie
  obtain ⟨slot, c₂, h₂, k₂⟩ := Stops.of_bind k₁
  obtain ⟨die, c₃, h₃, k₃⟩ := k₂.of_bind
  obtain ⟨faces', c₄, h₄, k₄⟩ := k₃.of_bind
  cases h₂.of_step
  cases h₃.of_step
  cases h₄.unique hfaces
  obtain ⟨m, c₅, h₅, k₅⟩ := k₄.of_bind
  obtain ⟨us, hq, hmodifier⟩ := optionalModifier_respelled hk h₅
  have hrest : Guarded true false
      (label >>= fun l => read (.diceChain (.dice b.position count faces l m.1 m.2.1 m.2.2))) :=
    .andThen .label fun _ => .nested rfl
  obtain ⟨ws, hw, hstops'⟩ := hrest.respelled k' k₅ hq fun h => by cases h
  refine ⟨us ++ ws, hq.trans hw, fun h => (by cases h), .read ?_⟩
  have hfaces' : Overlooks k k' (read (.call false)) := .read rfl
  have hnext : Rule.next ⟨b.passed, b.current :: (fs ++ k' :: v)⟩ =
      .ok (b.current, ⟨b.current :: b.passed, fs ++ k' :: v⟩) := Rule.next_ok hne
  have hdie' := hdie.before (.refl b) (hp.cons htakes.passes) (List.cons_ne_nil _ _) (k' :: v)
  have hafter := hfaces'.stops hk hfaces htakes.passes
  rw [show b.advance.passed = b.current :: b.passed from hp.passed] at hafter
  exact .andThen hdie' (.andThen (.step .position _) (.andThen (.of_eq hnext)
    (.andThen hafter (.andThen hmodifier hstops'))))

/-- **A keyword of dice and its bangs.** Where the keyword is taken as the modifier of dice on the way to a whole
expression, the tokens with the bangs in its place are the same expression. -/
theorem ofTokens_respelled {head tail : List Token} {e : Expr}
    (hcomes : Comes (.level .choice) (.start (head ++ k :: tail)) .diceModifier ⟨head.reverse, k :: tail⟩)
    (h : Expr.ofTokens (head ++ k :: tail) = .ok e) : Expr.ofTokens (head ++ k' :: tail) = .ok e := by
  obtain ⟨count, b, faces, hfaces⟩ := hcomes.faces rfl rfl
  obtain ⟨ts, hdice⟩ := hfaces.respells hk
  obtain ⟨ts', hwhole⟩ := hdice.of_comes hfaces.comes
  obtain ⟨c', hread, hend⟩ := ofTokens_eq_ok_iff.1 h
  obtain ⟨us, hp, -, hstops⟩ := hwhole.stops e c' hread
  have hts : head = ts' := List.append_cancel_right (show head ++ k :: tail = ts' ++ k :: tail from hwhole.passes.ahead)
  rw [← hts] at hstops
  exact ofTokens_eq_ok_iff.2 ⟨_, hstops, hend⟩

end

end Respells

end Descent

end DiceNotation
