import DiceNotation.Proofs.Bounds

/-!
What a program looks at.

No program looks behind the token at which it stops: whatever it gives, it gives as well where other tokens stand behind
that one. So what has been read of an input is read as well of another that goes on in a different way. For dice at the
end of a chain that is all up to what follows their faces.

Main statement: `Descent.Stops.takes`.
-/

namespace DiceNotation

open Token Token.Cursor

namespace Descent

variable {α β : Type} {c c' c'' : Cursor} {r : Except ParseError (α × Cursor)} {p ts us rest : List Token} {t : Token}

/-! ### From the end of a program to those of its parts -/

namespace Stops

theorem of_give {a : α} (h : Stops (pure a) c r) : r = .ok (a, c) := by
  change Stops (.give a) c r at h
  cases h
  rfl

theorem of_step {x : Step α} (h : Stops (.step x) c r) : r = x.run c := by
  cases h
  rfl

theorem of_current (h : Stops (.step .current) c (.ok (t, c'))) : t = c.current ∧ c' = c := by
  cases h.of_step
  exact ⟨rfl, rfl⟩

theorem of_read {x : Nonterminal α} (h : Stops (.read x) c r) : Stops (ofNonterminal x) c r := by
  cases h
  assumption

theorem of_bind {x : Descent α} {f : α → Descent β} {b : β} (h : Stops (x >>= f) c (.ok (b, c''))) :
    ∃ a c', Stops x c (.ok (a, c')) ∧ Stops (f a) c' (.ok (b, c'')) := by
  change Stops (.andThen x f) c _ at h
  cases h with
  | andThen h h' => exact ⟨_, _, h, h'⟩

end Stops

/-! ### What stands behind -/

theorem headD_of_passes (h : Passes c ts c') (hrest : rest.headD (endAt 0) = c'.current) :
    (ts ++ rest).headD (endAt 0) = c.current := by
  rw [current, h.ahead]
  cases ts with
  | nil => exact hrest
  | cons => rfl

/-- The program passes these tokens and gives this, whatever stands behind the next token. -/
structure Takes (y : Descent α) (c : Cursor) (ts : List Token) (a : α) (c' : Cursor) : Prop where
  passes : Passes c ts c'
  stops : ∀ rest, rest.headD (endAt 0) = c'.current → Stops y ⟨c.passed, ts ++ rest⟩ (.ok (a, ⟨c'.passed, rest⟩))

section Steps

variable {x : Step α} {a : α}

theorem takes_stay (h : ∀ d : Cursor, d.passed = c.passed → d.current = c.current → x.run d = .ok (a, d)) :
    ∃ ts, Takes (step x) c ts a c :=
  ⟨[], .refl c, fun rest hrest => .of_eq (h ⟨c.passed, rest⟩ rfl hrest)⟩

theorem takes_next (hc : c.current.kind ≠ .endOfInput)
    (h : ∀ d : Cursor, d.current = c.current → x.run d = .ok (a, d.advance)) :
    ∃ ts, Takes (step x) c ts a c.advance := by
  refine ⟨[c.current], passes_advance hc, fun rest _ => ?_⟩
  have hadvance : (⟨c.passed, c.current :: rest⟩ : Cursor).advance = ⟨c.current :: c.passed, rest⟩ := if_neg hc
  have hrun := h ⟨c.passed, c.current :: rest⟩ rfl
  rw [hadvance] at hrun
  rw [(passes_advance hc).passed]
  exact .of_eq hrun

/-- Passing the end of input is staying there. -/
theorem takes_advance (h : ∀ d : Cursor, d.current = c.current → x.run d = .ok (a, d.advance)) :
    ∃ ts, Takes (step x) c ts a c.advance := by
  by_cases hc : c.current.kind = .endOfInput
  · rw [advance_of_end hc]
    refine takes_stay fun d _ hd => ?_
    have hrun := h d hd
    rwa [advance_of_end (hd ▸ hc)] at hrun
  · exact takes_next hc h

theorem takes_step (h : x.run c = .ok (a, c')) :
    ∃ ts, Takes (step x) c ts a c' := by
  cases x with
  | current =>
    cases h
    exact takes_stay fun d _ hd => by rw [← hd]; rfl
  | previous =>
    cases h
    exact takes_stay fun d hd _ => by rw [previous, ← hd]; rfl
  | position =>
    cases h
    exact takes_stay fun d hd _ => by rw [Cursor.position, ← hd]; rfl
  | sees kinds =>
    cases h
    exact takes_stay fun d _ hd => by rw [Cursor.sees, ← hd]; rfl
  | next =>
    cases h
    exact takes_advance fun d hd => by rw [← hd]; rfl
  | skip kind =>
    change Except.ok (if c.sees [kind] then _ else _) = _ at h
    by_cases hs : c.sees [kind] = true
    · rw [if_pos hs] at h
      cases h
      exact takes_advance fun d hd => congrArg Except.ok (if_pos (show d.sees [kind] = true by rwa [sees, hd]))
    · rw [if_neg hs] at h
      cases h
      exact takes_stay fun d _ hd => congrArg Except.ok (if_neg (show ¬d.sees [kind] = true by rwa [sees, hd]))
  | expect kind hint =>
    change (if c.sees [kind] then _ else _) = _ at h
    by_cases hs : c.sees [kind] = true
    · rw [if_pos hs] at h
      cases h
      refine takes_advance fun d hd => ?_
      have hd' : d.sees [kind] = true := by rwa [sees, hd]
      show (if d.sees [kind] then _ else _) = _
      rw [if_pos hd', hd]
    · rw [if_neg hs] at h
      cases h
  | names =>
    obtain ⟨hwords, hp⟩ := Rule.nextAll_eq_ok (by decide) h
    refine ⟨a, hp, fun rest hrest => .of_eq ?_⟩
    have hother : nextKind rest ≠ .name := by
      rw [nextKind, hrest]
      exact Rule.current_of_nextAll (by decide) h
    rw [hp.passed]
    exact Rule.nextAll_ok hwords hother

end Steps

/-- **Nothing is looked at behind the token at which a program stops.** -/
theorem Stops.takes {y : Descent α} {a : α} (h : Stops y c (.ok (a, c'))) : ∃ ts, Takes y c ts a c' := by
  have takes : ∀ {α : Type} {y : Descent α} {c r}, Stops y c r → ∀ a c', r = .ok (a, c') → ∃ ts, Takes y c ts a c' := by
    intro α y c r h
    induction h with
    | give a c =>
      rintro _ _ ⟨⟩
      exact ⟨[], .refl c, fun _ _ => .give ..⟩
    | step x c => exact fun a c' h => takes_step h
    | fail => exact fun _ _ h => by cases h
    | read _ ih =>
      intro a c' h
      obtain ⟨ts, htakes⟩ := ih a c' h
      exact ⟨ts, { htakes with stops := fun rest hrest => .read (htakes.stops rest hrest) }⟩
    | error => exact fun _ _ h => by cases h
    | andThen _ _ ih ih' =>
      intro b c'' h
      obtain ⟨ts, htakes⟩ := ih _ _ rfl
      obtain ⟨us, htakes'⟩ := ih' b c'' h
      refine ⟨ts ++ us, htakes.passes.trans htakes'.passes, fun rest hrest => ?_⟩
      rw [List.append_assoc]
      exact .andThen (htakes.stops _ (headD_of_passes htakes'.passes hrest)) (htakes'.stops rest hrest)
  exact takes h a c' rfl

/-- What has been read before other tokens is read as well where something else stands behind those. -/
theorem Stops.before {x : Descent α} {a : α} (h : Stops x c (.ok (a, c'))) (hp : Passes c ts c')
    (hq : Passes c' us c'') (hne : us ≠ []) (rest : List Token) :
    Stops x ⟨c.passed, ts ++ (us ++ rest)⟩ (.ok (a, ⟨c'.passed, us ++ rest⟩)) := by
  obtain ⟨ts', htakes⟩ := h.takes
  obtain rfl : ts' = ts := List.append_cancel_right (htakes.passes.ahead.symm.trans hp.ahead)
  refine htakes.stops (us ++ rest) ?_
  obtain ⟨u, us, rfl⟩ := List.exists_cons_of_ne_nil hne
  rw [Cursor.current, hq.ahead]
  rfl

theorem Stops.left_le {y : Descent α} {a : α} (h : Stops y c (.ok (a, c'))) : c'.left ≤ c.left := by
  obtain ⟨ts, htakes⟩ := h.takes
  exact htakes.passes.left_le

/-! ### The last dice of a chain -/

/-- The rest of a round of the dice loop, behind the faces. -/
def behindFaces (slot : Slot) (count faces : Expr) : Descent Expr := do
  let (modifier, c, target) ← read .optionalModifier
  let l ← label
  read (.diceChain (.dice slot count faces l modifier c target))

/-- The program goes over the tokens to behind the faces of these dice, whatever stands behind the next token. -/
structure Opens (y : Descent Expr) (c : Cursor) (ts : List Token) (slot : Slot) (count faces : Expr) (d : Cursor) :
    Prop where
  passes : Passes c ts d
  stops : ∀ rest r, rest.headD (endAt 0) = d.current → Stops (behindFaces slot count faces) ⟨d.passed, rest⟩ r →
    Stops y ⟨c.passed, ts ++ rest⟩ r

namespace Opens

variable {d : Cursor} {slot : Slot} {count faces : Expr}

theorem refl (c : Cursor) (slot : Slot) (count faces : Expr) :
    Opens (behindFaces slot count faces) c [] slot count faces c :=
  ⟨.refl c, fun _ _ _ h => h⟩

theorem read {y : Nonterminal Expr} (h : Opens (ofNonterminal y) c ts slot count faces d) :
    Opens (.read y) c ts slot count faces d :=
  { h with stops := fun rest r hrest hr => .read (h.stops rest r hrest hr) }

theorem bind {x : Descent α} {f : α → Descent Expr} {a : α} (hx : Takes x c ts a c')
    (hf : Opens (f a) c' us slot count faces d) : Opens (x >>= f) c (ts ++ us) slot count faces d where
  passes := hx.passes.trans hf.passes
  stops rest r hrest hr := by
    rw [List.append_assoc]
    exact .andThen (hx.stops _ (headD_of_passes hf.passes hrest)) (hf.stops rest r hrest hr)

end Opens

/-- The program gives dice and ends behind what follows their faces. -/
inductive GivesDice (y : Descent Expr) (c c' : Cursor) : Expr → Prop where
  | intro {ts : List Token} {slot : Slot} {count faces : Expr} {d d' : Cursor} {l : Option String} {modifier : Modifier}
      {comparison : Comparison} {target : Target Expr} (opens : Opens y c ts slot count faces d)
      (hm : Stops (.read .optionalModifier) d (.ok ((modifier, comparison, target), d')))
      (hl : Stops label d' (.ok (l, c'))) : GivesDice y c c' (.dice slot count faces l modifier comparison target)

namespace GivesDice

variable {e : Expr}

theorem bind {x : Descent α} {f : α → Descent Expr} {a : α} (hx : Stops x c (.ok (a, c')))
    (hf : GivesDice (f a) c' c'' e) : GivesDice (x >>= f) c c'' e := by
  obtain ⟨ts, htakes⟩ := hx.takes
  obtain ⟨hopens, hm, hl⟩ := hf
  exact ⟨.bind htakes hopens, hm, hl⟩

theorem read {y : Nonterminal Expr} (h : GivesDice (ofNonterminal y) c c' e) : GivesDice (.read y) c c' e := by
  obtain ⟨hopens, hm, hl⟩ := h
  exact ⟨.read hopens, hm, hl⟩

end GivesDice

theorem seesDice_eq {b : Bool} (h : Stops seesDice c (.ok (b, c'))) :
    c' = c ∧ (b = true → c.current.kind ≠ .endOfInput) := by
  obtain ⟨t, c₁, h₁, h₂⟩ := h.of_bind
  cases h₁.of_step
  cases h₂.of_give
  refine ⟨rfl, fun hb hend => ?_⟩
  simp [hend] at hb

theorem givesDice_of_chain {count e : Expr} (h : Stops (.read (.diceChain count)) c (.ok (e, c'))) :
    e = count ∧ c' = c ∨ GivesDice (.read (.diceChain count)) c c' e := by
  induction hn : c.left using Nat.strongRecOn generalizing count c with
  | ind n ih =>
    obtain ⟨b, c₁, h₁, k₁⟩ := h.of_read.of_bind
    obtain ⟨rfl, hne⟩ := seesDice_eq h₁
    cases b with
    | false =>
      cases k₁.of_give
      exact .inl ⟨rfl, rfl⟩
    | true =>
      obtain ⟨slot, c₂, h₂, k₂⟩ := Stops.of_bind k₁
      obtain ⟨die, c₃, h₃, k₃⟩ := k₂.of_bind
      obtain ⟨faces, c₄, h₄, k₄⟩ := k₃.of_bind
      obtain ⟨⟨modifier, comparison, target⟩, c₅, h₅, k₅⟩ := k₄.of_bind
      obtain ⟨l, c₆, h₆, k₆⟩ := Stops.of_bind k₅
      refine .inr (.read (.bind h₁ (.bind h₂ (.bind h₃ (.bind h₄ ?_)))))
      have hleft : c₆.left < n := by
        cases h₂.of_step
        cases h₃.of_step
        have hdie := (passes_advance (hne rfl)).left_eq
        have hrest := Nat.le_trans h₆.left_le (Nat.le_trans h₅.left_le h₄.left_le)
        simp only [List.length_singleton] at hdie
        omega
      rcases ih _ hleft k₆ rfl with ⟨rfl, rfl⟩ | hlast
      · exact ⟨.refl .., h₅, h₆⟩
      · exact .bind h₅ (.bind h₆ hlast)

end Descent

end DiceNotation
